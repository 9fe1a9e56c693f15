import TdsAdmin.Proof.Package.Metadata

/-!
# Which line is rewritten, and into what

Seven rewritings fall through one after another on a line, and a later one sees what an earlier one
has written. As long as no `<` comes into a line with a value, nothing that is written sets off
another rewriting, and what becomes of a line follows from its position among the three landmarks
(`rewriteAt`). `AtPosition` is the invariant of the loop, `scanLine_at` one turn of it.
-/

set_option autoImplicit false

namespace TdsAdmin
namespace Package

variable {t : Option Text} {lines : List Text} {s s' : Scan} {l m : Text} {i : Nat}

/-! ## The landmarks -/

/-- The first line with `<testspecification`. -/
def headerAt (lines : List Text) : Nat := firstFrom isTestspecification 0 lines

/-- The first line behind it with `<identifier`. -/
def identifierAt (lines : List Text) : Nat := firstFrom isIdentifier (headerAt lines + 1) lines

/-- The first line behind that with `<registration>` that is no `subject` line. -/
def registrationAt (lines : List Text) : Nat :=
  firstFrom isRegistrationLine (identifierAt lines + 1) lines

theorem headerAt_lt : headerAt lines < identifierAt lines := le_firstFrom

theorem identifierAt_lt : identifierAt lines < registrationAt lines := le_firstFrom

/-- Neither the tenant id nor a value that is taken from a line and written into one holds `<`. -/
structure NoTagInside (t : Option Text) (lines : List Text) : Prop where
  tenantId : '<' ∉ interpolate t
  publishDate : ∀ l, lines[headerAt lines]? = some l → '<' ∉ interpolate (testPublishDate l)
  uniqueId : ∀ l, lines[identifierAt lines]? = some l → '<' ∉ interpolate (uniqueIdOf l)
  label : ∀ l, lines[identifierAt lines]? = some l → '<' ∉ interpolate (testLabelOf l)
  version : ∀ l, lines[identifierAt lines]? = some l → '<' ∉ testVersionOf l

/-! ## What the rewritten lines set off -/

theorem header_not_identifier (h : NoTagInside t lines) (hl : lines[headerAt lines]? = some l) :
    isIdentifier (testspecificationLine t (testPublishDate l)) = false := by
  apply Text.has_eq_false.mpr
  apply not_infix_testspecificationLine (by decide)
  · exact Text.has_eq_false.mp (by decide)
  · exact Text.not_infix_of_head h.tenantId
  · exact Text.not_infix_of_head (h.publishDate l hl)

/-- A needle that starts with `<`, and is not the tag itself, is not in the rebuilt identifier. -/
theorem identifier_holds_no (h : NoTagInside t lines) (hl : lines[identifierAt lines]? = some l)
    {needle : Text} (hq : '"' ∉ '<' :: needle)
    (hne : ¬ '<' :: needle <:+: "  <identifier uniqueid=\"".toList) :
    ¬ '<' :: needle <:+: rebuiltIdentifier l := by
  apply not_infix_identifierLine hq hne
  · exact Text.not_infix_of_head (h.uniqueId l hl)
  · exact Text.not_infix_of_head (h.label l hl)
  · exact Text.not_infix_of_head (h.version l hl)

theorem identifier_not_property (h : NoTagInside t lines)
    (hl : lines[identifierAt lines]? = some l) : property (rebuiltIdentifier l) = none :=
  property_none (identifier_holds_no h hl (by decide) (Text.has_eq_false.mp (by decide)))

theorem identifier_not_registration (h : NoTagInside t lines)
    (hl : lines[identifierAt lines]? = some l) : isRegistration (rebuiltIdentifier l) = false :=
  Text.has_eq_false.mpr
    (identifier_holds_no h hl (by decide) (Text.has_eq_false.mp (by decide)))

/-- The block that is written for `<registration>` is left alone in state 3. -/
theorem registration_untouched (h : NoTagInside t lines)
    (hl : lines[identifierAt lines]? = some l) :
    segmentLine (registrationLines (testLabelOf l)) = registrationLines (testLabelOf l) :=
  registrationLines_untouched (Text.not_infix_of_head (h.label l hl))
    (Text.not_infix_of_head (h.label l hl))

/-! ## One turn of the loop -/

/-- The state in which the line at this position is read. -/
def stateAt (lines : List Text) (i : Nat) : State :=
  if i ≤ headerAt lines then .start
  else if i ≤ identifierAt lines then .specification
  else if i ≤ registrationAt lines then .properties
  else .registration

/-- What becomes of the line at this position. -/
def rewriteAt (t : Option Text) (lines : List Text) (i : Nat) (l : Text) : Text :=
  if i < headerAt lines then l
  else if i = headerAt lines then testspecificationLine t (testPublishDate l)
  else if i < identifierAt lines then l
  else if i = identifierAt lines then rebuiltIdentifier l
  else if i < registrationAt lines then propertyLine l
  else if i = registrationAt lines then
    registrationLines (lines[identifierAt lines]?.bind testLabelOf)
  else segmentLine l

/-- What the scanner has in its variables when it comes to this position. -/
structure AtPosition (lines : List Text) (i : Nat) (s : Scan) : Prop where
  state : s.state = stateAt lines i
  label : identifierAt lines < i → s.testLabel = lines[identifierAt lines]?.bind testLabelOf

theorem stateAt_start (h : i ≤ headerAt lines) : stateAt lines i = .start := if_pos h

theorem stateAt_specification (h1 : headerAt lines < i) (h2 : i ≤ identifierAt lines) :
    stateAt lines i = .specification := by
  rw [stateAt, if_neg (Nat.not_le.mpr h1), if_pos h2]

theorem stateAt_properties (h1 : identifierAt lines < i) (h2 : i ≤ registrationAt lines) :
    stateAt lines i = .properties := by
  have h0 : headerAt lines < i := Nat.lt_trans headerAt_lt h1
  rw [stateAt, if_neg (Nat.not_le.mpr h0), if_neg (Nat.not_le.mpr h1), if_pos h2]

theorem stateAt_registration (h : registrationAt lines < i) :
    stateAt lines i = .registration := by
  have h1 : identifierAt lines < i := Nat.lt_trans identifierAt_lt h
  have h0 : headerAt lines < i := Nat.lt_trans headerAt_lt h1
  rw [stateAt, if_neg (Nat.not_le.mpr h0), if_neg (Nat.not_le.mpr h1), if_neg (Nat.not_le.mpr h)]

theorem rewriteAt_before (h : i < headerAt lines) : rewriteAt t lines i l = l := if_pos h

theorem rewriteAt_header :
    rewriteAt t lines (headerAt lines) l = testspecificationLine t (testPublishDate l) := by
  rw [rewriteAt, if_neg (Nat.lt_irrefl _), if_pos rfl]

theorem rewriteAt_between (hh : headerAt lines < i) (h : i < identifierAt lines) :
    rewriteAt t lines i l = l := by
  rw [rewriteAt, if_neg (Nat.not_lt.mpr (Nat.le_of_lt hh)), if_neg (Nat.ne_of_gt hh), if_pos h]

theorem rewriteAt_identifier :
    rewriteAt t lines (identifierAt lines) l = rebuiltIdentifier l := by
  rw [rewriteAt, if_neg (Nat.not_lt.mpr (Nat.le_of_lt headerAt_lt)),
    if_neg (Nat.ne_of_gt headerAt_lt), if_neg (Nat.lt_irrefl _), if_pos rfl]

theorem rewriteAt_of_identifier_lt (h : identifierAt lines < i) :
    rewriteAt t lines i l =
      if i < registrationAt lines then propertyLine l
      else if i = registrationAt lines then
        registrationLines (lines[identifierAt lines]?.bind testLabelOf)
      else segmentLine l := by
  have hh : headerAt lines < i := Nat.lt_trans headerAt_lt h
  rw [rewriteAt, if_neg (Nat.not_lt.mpr (Nat.le_of_lt hh)), if_neg (Nat.ne_of_gt hh),
    if_neg (Nat.not_lt.mpr (Nat.le_of_lt h)), if_neg (Nat.ne_of_gt h)]

theorem rewriteAt_property (hd : identifierAt lines < i) (h : i < registrationAt lines) :
    rewriteAt t lines i l = propertyLine l := by
  rw [rewriteAt_of_identifier_lt hd, if_pos h]

theorem rewriteAt_registration : rewriteAt t lines (registrationAt lines) l =
    registrationLines (lines[identifierAt lines]?.bind testLabelOf) := by
  rw [rewriteAt_of_identifier_lt identifierAt_lt, if_neg (Nat.lt_irrefl _), if_pos rfl]

theorem rewriteAt_segment (h : registrationAt lines < i) :
    rewriteAt t lines i l = segmentLine l := by
  rw [rewriteAt_of_identifier_lt (Nat.lt_trans identifierAt_lt h),
    if_neg (Nat.not_lt.mpr (Nat.le_of_lt h)), if_neg (Nat.ne_of_gt h)]

/-- What a turn at this position leaves behind. -/
def TurnAt (t : Option Text) (lines : List Text) (i : Nat) (l : Text) (s s' : Scan) : Prop :=
  AtPosition lines (i + 1) s' ∧ s'.testPackage = s.testPackage ++ [rewriteAt t lines i l]

theorem turn_before_header (hi : i < headerAt lines) (hs : AtPosition lines i s)
    (hl : lines[i]? = some l) (h : scanLine t s l = .ok s') : TurnAt t lines i l s s' := by
  have hstate : s.state = .start := hs.state.trans (stateAt_start (Nat.le_of_lt hi))
  have hplain : isTestspecification l = false := of_lt_firstFrom (Nat.zero_le i) hi hl
  rw [scanLine_start_skip hstate hplain] at h
  cases h
  constructor
  · constructor
    · exact hstate.trans (stateAt_start hi).symm
    · intro hlt
      exact absurd (Nat.lt_trans headerAt_lt hlt) (Nat.not_lt.mpr hi)
  · rw [rewriteAt_before hi]
    rfl

theorem turn_header (hno : NoTagInside t lines) (hi : i = headerAt lines)
    (hs : AtPosition lines i s) (hl : lines[i]? = some l) (h : scanLine t s l = .ok s') :
    TurnAt t lines i l s s' := by
  have hstate : s.state = .start := hs.state.trans (stateAt_start (Nat.le_of_eq hi))
  have hheader : lines[headerAt lines]? = some l := hi ▸ hl
  have htag : isTestspecification l = true := of_firstFrom hheader
  cases hpurpose : isRegistrationPurpose l with
  | false =>
    rw [scanLine_start_die hstate htag hpurpose] at h
    cases h
  | true =>
    rw [scanLine_start_header hstate htag hpurpose,
      scanLine_specification_skip rfl (header_not_identifier hno hheader)] at h
    cases h
    have hlt : i < identifierAt lines := hi ▸ headerAt_lt
    constructor
    · constructor
      · exact (stateAt_specification (Nat.lt_succ_of_le (Nat.le_of_eq hi.symm)) hlt).symm
      · intro hpast
        exact absurd hpast (Nat.not_lt.mpr hlt)
    · rw [hi, rewriteAt_header]
      rfl

theorem turn_before_identifier (hh : headerAt lines < i) (hi : i < identifierAt lines)
    (hs : AtPosition lines i s) (hl : lines[i]? = some l) (h : scanLine t s l = .ok s') :
    TurnAt t lines i l s s' := by
  have hstate : s.state = .specification :=
    hs.state.trans (stateAt_specification hh (Nat.le_of_lt hi))
  have hplain : isIdentifier l = false := of_lt_firstFrom hh hi hl
  rw [scanLine_specification_skip hstate hplain] at h
  cases h
  constructor
  · constructor
    · exact hstate.trans (stateAt_specification (Nat.lt_succ_of_lt hh) hi).symm
    · intro hpast
      exact absurd hpast (Nat.not_lt.mpr hi)
  · rw [rewriteAt_between hh hi]
    rfl

theorem turn_identifier (hno : NoTagInside t lines) (hi : i = identifierAt lines)
    (hs : AtPosition lines i s) (hl : lines[i]? = some l) (h : scanLine t s l = .ok s') :
    TurnAt t lines i l s s' := by
  have hh : headerAt lines < i := hi ▸ headerAt_lt
  have hstate : s.state = .specification :=
    hs.state.trans (stateAt_specification hh (Nat.le_of_eq hi))
  have hidentifier : lines[identifierAt lines]? = some l := hi ▸ hl
  have hplain : subjectValue (rebuiltIdentifier l) = none := by
    rw [subjectValue, identifier_not_property hno hidentifier]
    rfl
  rw [scanLine_specification_identifier hstate (of_firstFrom hidentifier),
    scanLine_noted rfl hplain (identifier_not_registration hno hidentifier)] at h
  cases h
  constructor
  · constructor
    · exact (stateAt_properties (Nat.lt_succ_of_le (Nat.le_of_eq hi.symm))
        (hi ▸ identifierAt_lt)).symm
    · intro _
      rw [hidentifier]
      rfl
  · rw [hi, rewriteAt_identifier]
    rfl

theorem turn_property (hd : identifierAt lines < i) (hi : i < registrationAt lines)
    (hs : AtPosition lines i s) (hl : lines[i]? = some l) (h : scanLine t s l = .ok s') :
    TurnAt t lines i l s s' := by
  have hstate : s.state = .properties :=
    hs.state.trans (stateAt_properties hd (Nat.le_of_lt hi))
  have hnext : stateAt lines (i + 1) = .properties :=
    stateAt_properties (Nat.lt_succ_of_lt hd) hi
  have hplain : isRegistrationLine l = false := of_lt_firstFrom hd hi hl
  have hline : rewriteAt t lines i l = propertyLine l := rewriteAt_property hd hi
  cases hv : subjectValue l with
  | none =>
    have hr : isRegistration l = false := by
      rw [isRegistrationLine, hv] at hplain
      exact hplain
    have hkept : propertyLine l = l := by
      rw [propertyLine, subjectPair, hv]
      rfl
    rw [scanLine_noted hstate hv hr] at h
    cases h
    refine ⟨⟨hstate.trans hnext.symm, fun _ => hs.label hd⟩, ?_⟩
    rw [hline, hkept]
    rfl
  | some v =>
    rw [scanLine_subject hstate hv] at h
    cases hp : subjectFor v with
    | none =>
      rw [hp] at h
      cases h
    | some p =>
      have hbuilt : propertyLine l = subjectLine p.2 p.1 := by
        rw [propertyLine, subjectPair, hv, Option.bind_some, hp]
      rw [hp] at h
      cases h
      refine ⟨⟨hstate.trans hnext.symm, fun _ => hs.label hd⟩, ?_⟩
      rw [hline, hbuilt]
      rfl

theorem turn_registration (hno : NoTagInside t lines) (hi : i = registrationAt lines)
    (hs : AtPosition lines i s) (hl : lines[i]? = some l) (h : scanLine t s l = .ok s') :
    TurnAt t lines i l s s' := by
  have hd : identifierAt lines < i := hi ▸ identifierAt_lt
  have hstate : s.state = .properties :=
    hs.state.trans (stateAt_properties hd (Nat.le_of_eq hi))
  have htag : isRegistrationLine l = true := of_firstFrom (hi ▸ hl)
  rw [isRegistrationLine, Bool.and_eq_true, Option.isNone_iff_eq_none] at htag
  have hlength : identifierAt lines < lines.length :=
    Nat.lt_trans hd (List.getElem?_eq_some_iff.mp hl).1
  have hidentifier : lines[identifierAt lines]? = some lines[identifierAt lines] :=
    List.getElem?_eq_getElem hlength
  rw [scanLine_properties hstate (propertyStep_noted hstate htag.1) hstate, if_pos htag.2] at h
  split at h
  · have hlabel : (s.noted l).testLabel = testLabelOf lines[identifierAt lines] := by
      have hlabel := hs.label hd
      rw [hidentifier, Option.bind_some] at hlabel
      exact hlabel
    rw [hlabel, scanLine_registration rfl, registration_untouched hno hidentifier] at h
    cases h
    constructor
    · constructor
      · exact (stateAt_registration (Nat.lt_succ_of_le (Nat.le_of_eq hi.symm))).symm
      · intro _
        exact hs.label hd
    · rw [hi, rewriteAt_registration, hidentifier]
      rfl
  · cases h

theorem turn_segment (hr : registrationAt lines < i) (hs : AtPosition lines i s)
    (h : scanLine t s l = .ok s') : TurnAt t lines i l s s' := by
  have hd : identifierAt lines < i := Nat.lt_trans identifierAt_lt hr
  have hstate : s.state = .registration := hs.state.trans (stateAt_registration hr)
  rw [scanLine_registration hstate] at h
  cases h
  refine ⟨⟨hstate.trans (stateAt_registration (Nat.lt_succ_of_lt hr)).symm, ?_⟩, ?_⟩
  · intro _
    exact hs.label hd
  · rw [rewriteAt_segment hr]
    rfl

/-- Every turn pushes one line, rewritten as its position says. -/
theorem scanLine_at (hno : NoTagInside t lines) (hs : AtPosition lines i s)
    (hl : lines[i]? = some l) (h : scanLine t s l = .ok s') : TurnAt t lines i l s s' := by
  rcases Nat.lt_trichotomy i (headerAt lines) with hlt | heq | hh
  · exact turn_before_header hlt hs hl h
  · exact turn_header hno heq hs hl h
  rcases Nat.lt_trichotomy i (identifierAt lines) with hlt | heq | hd
  · exact turn_before_identifier hh hlt hs hl h
  · exact turn_identifier hno heq hs hl h
  rcases Nat.lt_trichotomy i (registrationAt lines) with hlt | heq | hr
  · exact turn_property hd hlt hs hl h
  · exact turn_registration hno heq hs hl h
  · exact turn_segment hr hs h

/-! ## The whole loop -/

theorem getElem?_of_drop {rest : List Text} (h : lines.drop i = l :: rest) :
    lines[i]? = some l ∧ lines.drop (i + 1) = rest := by
  constructor
  · have hhead : (lines.drop i)[0]? = lines[i + 0]? := List.getElem?_drop
    rw [h] at hhead
    exact hhead.symm
  · rw [← List.drop_drop, h]
    rfl

/-- A run that does not die begins with a turn that does not. -/
theorem scanFrom_turn {rest : List Text} (h : scanFrom t s (l :: rest) = .ok s') :
    ∃ s'', scanLine t s l = .ok s'' ∧ scanFrom t s'' rest = .ok s' := by
  rw [scanFrom_cons] at h
  cases hturn : scanLine t s l with
  | error death =>
    rw [hturn] at h
    cases h
  | ok s'' =>
    rw [hturn] at h
    exact ⟨s'', rfl, h⟩

theorem scanFrom_at (hno : NoTagInside t lines) {rest : List Text} (hrest : lines.drop i = rest)
    (hs : AtPosition lines i s) (h : scanFrom t s rest = .ok s') :
    s'.testPackage = s.testPackage ++ rest.mapIdx fun k l => rewriteAt t lines (i + k) l := by
  induction rest generalizing i s with
  | nil =>
    cases h
    simp
  | cons l rest ih =>
    obtain ⟨hl, htail⟩ := getElem?_of_drop hrest
    obtain ⟨s'', hturn, hrun⟩ := scanFrom_turn h
    obtain ⟨hs'', hpush⟩ := scanLine_at hno hs hl hturn
    rw [ih htail hs'' hrun, hpush, List.append_assoc, List.mapIdx_cons]
    simp only [Nat.add_zero, Nat.add_assoc, Nat.add_comm 1, List.singleton_append]

/-- The scanner comes to every line of a file that it reads to the end, and gets past it. -/
theorem scanFrom_passes (hno : NoTagInside t lines) {rest : List Text} (hrest : lines.drop i = rest)
    (hs : AtPosition lines i s) (h : scanFrom t s rest = .ok s') {k : Nat}
    (hk : rest[k]? = some m) :
    ∃ before after, AtPosition lines (i + k) before ∧ scanLine t before m = .ok after := by
  induction rest generalizing i s k with
  | nil => cases hk
  | cons l rest ih =>
    obtain ⟨hl, htail⟩ := getElem?_of_drop hrest
    obtain ⟨s'', hturn, hrun⟩ := scanFrom_turn h
    cases k with
    | zero =>
      cases hk
      exact ⟨s, s'', hs, hturn⟩
    | succ k =>
      obtain ⟨before, after, hbefore, hpass⟩ :=
        ih htail (scanLine_at hno hs hl hturn).1 hrun hk
      rw [Nat.add_assoc, Nat.add_comm 1] at hbefore
      exact ⟨before, after, hbefore, hpass⟩

theorem atPosition_initial : AtPosition lines 0 Scan.initial := by
  constructor
  · exact (stateAt_start (Nat.zero_le _)).symm
  · intro hlt
    exact absurd hlt (Nat.not_lt_zero _)

/-- A file that is read to the end is rewritten line by line, each as its position says. -/
theorem scan_mapIdx (hno : NoTagInside t lines) (h : scan t lines = .ok s) :
    s.testPackage = lines.mapIdx (rewriteAt t lines) := by
  have hrun := scanFrom_at hno List.drop_zero atPosition_initial h
  simp only [Nat.zero_add] at hrun
  exact hrun

theorem scan_getElem? (hno : NoTagInside t lines) (h : scan t lines = .ok s)
    (hl : lines[i]? = some l) : s.testPackage[i]? = some (rewriteAt t lines i l) := by
  rw [scan_mapIdx hno h, List.getElem?_mapIdx, hl]
  rfl

/-- The scanner gets past a `subject` line only if it knows the subject. -/
theorem subject_known (hno : NoTagInside t lines) (h : scan t lines = .ok s)
    (hd : identifierAt lines < i) (hi : i < registrationAt lines) (hl : lines[i]? = some l) :
    SubjectKnown l := by
  obtain ⟨before, after, hbefore, hpass⟩ :=
    scanFrom_passes hno List.drop_zero atPosition_initial h hl
  rw [Nat.zero_add] at hbefore
  have hstate := hbefore.state.trans (stateAt_properties hd (Nat.le_of_lt hi))
  intro v hv
  rw [scanLine_subject hstate hv] at hpass
  cases hp : subjectFor v with
  | none =>
    rw [hp] at hpass
    cases hpass
  | some p => rfl

/-! ## The frame -/

/-- One line is pushed for each line of the file. The landmarks are rebuilt, each at its place, and
the subjects, the pool properties and the segments between and behind them; every other line is as
it was. -/
structure Reworked (t : Option Text) (lines package : List Text) : Prop where
  length : package.length = lines.length
  order : headerAt lines < identifierAt lines ∧ identifierAt lines < registrationAt lines
  header : ∀ l, lines[headerAt lines]? = some l →
    package[headerAt lines]? = some (testspecificationLine t (testPublishDate l))
  identifier : ∀ l, lines[identifierAt lines]? = some l →
    package[identifierAt lines]? =
      some (identifierLine (uniqueIdOf l) (testLabelOf l) (some (testVersionOf l)))
  subject : ∀ i l v, identifierAt lines < i → i < registrationAt lines → lines[i]? = some l →
    subjectValue l = some v → ∃ name abbreviation, subjectFor v = some (name, abbreviation) ∧
      package[i]? = some (subjectLine abbreviation name)
  registration : ∀ l m, lines[registrationAt lines]? = some l →
    lines[identifierAt lines]? = some m →
    package[registrationAt lines]? = some (registrationLines (testLabelOf m))
  poolproperty : ∀ i l, registrationAt lines < i → lines[i]? = some l →
    isPoolproperty l = true → package[i]? = some []
  registrationsegment : ∀ i l, registrationAt lines < i → lines[i]? = some l →
    isPoolproperty l = false → isRegistrationsegment l = true →
    package[i]? = some (Text.replaceFirst "adaptive".toList "ADAPTIVE".toList
      (Text.replaceFirst "fixedform".toList "FIXEDFORM".toList l))
  other : ∀ i l, lines[i]? = some l → i ≠ headerAt lines → i ≠ identifierAt lines →
    i ≠ registrationAt lines →
    (identifierAt lines < i → i < registrationAt lines → subjectValue l = none) →
    (registrationAt lines < i → isPoolproperty l = false ∧ isRegistrationsegment l = false) →
    package[i]? = some l

/-- **A file that is read to the end is changed only where it is meant to be.** -/
theorem scan_reworks (t : Option Text) (lines : List Text) (s : Scan)
    (h : scan t lines = .ok s) (hno : NoTagInside t lines) : Reworked t lines s.testPackage where
  length := by
    rw [scan_mapIdx hno h, List.length_mapIdx]
  order := ⟨headerAt_lt, identifierAt_lt⟩
  header l hl := by
    rw [scan_getElem? hno h hl, rewriteAt_header]
  identifier l hl := by
    rw [scan_getElem? hno h hl, rewriteAt_identifier]
    rfl
  subject i l v hd hi hl hv := by
    obtain ⟨⟨name, abbreviation⟩, hp⟩ :=
      Option.isSome_iff_exists.mp (subject_known hno h hd hi hl v hv)
    refine ⟨name, abbreviation, hp, ?_⟩
    rw [scan_getElem? hno h hl, rewriteAt_property hd hi, propertyLine, subjectPair, hv,
      Option.bind_some, hp]
  registration l m hl hm := by
    rw [scan_getElem? hno h hl, rewriteAt_registration, hm]
    rfl
  poolproperty i l hr hl hpool := by
    rw [scan_getElem? hno h hl, rewriteAt_segment hr, segmentLine, if_pos hpool]
  registrationsegment i l hr hl hpool hsegment := by
    rw [scan_getElem? hno h hl, rewriteAt_segment hr, segmentLine, hpool,
      if_neg Bool.false_ne_true, if_pos hsegment]
  other i l hl hheader hidentifier hregistration hsubject hsegment := by
    rw [scan_getElem? hno h hl]
    rcases Nat.lt_or_gt_of_ne hheader with hlt | hh
    · rw [rewriteAt_before hlt]
    rcases Nat.lt_or_gt_of_ne hidentifier with hlt | hd
    · rw [rewriteAt_between hh hlt]
    rcases Nat.lt_or_gt_of_ne hregistration with hlt | hr
    · rw [rewriteAt_property hd hlt, propertyLine, subjectPair, hsubject hd hlt]
      rfl
    · obtain ⟨hpool, hseg⟩ := hsegment hr
      rw [rewriteAt_segment hr, segmentLine, hpool, hseg]
      rfl

/-- A package with a pool property, one tag on a line. -/
def pooledPackage : List Text :=
  ["<testspecification purpose=\"registration\" publishdate=\"d\">\n".toList,
    "<identifier uniqueid=\"u\" label=\"l\" version=\"1\"/>\n".toList,
    "<property name=\"type\" value=\"interim\" label=\"\"/>\n".toList,
    "<registration>\n".toList, "<poolproperty/>\n".toList]

theorem scan_reworks_pooledPackage : ∃ s, scan (some ['t']) pooledPackage = .ok s ∧
    registrationAt pooledPackage = 3 ∧ Reworked (some ['t']) pooledPackage s.testPackage := by
  have hread : (scan (some ['t']) pooledPackage).toOption.isSome = true := by decide +kernel
  cases hscan : scan (some ['t']) pooledPackage with
  | error death =>
    rw [hscan] at hread
    cases hread
  | ok s =>
    have hheader : pooledPackage[headerAt pooledPackage]? = some
        "<testspecification purpose=\"registration\" publishdate=\"d\">\n".toList := by
      decide +kernel
    have hidentifier : pooledPackage[identifierAt pooledPackage]? = some
        "<identifier uniqueid=\"u\" label=\"l\" version=\"1\"/>\n".toList := by decide +kernel
    refine ⟨s, rfl, by decide +kernel, scan_reworks (some ['t']) pooledPackage s hscan ?_⟩
    constructor
    · decide
    · intro l hl
      cases hheader.symm.trans hl
      decide +kernel
    · intro l hl
      cases hidentifier.symm.trans hl
      decide +kernel
    · intro l hl
      cases hidentifier.symm.trans hl
      decide +kernel
    · intro l hl
      cases hidentifier.symm.trans hl
      decide +kernel

end Package
end TdsAdmin
