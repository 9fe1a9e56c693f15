import TdsAdmin.Lib.Split
import TdsAdmin.Proof.Package.Steps

/-!
# The outline of a package

A file that the scanner reads to the end in state 3 has three landmarks: the first
`<testspecification` line, the first `<identifier` line after it and the first `<registration>`
line after that. `Registered` is that outline, with every check the scanner makes on the way as
a field, and `Registered.final` is the state it ends in. `Rejected` says in the same terms when
the script dies.

`scan_cases` is the summary: a file is rejected, or has an outline, or is read to the end
without ever reaching state 3 — and no file is two of these (`Rejected.scan`,
`Registered.scan`).
-/

set_option autoImplicit false

namespace TdsAdmin
namespace Package

variable {t : Option Text} {s : Scan} {ls : List Text}

/-! ## Runs of lines in one state -/

/-- Lines pushed as they are. -/
def Scan.pushAll (s : Scan) (ls : List Text) : Scan :=
  { s with testPackage := s.testPackage ++ ls }

theorem Scan.push_pushAll {l : Text} : (s.push l).pushAll ls = s.pushAll (l :: ls) := by
  simp [Scan.push, Scan.pushAll]

theorem scanFrom_start (hs : s.state = .start) (h : ∀ l ∈ ls, isTestspecification l = false) :
    scanFrom t s ls = .ok (s.pushAll ls) := by
  induction ls generalizing s with
  | nil => simp [Scan.pushAll]
  | cons l ls ih =>
    rw [scanFrom_cons, scanLine_start_skip hs (h l (by simp)), ← Scan.push_pushAll]
    exact ih (s := s.push l) (by simpa using hs) fun m hm => h m (by simp [hm])

theorem scanFrom_specification_skip (hs : s.state = .specification)
    (h : ∀ l ∈ ls, isIdentifier l = false) : scanFrom t s ls = .ok (s.pushAll ls) := by
  induction ls generalizing s with
  | nil => simp [Scan.pushAll]
  | cons l ls ih =>
    rw [scanFrom_cons, scanLine_specification_skip hs (h l (by simp)), ← Scan.push_pushAll]
    exact ih (s := s.push l) (by simpa using hs) fun m hm => h m (by simp [hm])

/-- The `<registration>` line of state 2. A line that is also a `subject` property is rebuilt
first and no longer holds the tag. -/
def isRegistrationLine (l : Text) : Bool := (subjectValue l).isNone && isRegistration l

/-- The name and the abbreviation a `subject` line sets. -/
def subjectPair (l : Text) : Option (Text × Text) := (subjectValue l).bind subjectFor

/-- A line of state 2 as it is pushed. -/
def propertyLine (l : Text) : Text :=
  match subjectPair l with
  | some p => subjectLine p.2 p.1
  | none => l

/-- The subject value of the line, if it has one, is one of those the script knows. -/
def SubjectKnown (l : Text) : Prop := ∀ v, subjectValue l = some v → (subjectFor v).isSome

/-- What a list of lines in state 2 changes. -/
def Scan.propertied (s : Scan) (ls : List Text) : Scan :=
  { s with
      testSubjectName := ((ls.filterMap subjectPair).getLast?.map Prod.fst).or s.testSubjectName
      testSubjectAbbreviation :=
        ((ls.filterMap subjectPair).getLast?.map Prod.snd).or s.testSubjectAbbreviation
      testGrades := s.testGrades ++ ls.filterMap gradeValue
      testType := (ls.filterMap typeValue).getLast?.or s.testType
      testTypeFound := s.testTypeFound || ls.any fun l => (typeValue l).isSome
      testPackage := s.testPackage ++ ls.map propertyLine }

@[simp] theorem Scan.propertied_state : (s.propertied ls).state = s.state := rfl

/-- A `subject` line says nothing about the grades or the type. -/
theorem subjectValue_only {l v : Text} (h : subjectValue l = some v) :
    gradeValue l = none ∧ typeValue l = none := by
  unfold subjectValue at h
  unfold gradeValue typeValue
  cases hp : property l with
  | none => exact ⟨rfl, rfl⟩
  | some p =>
    rw [hp, Option.bind_some] at h
    have hn : p.1 = "subject".toList := by
      by_contra hn
      rw [if_neg hn] at h
      cases h
    rw [Option.bind_some, Option.bind_some, if_neg (by rw [hn]; decide),
      if_neg (by rw [hn]; decide)]
    exact ⟨rfl, rfl⟩

theorem filterMap_cons_toList {α β : Type} (f : α → Option β) (a : α) (l : List α) :
    (a :: l).filterMap f = (f a).toList ++ l.filterMap f := by
  cases h : f a <;> simp [h]

/-- One line more at the front. -/
theorem Scan.propertied_cons (s : Scan) (l : Text) (ls : List Text) :
    (s.propertied [l]).propertied ls = s.propertied (l :: ls) := by
  simp only [Scan.propertied, filterMap_cons_toList _ l, List.filterMap_nil, List.append_nil,
    List.getLast?_append, List.append_assoc, Option.map_or, Option.or_assoc, List.map_cons,
    List.map_nil, List.any_cons, List.any_nil, Bool.or_false, Bool.or_assoc]
  simp

/-- A line of state 2 that the scanner gets through without leaving the state. -/
theorem scanLine_property {l : Text} (hs : s.state = .properties)
    (hr : isRegistrationLine l = false) (hk : SubjectKnown l) :
    scanLine t s l = .ok (s.propertied [l]) := by
  cases hv : subjectValue l with
  | none =>
    have hr' : isRegistration l = false := by simpa [isRegistrationLine, hv] using hr
    have hp : subjectPair l = none := by rw [subjectPair, hv]; rfl
    have hl : propertyLine l = l := by rw [propertyLine, hp]
    rw [scanLine_noted hs hv hr']
    simp only [Scan.push, Scan.noted, Scan.propertied, filterMap_cons_toList _ l, hp, hl,
      List.filterMap_nil, List.append_nil, List.map_cons, List.map_nil, Option.toList_none,
      List.getLast?_nil, Option.map_none, Option.none_or, List.any_cons, List.any_nil,
      Bool.or_false]
    cases typeValue l <;> rfl
  | some v =>
    obtain ⟨p, hp⟩ := Option.isSome_iff_exists.mp (hk v hv)
    obtain ⟨hg, ht⟩ := subjectValue_only hv
    have hpair : subjectPair l = some p := by rw [subjectPair, hv]; exact hp
    have hl : propertyLine l = subjectLine p.2 p.1 := by rw [propertyLine, hpair]
    rw [scanLine_subject hs hv, hp]
    simp only [Scan.push, Scan.subjected, Scan.propertied, filterMap_cons_toList _ l, hpair, hl,
      hg, ht, List.filterMap_nil, List.append_nil, List.map_cons, List.map_nil,
      Option.toList_none, Option.toList_some, List.getLast?_singleton, List.getLast?_nil,
      Option.map_some, Option.some_or, Option.none_or, List.any_cons, List.any_nil,
      Option.isSome_none, Bool.or_false]

theorem scanFrom_properties (hs : s.state = .properties)
    (hr : ∀ l ∈ ls, isRegistrationLine l = false) (hk : ∀ l ∈ ls, SubjectKnown l) :
    scanFrom t s ls = .ok (s.propertied ls) := by
  induction ls generalizing s with
  | nil => simp [Scan.propertied]
  | cons l ls ih =>
    rw [scanFrom_cons, scanLine_property hs (hr l (by simp)) (hk l (by simp)),
      ← Scan.propertied_cons s l ls]
    exact ih (s := s.propertied [l]) hs (fun m hm => hr m (by simp [hm]))
      fun m hm => hk m (by simp [hm])

/-- A `subject` line with an unknown value kills the script wherever it is in state 2. -/
theorem scanFrom_unknown (before after : List Text) {l : Text} (hs : s.state = .properties)
    (hr : ∀ l ∈ before, isRegistrationLine l = false) (hk : ¬ SubjectKnown l) :
    ∃ v, scanFrom t s (before ++ l :: after) = .error (.unknownSubject v) := by
  have hdie : ∀ {s : Scan} {l : Text} {ls : List Text}, s.state = .properties →
      ¬ SubjectKnown l → ∃ v, scanFrom t s (l :: ls) = .error (.unknownSubject v) := by
    intro s l ls hs hk
    simp only [SubjectKnown, not_forall] at hk
    obtain ⟨v, hv, hu⟩ := hk
    rw [Option.not_isSome_iff_eq_none] at hu
    refine ⟨v, ?_⟩
    rw [scanFrom_cons, scanLine_subject hs hv, hu]
    rfl
  induction before generalizing s with
  | nil => exact hdie hs hk
  | cons m before ih =>
    by_cases hm : SubjectKnown m
    · rw [List.cons_append, scanFrom_cons, scanLine_property hs (hr m (by simp)) hm]
      exact ih (s := s.propertied [m]) hs fun n hn => hr n (by simp [hn])
    · exact hdie hs hm

/-! ## The outline -/

/-- The header and the identifier line of a registration package, and the lines that are read
after each of them. Both lines are read again once they are rewritten. -/
structure Identified (t : Option Text) (lines : List Text) where
  header : Split isTestspecification lines
  purpose : isRegistrationPurpose header.item = true
  identifier : Split isIdentifier
    (testspecificationLine t (testPublishDate header.item) :: header.after)

/-- What is read in state 2. -/
def Identified.stream {lines : List Text} (I : Identified t lines) : List Text :=
  rebuiltIdentifier I.identifier.item :: I.identifier.after

/-- The state at the beginning of state 2. -/
def Identified.opened {lines : List Text} (I : Identified t lines) : Scan :=
  (((Scan.initial.pushAll I.header.before).specified).pushAll I.identifier.before).identified
    I.identifier.item

/-- Up to the header the lines are kept; then the header is read again. -/
theorem scan_header {lines : List Text} (header : Split isTestspecification lines)
    (hp : isRegistrationPurpose header.item = true) :
    Package.scan t lines = scanFrom t (Scan.initial.pushAll header.before).specified
      (testspecificationLine t (testPublishDate header.item) :: header.after) := by
  have hbefore := scanFrom_start (t := t) (s := Scan.initial) rfl header.before_not
  calc Package.scan t lines
      = scanFrom t .initial (header.before ++ header.item :: header.after) :=
        congrArg (scanFrom t .initial) header.eq
    _ = scanFrom t (Scan.initial.pushAll header.before) (header.item :: header.after) := by
        rw [scanFrom_append, hbefore]; rfl
    _ = _ := scanFrom_specification rfl header.item_is hp

theorem Identified.scan {lines : List Text} (I : Identified t lines) :
    Package.scan t lines = scanFrom t I.opened I.stream := by
  have hbetween := scanFrom_specification_skip (t := t)
    (s := (Scan.initial.pushAll I.header.before).specified) rfl I.identifier.before_not
  calc Package.scan t lines
      = scanFrom t (Scan.initial.pushAll I.header.before).specified
          (testspecificationLine t (testPublishDate I.header.item) :: I.header.after) :=
        scan_header I.header I.purpose
    _ = scanFrom t (Scan.initial.pushAll I.header.before).specified
          (I.identifier.before ++ I.identifier.item :: I.identifier.after) :=
        congrArg (scanFrom t _) I.identifier.eq
    _ = scanFrom t ((Scan.initial.pushAll I.header.before).specified.pushAll I.identifier.before)
          (I.identifier.item :: I.identifier.after) := by
        rw [scanFrom_append, hbetween]; rfl
    _ = scanFrom t I.opened I.stream := scanFrom_identifier rfl I.identifier.item_is

/-- The outline of a package that is read to the end in state 3. -/
structure Registered (t : Option Text) (lines : List Text) extends Identified t lines where
  registration : Split isRegistrationLine toIdentified.stream
  subjects : ∀ l ∈ registration.before, SubjectKnown l
  type : ∃ l ∈ registration.before ++ [registration.item], (typeValue l).isSome

namespace Registered

variable {lines : List Text} (R : Registered t lines)

/-- The lines that are read in state 2. -/
def properties : List Text := R.registration.before

/-- The lines that are read in state 3. -/
def segments : List Text :=
  registrationLines (testLabelOf R.identifier.item) :: R.registration.after

/-- The state in which the file ends. -/
def final : Scan :=
  let s := (R.opened.propertied R.properties).registered R.registration.item
  { s with testPackage := s.testPackage ++ R.segments.map segmentLine }

/-- A file with this outline is read to the end. -/
theorem scan : Package.scan t lines = .ok R.final := by
  have hreg := R.registration.item_is
  simp only [isRegistrationLine, Bool.and_eq_true, Option.isNone_iff_eq_none] at hreg
  have hprops := scanFrom_properties (t := t) (s := R.opened) rfl R.registration.before_not
    R.subjects
  have hfound : ((R.opened.propertied R.properties).noted R.registration.item).testTypeFound
      = true := by
    obtain ⟨l, hl, ht⟩ := R.type
    simp only [Scan.noted, Scan.propertied, Bool.or_eq_true, List.any_eq_true, properties]
    rcases List.mem_append.mp hl with hl | hl
    · exact Or.inl (Or.inr ⟨l, hl, ht⟩)
    · exact Or.inr (List.mem_singleton.mp hl ▸ ht)
  calc Package.scan t lines
      = scanFrom t R.opened R.stream := R.toIdentified.scan
    _ = scanFrom t R.opened
          (R.registration.before ++ R.registration.item :: R.registration.after) := by
        rw [← R.registration.eq]
    _ = scanFrom t (R.opened.propertied R.properties)
          (R.registration.item :: R.registration.after) := by
        rw [scanFrom_append, hprops]; rfl
    _ = scanFrom t ((R.opened.propertied R.properties).registered R.registration.item)
          R.segments := scanFrom_registration rfl hreg.1 hreg.2 hfound
    _ = .ok R.final := scanFrom_segments rfl

/-! What the variables hold at the end of the file. -/

theorem final_uniqueId :
    R.final.uniqueId = (attributePattern "uniqueid".toList).first R.identifier.item :=
  Option.or_none

theorem final_testPackage : R.final.testPackage = R.header.before ++ R.identifier.before ++
    R.properties.map propertyLine ++ R.segments.map segmentLine := rfl

theorem final_testGrades : R.final.testGrades
    = R.properties.filterMap gradeValue ++ (gradeValue R.registration.item).toList := rfl

theorem final_testSubjectName : R.final.testSubjectName
    = (R.properties.filterMap subjectPair).getLast?.map Prod.fst := Option.or_none

theorem final_testSubjectAbbreviation : R.final.testSubjectAbbreviation
    = (R.properties.filterMap subjectPair).getLast?.map Prod.snd := Option.or_none

theorem final_testType : R.final.testType = (typeValue R.registration.item).or
    (R.properties.filterMap typeValue).getLast? :=
  congrArg (Option.or _) Option.or_none

end Registered

/-- The lines on which the script dies in state 2. -/
def PropertiesRejected (ls : List Text) : Prop :=
  (∃ before l after, ls = before ++ l :: after ∧ (∀ x ∈ before, isRegistrationLine x = false) ∧
    ¬ SubjectKnown l) ∨
  ∃ r : Split isRegistrationLine ls, ∀ l ∈ r.before ++ [r.item], typeValue l = none

/-- The files on which the script dies: the purpose is wrong, a subject is unknown before
`<registration>`, or no test type is set by then. -/
def Rejected (t : Option Text) (lines : List Text) : Prop :=
  (∃ h : Split isTestspecification lines, isRegistrationPurpose h.item = false) ∨
    ∃ I : Identified t lines, PropertiesRejected I.stream

/-! ## Every file is one of three -/

theorem Identified.dies {lines : List Text} (I : Identified t lines)
    (h : PropertiesRejected I.stream) : ∃ death, Package.scan t lines = .error death := by
  rw [I.scan]
  rcases h with ⟨before, l, after, heq, hr, hk⟩ | ⟨r, htype⟩
  · obtain ⟨v, hv⟩ := scanFrom_unknown (t := t) (s := I.opened) before after rfl hr hk
    exact ⟨_, heq ▸ hv⟩
  · have hreg := r.item_is
    simp only [isRegistrationLine, Bool.and_eq_true, Option.isNone_iff_eq_none] at hreg
    by_cases hk : ∀ l ∈ r.before, SubjectKnown l
    · have hprops := scanFrom_properties (t := t) (s := I.opened) rfl r.before_not hk
      have hfound : ((I.opened.propertied r.before).noted r.item).testTypeFound = false := by
        have hnone : ∀ l ∈ r.before, (typeValue l).isSome = false := fun l hl => by
          rw [htype l (by simp [hl])]; rfl
        simp only [Scan.noted, Scan.propertied, Bool.or_eq_false_iff, List.any_eq_false,
          Bool.not_eq_true]
        exact ⟨⟨rfl, hnone⟩, by rw [htype r.item (by simp)]; rfl⟩
      refine ⟨.typeNotFound, ?_⟩
      rw [r.eq, scanFrom_append, hprops]
      simp only [bind, Except.bind, scanFrom_cons,
        scanLine_registration_die (t := t) (s := I.opened.propertied r.before) rfl hreg.1 hreg.2
          hfound]
    · simp only [not_forall] at hk
      obtain ⟨l, hl, hk⟩ := hk
      obtain ⟨u, v, huv⟩ := List.append_of_mem hl
      obtain ⟨w, hw⟩ := scanFrom_unknown (t := t) (s := I.opened) u
        (v ++ r.item :: r.after) rfl
        (fun x hx => r.before_not x (by rw [huv]; simp [hx])) hk
      refine ⟨.unknownSubject w, ?_⟩
      rw [r.eq, huv, List.append_assoc]
      exact hw

/-- A rejected file is not read to the end. -/
theorem Rejected.scan {lines : List Text} (h : Rejected t lines) :
    ∃ death, Package.scan t lines = .error death := by
  rcases h with ⟨hd, hp⟩ | ⟨I, hI⟩
  · refine ⟨.notRegistration, ?_⟩
    rw [Package.scan, hd.eq, scanFrom_append, scanFrom_start rfl hd.before_not]
    simp only [bind, Except.bind, scanFrom_cons]
    rw [scanLine_start_die rfl hd.item_is hp]
  · exact I.dies hI

/-- A file is rejected, or has an outline, or never gets to state 3. -/
theorem scan_cases (t : Option Text) (lines : List Text) :
    Rejected t lines ∨ Nonempty (Registered t lines) ∨
      ∃ s, Package.scan t lines = .ok s ∧ s.state ≠ .registration := by
  rcases Split.none_or_split isTestspecification lines with hno | ⟨⟨header⟩⟩
  · refine Or.inr (Or.inr ⟨_, scanFrom_start rfl hno, ?_⟩)
    simp [Scan.pushAll, Scan.initial]
  by_cases hpurpose : isRegistrationPurpose header.item = true
  swap
  · exact Or.inl (Or.inl ⟨header, by simpa using hpurpose⟩)
  rcases Split.none_or_split isIdentifier
      (testspecificationLine t (testPublishDate header.item) :: header.after)
    with hno | ⟨⟨identifier⟩⟩
  · refine Or.inr (Or.inr ⟨(Scan.initial.pushAll header.before).specified.pushAll
      (testspecificationLine t (testPublishDate header.item) :: header.after), ?_,
      by simp [Scan.pushAll]⟩)
    exact (scan_header header hpurpose).trans (scanFrom_specification_skip rfl hno)
  let I : Identified t lines := ⟨header, hpurpose, identifier⟩
  rcases Split.none_or_split isRegistrationLine I.stream with hno | ⟨⟨registration⟩⟩
  · by_cases hk : ∀ l ∈ I.stream, SubjectKnown l
    · refine Or.inr (Or.inr ⟨I.opened.propertied I.stream, ?_, by simp [Identified.opened]⟩)
      rw [I.scan]
      exact scanFrom_properties rfl hno hk
    · simp only [not_forall] at hk
      obtain ⟨l, hl, hk⟩ := hk
      obtain ⟨u, v, huv⟩ := List.append_of_mem hl
      exact Or.inl (Or.inr ⟨I, Or.inl ⟨u, l, v, huv, fun x hx => hno x (by rw [huv]; simp [hx]),
        hk⟩⟩)
  by_cases hk : ∀ l ∈ registration.before, SubjectKnown l
  · by_cases htype : ∃ l ∈ registration.before ++ [registration.item], (typeValue l).isSome
    · exact Or.inr (Or.inl ⟨⟨I, registration, hk, htype⟩⟩)
    · refine Or.inl (Or.inr ⟨I, Or.inr ⟨registration, fun l hl => ?_⟩⟩)
      by_contra hne
      exact htype ⟨l, hl, Option.isSome_iff_ne_none.mpr hne⟩
  · simp only [not_forall] at hk
    obtain ⟨l, hl, hk⟩ := hk
    obtain ⟨u, v, huv⟩ := List.append_of_mem hl
    have heq : registration.before ++ registration.item :: registration.after
        = u ++ l :: (v ++ registration.item :: registration.after) := by
      rw [huv, List.append_assoc]
      rfl
    exact Or.inl (Or.inr ⟨I, Or.inl ⟨u, l, _, registration.eq.trans heq,
      fun x hx => registration.before_not x (by rw [huv]; simp [hx]), hk⟩⟩)

end Package
end TdsAdmin
