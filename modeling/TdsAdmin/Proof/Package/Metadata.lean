import TdsAdmin.Proof.Package.Outline
import TdsAdmin.Package.Upload

/-!
# The record describes the package

The XML and the record are written by two flows through the same loop: a line is rewritten, and
the values it was rewritten with are assigned to variables. They agree because each rewritten
line is read by nothing else afterwards, and that is where the hypotheses come in. With at most
one scanned tag on a line no captured value holds the start of another tag, so a rewritten line
fires no second `if`, and the landmarks of the outline are the landmarks of the package.
-/

set_option autoImplicit false

namespace TdsAdmin
namespace Package

variable {t : Option Text}

/-! ## One tag on a line -/

/-- The openings that the scanner looks for. -/
def scannedTags : List Text :=
  ["<testspecification".toList, "<identifier".toList, "<property".toList,
    "<registration>".toList, "<poolproperty".toList, "<registrationsegment".toList]

/-- No two different openings are on the line. -/
def HoldsOneTag (l : Text) : Prop :=
  ∀ u ∈ scannedTags, ∀ v ∈ scannedTags, u <:+: l → v <:+: l → u = v

theorem HoldsOneTag.other {l u v : Text} (h : HoldsOneTag l) (hu : u ∈ scannedTags)
    (hv : v ∈ scannedTags) (hne : u ≠ v) (hl : u <:+: l) : ¬ v <:+: l :=
  fun hvl => hne (h u hu v hv hl hvl)

/-! ## Captured values -/

theorem attribute_captured {name line v : Text} (h : (attributePattern name).first line = some v) :
    v <:+: line ∧ '"' ∉ v := by
  have hq : ∀ p min, Piece.capture p min ∈ attributePattern name → ∀ c, p c = true → c ≠ '"' := by
    intro p min hp c hc
    simp only [attributePattern, valuePattern, Pattern.lit, List.map_cons, List.map_nil,
      List.mem_append, List.mem_cons, List.mem_map, List.not_mem_nil, reduceCtorEq, and_false,
      exists_false, false_or, or_false, Piece.capture.injEq] at hp
    rw [hp.1] at hc
    simpa [notQuote] using hc
  obtain ⟨hinf, hall⟩ := Pattern.first_captured (q := fun c => c ≠ '"') hq h
  exact ⟨hinf, fun hmem => hall _ hmem rfl⟩

/-- A value that is captured on a line, by this match or by an earlier one, is part of it. -/
theorem matchAttribute_infix {name line v : Text} {dollar1 : Option Text}
    (h : matchAttribute name line dollar1 = some v) :
    v <:+: line ∨ dollar1 = some v := by
  unfold matchAttribute at h
  cases hf : (attributePattern name).first line with
  | none => exact Or.inr (by rw [hf] at h; exact h)
  | some w =>
    rw [hf] at h
    cases h
    exact Or.inl (attribute_captured hf).1

theorem uniqueIdOf_infix {l v : Text} (h : uniqueIdOf l = some v) : v <:+: l := by
  rcases matchAttribute_infix h with h | h
  · exact h
  · cases h

theorem testLabelOf_infix {l v : Text} (h : testLabelOf l = some v) : v <:+: l := by
  rcases matchAttribute_infix h with h | h
  · exact h
  · exact uniqueIdOf_infix h

theorem testVersion_infix {l v : Text}
    (h : matchAttribute "version".toList l (testLabelOf l) = some v) : v <:+: l := by
  rcases matchAttribute_infix h with h | h
  · exact h
  · exact testLabelOf_infix h

theorem testPublishDate_infix {l v : Text} (h : testPublishDate l = some v) : v <:+: l := by
  rcases matchAttribute_infix h with h | h
  · exact h
  rcases matchAttribute_infix h with h | h
  · exact h
  rcases matchAttribute_infix h with h | h
  · exact h
  · cases h

/-- What an undefined value or a value of the line is interpolated to holds no needle that the
line does not hold. -/
theorem not_infix_interpolate {needle l : Text} {v : Option Text} (hne : needle ≠ [])
    (hv : ∀ w, v = some w → w <:+: l) (hl : ¬ needle <:+: l) : ¬ needle <:+: interpolate v := by
  cases v with
  | none => exact fun h => hne (List.infix_nil.mp h)
  | some w => exact fun h => hl (h.trans (hv w rfl))

/-! ## What the rewritten lines hold

A rewritten line is literal text with values in between, and where one ends and the other starts
there is a quote. A needle without a quote is in the line only if it is in one of the parts, and if
it starts with `<`, then among the literal parts only one with a tag can hold it. -/

theorem not_infix_after {needle u v : Text} (hq : '"' ∉ needle) (hu : ¬ needle <:+: u)
    (hlast : u.getLast? = some '"') (hv : ¬ needle <:+: v) : ¬ needle <:+: u ++ v := by
  obtain ⟨a, rfl⟩ := List.getLast?_eq_some_iff.mp hlast
  rw [List.append_assoc, List.singleton_append, Text.infix_across hq]
  rintro (h | h)
  · exact hu (h.trans (List.prefix_append _ _).isInfix)
  · exact hv h

theorem not_infix_before {needle u v : Text} (hq : '"' ∉ needle) (hu : ¬ needle <:+: u)
    (hhead : v.head? = some '"') (hv : ¬ needle <:+: v) : ¬ needle <:+: u ++ v := by
  obtain ⟨b, rfl⟩ : ∃ b, v = '"' :: b := by
    cases v with
    | nil => cases hhead
    | cons c b => exact ⟨b, by rw [Option.some.inj hhead]⟩
  rw [Text.infix_across hq]
  rintro (h | h)
  · exact hu h
  · exact hv (h.trans (List.suffix_cons _ _).isInfix)

/-- A value between two pieces of literal text. -/
theorem not_infix_between {needle u v w : Text} (hq : '"' ∉ needle) (hu : ¬ needle <:+: u)
    (hlast : u.getLast? = some '"') (hv : ¬ needle <:+: v) (hw : ¬ needle <:+: w)
    (hhead : w.head? = some '"') : ¬ needle <:+: u ++ v ++ w :=
  not_infix_before hq (not_infix_after hq hu hlast hv) hhead hw

theorem getLast?_append_literal {u v : Text} {c : Char} (h : v.getLast? = some c) :
    (u ++ v).getLast? = some c := by
  rw [List.getLast?_append, h]
  rfl

variable {needle : Text}

theorem not_infix_testspecificationLine {tenant date : Option Text} (hq : '"' ∉ '<' :: needle)
    (htag : ¬ '<' :: needle <:+: "<testspecification purpose=\"REGISTRATION\" publisher=\"".toList)
    (ht : ¬ '<' :: needle <:+: interpolate tenant) (hd : ¬ '<' :: needle <:+: interpolate date) :
    ¬ '<' :: needle <:+: testspecificationLine tenant date := by
  have hpublisher := not_infix_between hq htag (by decide) ht
    (Text.not_infix_of_head (s := "\" publishdate=\"".toList) (by decide)) (by decide)
  exact not_infix_between hq hpublisher (getLast?_append_literal (by decide)) hd
    (Text.not_infix_of_head (by decide)) (by decide)

theorem not_infix_identifierLine {uniqueId label version : Option Text}
    (hq : '"' ∉ '<' :: needle) (htag : ¬ '<' :: needle <:+: "  <identifier uniqueid=\"".toList)
    (hid : ¬ '<' :: needle <:+: interpolate uniqueId)
    (hlabel : ¬ '<' :: needle <:+: interpolate label)
    (hversion : ¬ '<' :: needle <:+: interpolate version) :
    ¬ '<' :: needle <:+: identifierLine uniqueId label version := by
  have hunique := not_infix_between hq htag (by decide) hid
    (Text.not_infix_of_head (s := "\" name=\"".toList) (by decide)) (by decide)
  have hname := not_infix_between hq hunique (getLast?_append_literal (by decide)) hid
    (Text.not_infix_of_head (s := "\" label=\"".toList) (by decide)) (by decide)
  have hlab := not_infix_between hq hname (getLast?_append_literal (by decide)) hlabel
    (Text.not_infix_of_head (s := "\" version=\"".toList) (by decide)) (by decide)
  exact not_infix_between hq hlab (getLast?_append_literal (by decide)) hversion
    (Text.not_infix_of_head (by decide)) (by decide)

/-- What `registrationLines` writes after the label. -/
def registrationTail : Text :=
  ("\"/>\n  <property name=\"category\"/>\n  <property name=\"comment\"/>\n" ++
    "  <property name=\"description\"/>\n  <property name=\"testfamily\"/>\n" ++
    "  <registration>\n").toList

theorem registrationTail_eq : registrationTail =
    "\"/>\n  <property name=\"category\"/>\n  <property name=\"comment\"/>\n".toList ++
      "  <property name=\"description\"/>\n  <property name=\"testfamily\"/>\n".toList ++
      "  <registration>\n".toList := by
  unfold registrationTail
  simp only [String.toList_append]

theorem registrationTail_head : registrationTail.head? = some '"' := by
  rw [registrationTail_eq]
  simp only [Text.toList_eq rfl]
  rfl

theorem not_infix_registrationLines {label : Option Text} (hq : '"' ∉ '<' :: needle)
    (htag : ¬ '<' :: needle <:+: "  <property name=\"label\" value=\"".toList)
    (htail : ¬ '<' :: needle <:+: registrationTail)
    (hlabel : ¬ '<' :: needle <:+: interpolate label) :
    ¬ '<' :: needle <:+: registrationLines label := by
  have hvalue := not_infix_between hq htag (by decide) hlabel
    (Text.not_infix_of_head (s := "\" label=\"".toList) (by decide)) (by decide)
  exact not_infix_between hq hvalue (getLast?_append_literal (by decide)) hlabel htail
    registrationTail_head

theorem registrationTail_plain :
    Text.has "<poolproperty".toList registrationTail = false ∧
      Text.has "<registrationsegment".toList registrationTail = false := by
  rw [registrationTail_eq]
  simp only [Text.toList_eq rfl]
  decide +kernel

/-! ## The landmarks of the package -/

/-- A line without `<property` is no property line. -/
theorem property_none {l : Text} (h : ¬ "<property".toList <:+: l) : property l = none := by
  have hcap : propertyPattern.captures l = none := Pattern.captures_lit_none h
  rw [property, hcap]

/-- The rewritten header opens no identifier. -/
theorem testspecificationLine_not_identifier {l : Text} (h : HoldsOneTag l)
    (hl : isTestspecification l = true) (ht : '<' ∉ interpolate t) :
    isIdentifier (testspecificationLine t (testPublishDate l)) = false := by
  have hno : ¬ "<identifier".toList <:+: l :=
    h.other (by decide) (by decide) (by decide) (Text.has_iff.mp hl)
  apply Text.has_eq_false.mpr
  apply not_infix_testspecificationLine (by decide)
  · exact Text.has_eq_false.mp (by decide)
  · exact Text.not_infix_of_head ht
  · exact not_infix_interpolate (by decide) (fun w => testPublishDate_infix) hno

/-- The rewritten identifier opens nothing that the identifier line does not open. -/
theorem not_infix_rebuiltIdentifier {l : Text} (hl : ¬ '<' :: needle <:+: l)
    (hq : '"' ∉ '<' :: needle) (hdot : '.' ∉ '<' :: needle)
    (htag : ¬ '<' :: needle <:+: "  <identifier uniqueid=\"".toList) :
    ¬ '<' :: needle <:+: rebuiltIdentifier l := by
  have hne : '<' :: needle ≠ [] := List.cons_ne_nil _ _
  apply not_infix_identifierLine hq htag
  · exact not_infix_interpolate hne (fun w => uniqueIdOf_infix) hl
  · exact not_infix_interpolate hne (fun w => testLabelOf_infix) hl
  · have hversion : interpolate (some (testVersionOf l))
        = interpolate (matchAttribute "version".toList l (testLabelOf l)) ++ '.' :: ['0'] := rfl
    rw [hversion, Text.infix_across hdot]
    rintro (h | h)
    · exact not_infix_interpolate hne (fun w => testVersion_infix) hl h
    · exact Text.not_infix_of_head (by decide) h

theorem rebuiltIdentifier_not_property {l : Text} (h : HoldsOneTag l)
    (hl : isIdentifier l = true) : property (rebuiltIdentifier l) = none := by
  have hno : ¬ "<property".toList <:+: l :=
    h.other (by decide) (by decide) (by decide) (Text.has_iff.mp hl)
  exact property_none (not_infix_rebuiltIdentifier hno (by decide) (by decide)
    (Text.has_eq_false.mp (by decide)))

theorem rebuiltIdentifier_not_registration {l : Text} (h : HoldsOneTag l)
    (hl : isIdentifier l = true) : isRegistration (rebuiltIdentifier l) = false := by
  have hno : ¬ "<registration>".toList <:+: l :=
    h.other (by decide) (by decide) (by decide) (Text.has_iff.mp hl)
  exact Text.has_eq_false.mpr (not_infix_rebuiltIdentifier hno (by decide) (by decide)
    (Text.has_eq_false.mp (by decide)))

/-- The lines written for `<registration>` are not touched in state 3, unless the label is. -/
theorem registrationLines_untouched {label : Option Text}
    (hpool : ¬ "<poolproperty".toList <:+: interpolate label)
    (hsegment : ¬ "<registrationsegment".toList <:+: interpolate label) :
    segmentLine (registrationLines label) = registrationLines label := by
  obtain ⟨htailpool, htailsegment⟩ := registrationTail_plain
  have hnopool : isPoolproperty (registrationLines label) = false :=
    Text.has_eq_false.mpr (not_infix_registrationLines (by decide)
      (Text.has_eq_false.mp (by decide)) (Text.has_eq_false.mp htailpool) hpool)
  have hnosegment : isRegistrationsegment (registrationLines label) = false :=
    Text.has_eq_false.mpr (not_infix_registrationLines (by decide)
      (Text.has_eq_false.mp (by decide)) (Text.has_eq_false.mp htailsegment) hsegment)
  rw [segmentLine, hnopool, hnosegment]
  rfl

theorem segmentLine_registrationLines {l : Text} (h : HoldsOneTag l)
    (hl : isIdentifier l = true) :
    segmentLine (registrationLines (testLabelOf l)) = registrationLines (testLabelOf l) := by
  have hnopool : ¬ "<poolproperty".toList <:+: l :=
    h.other (by decide) (by decide) (by decide) (Text.has_iff.mp hl)
  have hnosegment : ¬ "<registrationsegment".toList <:+: l :=
    h.other (by decide) (by decide) (by decide) (Text.has_iff.mp hl)
  apply registrationLines_untouched
  · exact not_infix_interpolate (by decide) (fun w => testLabelOf_infix) hnopool
  · exact not_infix_interpolate (by decide) (fun w => testLabelOf_infix) hnosegment

/-! ## The property lines of the package -/

/-- The value and the label of a `subject` property line. -/
def subjectFields (l : Text) : Option (Text × Text) :=
  match propertyPattern.captures l with
  | some [propName, propValue, propLabel] =>
      if Text.lower propName = "subject".toList then some (propValue, propLabel) else none
  | _ => none

theorem subjectFields_none {l : Text} (h : subjectValue l = none) : subjectFields l = none := by
  unfold subjectFields
  split
  · rename_i propName propValue propLabel hcap
    have hproperty : property l = some (Text.lower propName, propValue) := by
      rw [property, hcap]
    rw [subjectValue, hproperty, Option.bind_some] at h
    by_cases hname : Text.lower propName = "subject".toList
    · rw [if_pos hname] at h
      cases h
    · exact if_neg hname
  · rfl

/-- Each of the three subject lines reads back as what it was written with. -/
theorem subjectLine_read {v : Text} {p : Text × Text} (h : subjectFor v = some p) :
    subjectFields (subjectLine p.2 p.1) = some (p.2, p.1) ∧
      (subjectValue (subjectLine p.2 p.1)).isSome := by
  unfold subjectFor at h
  split_ifs at h <;> simp only [Option.some.injEq] at h <;> subst h <;> decide +kernel

/-- A line as it is pushed says the same as the line that was read. -/
theorem propertyLine_read {l : Text} (hk : SubjectKnown l) :
    subjectFields (propertyLine l) = (subjectPair l).map Prod.swap ∧
      gradeValue (propertyLine l) = gradeValue l ∧ typeValue (propertyLine l) = typeValue l := by
  cases hv : subjectValue l with
  | none =>
    have hp : subjectPair l = none := by rw [subjectPair, hv]; rfl
    have hl : propertyLine l = l := by rw [propertyLine, hp]
    rw [hl, hp]
    exact ⟨subjectFields_none hv, rfl, rfl⟩
  | some v =>
    obtain ⟨p, hp⟩ := Option.isSome_iff_exists.mp (hk v hv)
    have hpair : subjectPair l = some p := by rw [subjectPair, hv]; exact hp
    have hl : propertyLine l = subjectLine p.2 p.1 := by rw [propertyLine, hpair]
    obtain ⟨hread, hsome⟩ := subjectLine_read hp
    obtain ⟨w, hw⟩ := Option.isSome_iff_exists.mp hsome
    obtain ⟨hg, ht⟩ := subjectValue_only hv
    obtain ⟨hg', ht'⟩ := subjectValue_only hw
    rw [hl, hpair, hread, hg, ht, hg', ht']
    exact ⟨rfl, rfl, rfl⟩

/-- What is read on the lines as they are pushed is what was read on the lines of the file. -/
theorem propertyLines_read {body : List Text} (h : ∀ l ∈ body, SubjectKnown l) :
    (body.map propertyLine).filterMap subjectFields
        = (body.filterMap subjectPair).map Prod.swap ∧
      (body.map propertyLine).filterMap gradeValue = body.filterMap gradeValue ∧
      (body.map propertyLine).filterMap typeValue = body.filterMap typeValue := by
  refine ⟨?_, ?_, ?_⟩
  · rw [List.filterMap_map, List.map_filterMap]
    exact List.filterMap_congr fun l hl => (propertyLine_read (h l hl)).1
  · rw [List.filterMap_map]
    exact List.filterMap_congr fun l hl => (propertyLine_read (h l hl)).2.1
  · rw [List.filterMap_map]
    exact List.filterMap_congr fun l hl => (propertyLine_read (h l hl)).2.2

/-- A line that is no property line has no value. -/
theorem values_none {l : Text} (h : property l = none) :
    subjectPair l = none ∧ gradeValue l = none ∧ typeValue l = none := by
  rw [subjectPair, subjectValue, gradeValue, typeValue, h]
  exact ⟨rfl, rfl, rfl⟩

/-! ## The description -/

/-- The record says of the package what the package says of itself: the first header carries
the tenant, the first identifier after it the name, the label and the version, and the lines
from there to the registration line the grades, the subject and the type. -/
structure Describes (d : Data) (package : List Text) : Prop where
  landmarks : ∃ before date between body after,
    package = before ++ testspecificationLine d.tenantId date :: (between ++
      identifierLine d.name d.label d.version :: (body ++ registrationLines d.label :: after)) ∧
    (∀ l ∈ before, isTestspecification l = false) ∧ (∀ l ∈ between, isIdentifier l = false) ∧
    (∀ l ∈ body, isRegistration l = false) ∧
    d.grade = body.filterMap gradeValue ∧
    (body.filterMap subjectFields).getLast?
      = d.subjectAbbreviation.bind (fun abbreviation =>
          d.subjectName.map fun name => (abbreviation, name)) ∧
    d.type = (body.filterMap typeValue).getLast?

namespace Registered

variable {lines : List Text} (R : Registered t lines)

/-- The header is passed over in state 1, so the identifier line is a line of the file. -/
theorem identifier_split (hlines : ∀ l ∈ lines, HoldsOneTag l) (ht : '<' ∉ interpolate t) :
    ∃ between, R.identifier.before
        = testspecificationLine t (testPublishDate R.header.item) :: between ∧
      R.identifier.item ∈ lines ∧ ∀ l ∈ R.identifier.after, l ∈ lines := by
  obtain ⟨r, hbefore, hitem, hafter⟩ := R.identifier.pass
    (testspecificationLine_not_identifier (hlines _ R.header.item_mem) R.header.item_is ht)
  exact ⟨r.before, hbefore, hitem ▸ R.header.after_mem r.item_mem, fun l hl =>
    R.header.after_mem (r.after_mem (hafter ▸ hl))⟩

/-- The identifier is passed over in state 2, so the registration line is a line of the file. -/
theorem registration_split (hlines : ∀ l ∈ lines, HoldsOneTag l) (ht : '<' ∉ interpolate t) :
    ∃ body, R.properties = rebuiltIdentifier R.identifier.item :: body ∧
      R.registration.item ∈ lines := by
  obtain ⟨-, -, hid, hsub⟩ := R.identifier_split hlines ht
  have hplain := rebuiltIdentifier_not_registration (hlines _ hid) R.identifier.item_is
  obtain ⟨r, hbefore, hitem, -⟩ := R.registration.pass (by rw [isRegistrationLine, hplain]; simp)
  exact ⟨r.before, hbefore, hitem ▸ hsub _ r.item_mem⟩

/-- No line that is pushed in state 2 holds `<registration>`. -/
theorem propertyLine_not_registration {l : Text} (hl : l ∈ R.properties) :
    isRegistration (propertyLine l) = false := by
  have hr := R.registration.before_not l hl
  cases hv : subjectValue l with
  | none =>
    have hp : propertyLine l = l := by rw [propertyLine, subjectPair, hv]; rfl
    rw [hp]
    simpa [isRegistrationLine, hv] using hr
  | some v =>
    obtain ⟨p, hp⟩ := Option.isSome_iff_exists.mp (R.subjects l hl v hv)
    have hline : propertyLine l = subjectLine p.2 p.1 := by
      rw [propertyLine, subjectPair, hv, Option.bind_some, hp]
    rw [hline]
    exact subjectFor_plain hp

end Registered

/-- A scan that has got past the registration line is that of a registered package. -/
theorem exists_registered {lines : List Text} {s : Scan} (hscan : scan t lines = .ok s)
    (hstate : s.state = .registration) : ∃ R : Registered t lines, R.final = s := by
  rcases scan_cases t lines with hrej | ⟨⟨R⟩⟩ | ⟨s', hs', hne⟩
  · obtain ⟨death, hdeath⟩ := hrej.scan
    rw [hscan] at hdeath
    cases hdeath
  · have hR := R.scan
    rw [hscan, Except.ok.injEq] at hR
    exact ⟨R, hR.symm⟩
  · rw [hscan, Except.ok.injEq] at hs'
    exact absurd (hs' ▸ hstate) hne

/-- **The record describes the package that is uploaded with it.** -/
theorem record_describes_package (e : Session) (content encoded : Text) (s : Scan)
    (hlines : ∀ l ∈ Text.lines content, HoldsOneTag l) (htenant : '<' ∉ interpolate e.tenantId)
    (hscan : scan e.tenantId (Text.lines content) = .ok s) (hstate : s.state = .registration) :
    Describes (buildData e s encoded) s.testPackage := by
  obtain ⟨R, rfl⟩ := exists_registered hscan hstate
  obtain ⟨between, hbetween, hid, -⟩ := R.identifier_split hlines htenant
  obtain ⟨body, hbody, hreg⟩ := R.registration_split hlines htenant
  have hidTag := hlines _ hid
  have hidProp := rebuiltIdentifier_not_property hidTag R.identifier.item_is
  have hregProp : property R.registration.item = none := by
    have hr := R.registration.item_is
    rw [isRegistrationLine, Bool.and_eq_true] at hr
    exact property_none ((hlines _ hreg).other (by decide) (by decide) (by decide)
      (Text.has_iff.mp hr.2))
  obtain ⟨hidPair, hidGrade, hidType⟩ := values_none hidProp
  obtain ⟨-, hregGrade, hregType⟩ := values_none hregProp
  have hread : ∀ l ∈ body, SubjectKnown l := fun l hl =>
    R.subjects l (show l ∈ R.properties by rw [hbody]; simp [hl])
  obtain ⟨hfields, hgrades, htypes⟩ := propertyLines_read hread
  have hidLine : propertyLine (rebuiltIdentifier R.identifier.item)
      = rebuiltIdentifier R.identifier.item := by rw [propertyLine, hidPair]
  refine ⟨R.header.before, testPublishDate R.header.item, between, body.map propertyLine,
    R.registration.after.map segmentLine, ?_, R.header.before_not, ?_, ?_, ?_, ?_, ?_⟩
  · rw [R.final_testPackage, hbetween, hbody, Registered.segments, List.map_cons, List.map_cons,
      hidLine, segmentLine_registrationLines hidTag R.identifier.item_is]
    simp only [List.append_assoc, List.cons_append]
    rfl
  · exact fun l hl => R.identifier.before_not l (by rw [hbetween]; simp [hl])
  · intro l hl
    obtain ⟨m, hm, rfl⟩ := List.mem_map.mp hl
    exact R.propertyLine_not_registration (by rw [hbody]; simp [hm])
  · rw [hgrades]
    show R.final.testGrades = _
    rw [R.final_testGrades, hbody, filterMap_cons_toList, hidGrade, hregGrade]
    simp
  · rw [hfields]
    show _ = R.final.testSubjectAbbreviation.bind
      (fun abbreviation => R.final.testSubjectName.map fun name => (abbreviation, name))
    rw [R.final_testSubjectName, R.final_testSubjectAbbreviation, hbody, filterMap_cons_toList,
      hidPair, Option.toList_none, List.nil_append, List.getLast?_map]
    cases (body.filterMap subjectPair).getLast? <;> rfl
  · rw [htypes]
    show R.final.testType = _
    rw [R.final_testType, hbody, filterMap_cons_toList, hidType, hregType]
    rfl

/-- A package with two grades, on lines of its own. -/
def gradedPackage : Text :=
  "<testspecification purpose=\"registration\" publishdate=\"d\">\n".toList ++
    "<identifier uniqueid=\"u\" label=\"l\" version=\"1\"/>\n".toList ++
    "<property name=\"subject\" value=\"ELA\" label=\"\"/>\n".toList ++
    "<property name=\"grade\" value=\"3\" label=\"\"/>\n".toList ++
    "<property name=\"Grade\" value=\"4\" label=\"\"/>\n".toList ++
    "<property name=\"type\" value=\"interim\" label=\"\"/>\n".toList ++
    "<registration>\n".toList

instance (l : Text) : Decidable (HoldsOneTag l) := by
  unfold HoldsOneTag
  infer_instance

theorem record_describes_gradedPackage : ∃ s,
    scan (some ['t']) (Text.lines gradedPackage) = .ok s ∧ s.testGrades = [['3'], ['4']] ∧
      Describes (buildData ⟨some ['t'], none, true, [], none, fun _ => none⟩ s [])
        s.testPackage := by
  have hread : ((scan (some ['t']) (Text.lines gradedPackage)).toOption.map fun s =>
      (s.state, s.testGrades)) = some (.registration, [['3'], ['4']]) := by decide +kernel
  obtain ⟨s, hs, heq⟩ := Option.map_eq_some_iff.mp hread
  obtain ⟨hstate, hgrades⟩ := Prod.mk.inj heq
  have hscan : scan (some ['t']) (Text.lines gradedPackage) = .ok s := by
    cases h : scan (some ['t']) (Text.lines gradedPackage) with
    | error death => rw [h] at hs; cases hs
    | ok s' => rw [h] at hs; cases hs; rfl
  exact ⟨s, hscan, hgrades, record_describes_package
    ⟨some ['t'], none, true, [], none, fun _ => none⟩ gradedPackage [] s (by decide +kernel)
    (by decide) hscan hstate⟩

end Package
end TdsAdmin
