import TdsAdmin.Package.Scan

/-!
# What one line does, state by state

`scanLine` runs its seven `if`s on every line, but in each state at most three of them can
fire. The lemmas here say what one line does in each state, and nothing later unfolds
`scanLine`.

The useful shape is *re-feeding*. When the header line fires, the rest of the turn is the whole
turn again, in the next state and on the rewritten line: `scanFrom_specification` reads
`scanFrom t s (l :: ls) = scanFrom t s' (header :: ls)`. The same holds at `<identifier` and at
`<registration>`. So a line that triggers two rewritings is not a special case of anything: it
is a line that is scanned twice.
-/

set_option autoImplicit false

namespace TdsAdmin
namespace Package

variable {t : Option Text} {s : Scan} {l : Text} {ls : List Text}

@[simp] theorem Scan.push_state : (s.push l).state = s.state := rfl
@[simp] theorem Scan.push_testPackage : (s.push l).testPackage = s.testPackage ++ [l] := rfl

@[simp] theorem scanFrom_nil : scanFrom t s [] = .ok s := rfl

theorem scanFrom_cons : scanFrom t s (l :: ls) = scanLine t s l >>= fun s => scanFrom t s ls :=
  rfl

theorem scanFrom_append {xs ys : List Text} :
    scanFrom t s (xs ++ ys) = scanFrom t s xs >>= fun s => scanFrom t s ys := by
  simp [scanFrom, List.foldlM_append]

/-! ## Steps that do not fire -/

theorem testspecificationStep_off (h : s.state ≠ .start) :
    testspecificationStep t s l = .ok (s, l) := by
  simp [testspecificationStep, h]

theorem identifierStep_off (h : s.state ≠ .specification) : identifierStep s l = (s, l) := by
  simp [identifierStep, h]

theorem propertyStep_off (h : s.state ≠ .properties) : propertyStep s l = .ok (s, l) := by
  unfold propertyStep
  split
  · rw [if_neg h]
  · rfl

theorem registrationStep_off (h : s.state ≠ .properties) :
    registrationStep s l = .ok (s, l) := by
  simp [registrationStep, h]

theorem poolpropertyStep_off (h : s.state ≠ .registration) : poolpropertyStep s l = l := by
  simp [poolpropertyStep, h]

theorem registrationsegmentStep_off (h : s.state ≠ .registration) :
    registrationsegmentStep s l = l := by
  simp [registrationsegmentStep, h]

/-! ## State 0 -/

theorem scanLine_start_skip (hs : s.state = .start) (hl : isTestspecification l = false) :
    scanLine t s l = .ok (s.push l) := by
  have hstep : testspecificationStep t s l = .ok (s, l) := by simp [testspecificationStep, hl]
  simp only [scanLine, hstep, bind, Except.bind]
  rw [identifierStep_off (by simp [hs]), propertyStep_off (by simp [hs])]
  dsimp only
  rw [registrationStep_off (by simp [hs])]
  dsimp only
  rw [poolpropertyStep_off (by simp [hs]), registrationsegmentStep_off (by simp [hs])]
  rfl

theorem scanLine_start_die (hs : s.state = .start) (hl : isTestspecification l = true)
    (hp : isRegistrationPurpose l = false) : scanLine t s l = .error .notRegistration := by
  have hstep : testspecificationStep t s l = .error .notRegistration := by
    simp [testspecificationStep, hl, hs, hp]
  simp only [scanLine, hstep, bind, Except.bind]

/-- The state after the header line, before the rest of the turn. -/
def Scan.specified (s : Scan) : Scan := { s with state := .specification }

@[simp] theorem Scan.specified_state : s.specified.state = .specification := rfl

theorem scanLine_start_header (hs : s.state = .start) (hl : isTestspecification l = true)
    (hp : isRegistrationPurpose l = true) :
    scanLine t s l = scanLine t s.specified (testspecificationLine t (testPublishDate l)) := by
  have hstep : testspecificationStep t s l
      = .ok (s.specified, testspecificationLine t (testPublishDate l)) := by
    rw [testspecificationStep, if_pos ⟨hl, hs⟩, if_pos hp]
    rfl
  simp only [scanLine, hstep, bind, Except.bind,
    testspecificationStep_off (s := s.specified) (by simp)]

/-- The header line is scanned again, in state 1 and rewritten. -/
theorem scanFrom_specification (hs : s.state = .start) (hl : isTestspecification l = true)
    (hp : isRegistrationPurpose l = true) :
    scanFrom t s (l :: ls)
      = scanFrom t s.specified (testspecificationLine t (testPublishDate l) :: ls) := by
  rw [scanFrom_cons, scanFrom_cons, scanLine_start_header hs hl hp]

/-! ## State 1 -/

theorem scanLine_specification_skip (hs : s.state = .specification)
    (hl : isIdentifier l = false) : scanLine t s l = .ok (s.push l) := by
  have hstep : identifierStep s l = (s, l) := by simp [identifierStep, hl]
  simp only [scanLine, testspecificationStep_off (s := s) (t := t) (l := l) (by simp [hs]), bind,
    Except.bind, hstep]
  rw [propertyStep_off (by simp [hs])]
  dsimp only
  rw [registrationStep_off (by simp [hs])]
  dsimp only
  rw [poolpropertyStep_off (by simp [hs]), registrationsegmentStep_off (by simp [hs])]
  rfl

/-- The state after the identifier line, before the rest of the turn. -/
def Scan.identified (s : Scan) (l : Text) : Scan :=
  { s with
      uniqueId := uniqueIdOf l
      testLabel := testLabelOf l
      testVersion := some (testVersionOf l)
      state := .properties }

@[simp] theorem Scan.identified_state : (s.identified l).state = .properties := rfl
@[simp] theorem Scan.identified_testPackage : (s.identified l).testPackage = s.testPackage := rfl

/-- The identifier line as it is rewritten. -/
def rebuiltIdentifier (l : Text) : Text :=
  identifierLine (uniqueIdOf l) (testLabelOf l) (some (testVersionOf l))

theorem scanLine_specification_identifier (hs : s.state = .specification)
    (hl : isIdentifier l = true) :
    scanLine t s l = scanLine t (s.identified l) (rebuiltIdentifier l) := by
  have hstep : identifierStep s l = (s.identified l, rebuiltIdentifier l) := if_pos ⟨hl, hs⟩
  have hoff : identifierStep (s.identified l) (rebuiltIdentifier l)
      = (s.identified l, rebuiltIdentifier l) := identifierStep_off (by simp)
  simp only [scanLine, testspecificationStep_off (s := s) (t := t) (l := l) (by simp [hs]),
    testspecificationStep_off (s := s.identified l) (t := t) (l := rebuiltIdentifier l) (by simp),
    bind, Except.bind, hstep, hoff]

/-- The identifier line is scanned again, in state 2 and rewritten. -/
theorem scanFrom_identifier (hs : s.state = .specification) (hl : isIdentifier l = true) :
    scanFrom t s (l :: ls) = scanFrom t (s.identified l) (rebuiltIdentifier l :: ls) := by
  rw [scanFrom_cons, scanFrom_cons, scanLine_specification_identifier hs hl]

/-! ## State 2 -/

/-- The value of a `subject` property line. -/
def subjectValue (l : Text) : Option Text :=
  (property l).bind fun p => if p.1 = "subject".toList then some p.2 else none

/-- The value of a `grade` property line. -/
def gradeValue (l : Text) : Option Text :=
  (property l).bind fun p => if p.1 = "grade".toList then some p.2 else none

/-- The test type a `type` property line sets. -/
def typeValue (l : Text) : Option Text :=
  (property l).bind fun p => if p.1 = "type".toList then typeFor p.2 else none

/-- What a property line other than a `subject` one changes. -/
def Scan.noted (s : Scan) (l : Text) : Scan :=
  { s with
      testGrades := s.testGrades ++ (gradeValue l).toList
      testType := (typeValue l).or s.testType
      testTypeFound := s.testTypeFound || (typeValue l).isSome }

@[simp] theorem Scan.noted_state : (s.noted l).state = s.state := rfl
@[simp] theorem Scan.noted_testPackage : (s.noted l).testPackage = s.testPackage := rfl

/-- What a `subject` line with a known value changes. -/
def Scan.subjected (s : Scan) (subject : Text × Text) : Scan :=
  { s with testSubjectName := some subject.1, testSubjectAbbreviation := some subject.2 }

@[simp] theorem Scan.subjected_state {p : Text × Text} : (s.subjected p).state = s.state := rfl
@[simp] theorem Scan.subjected_testPackage {p : Text × Text} :
    (s.subjected p).testPackage = s.testPackage := rfl

theorem propertyStep_noted (hs : s.state = .properties) (hl : subjectValue l = none) :
    propertyStep s l = .ok (s.noted l, l) := by
  unfold subjectValue at hl
  unfold propertyStep Scan.noted gradeValue typeValue
  cases hp : property l with
  | none =>
    simp only [Option.bind_none, Option.toList_none, List.append_nil, Option.none_or,
      Option.isSome_none, Bool.or_false]
  | some p =>
    obtain ⟨name, value⟩ := p
    rw [hp, Option.bind_some] at hl
    have hsub : name ≠ "subject".toList := fun h => by
      rw [if_pos h] at hl
      exact absurd hl (by simp)
    simp only [Option.bind_some]
    rw [if_pos hs, applyProperty, if_neg hsub]
    by_cases hg : name = "grade".toList
    · have ht : name ≠ "type".toList := by rw [hg]; decide
      rw [if_pos hg, if_pos hg, if_neg ht]
      simp
    · rw [if_neg hg, if_neg hg]
      by_cases ht : name = "type".toList
      · rw [if_pos ht, if_pos ht]
        cases typeFor value <;> simp
      · rw [if_neg ht, if_neg ht]
        simp

theorem propertyStep_subject {v : Text} (hs : s.state = .properties)
    (hl : subjectValue l = some v) :
    propertyStep s l = match subjectFor v with
      | some p => .ok (s.subjected p, subjectLine p.2 p.1)
      | none => .error (.unknownSubject v) := by
  unfold subjectValue at hl
  unfold propertyStep
  cases hp : property l with
  | none => rw [hp] at hl; cases hl
  | some p =>
    obtain ⟨name, value⟩ := p
    rw [hp, Option.bind_some] at hl
    by_cases hn : name = "subject".toList
    · rw [if_pos hn, Option.some.injEq] at hl
      subst hl
      dsimp only
      rw [if_pos hs, applyProperty, if_pos hn]
      cases subjectFor value <;> rfl
    · rw [if_neg hn] at hl
      exact absurd hl (by simp)

/-- The state in which the registration segments are read. -/
def Scan.entered (s : Scan) : Scan := { s with state := .registration }

@[simp] theorem Scan.entered_state : s.entered.state = .registration := rfl

/-- The tail of a turn in state 2, once the property has been dealt with. -/
theorem scanLine_properties (hs : s.state = .properties) {s' : Scan} {l' : Text}
    (hp : propertyStep s l = .ok (s', l')) (hs' : s'.state = .properties) :
    scanLine t s l = if isRegistration l' then
        if s'.testTypeFound then
          scanLine t s'.entered (registrationLines s'.testLabel)
        else .error .typeNotFound
      else .ok (s'.push l') := by
  have hstart : testspecificationStep t s l = .ok (s, l) := testspecificationStep_off (by simp [hs])
  have hid : identifierStep s l = (s, l) := identifierStep_off (by simp [hs])
  simp only [scanLine, hstart, bind, Except.bind, hid, hp]
  by_cases hr : isRegistration l' = true
  · by_cases hf : s'.testTypeFound = true
    · have hreg : registrationStep s' l'
          = .ok (s'.entered, registrationLines s'.testLabel) := by
        rw [registrationStep, if_pos ⟨hr, hs'⟩, if_pos hf]
        rfl
      rw [hreg, if_pos hr, if_pos hf, testspecificationStep_off (by simp)]
      dsimp only
      rw [identifierStep_off (by simp)]
      dsimp only
      rw [propertyStep_off (by simp)]
      dsimp only
      rw [registrationStep_off (by simp)]
    · have hreg : registrationStep s' l' = .error .typeNotFound := by
        simp [registrationStep, hr, hs', hf]
      rw [hreg]
      simp [hr, hf]
  · have hreg : registrationStep s' l' = .ok (s', l') := by simp [registrationStep, hr]
    rw [hreg]
    dsimp only
    rw [poolpropertyStep_off (by simp [hs']), registrationsegmentStep_off (by simp [hs']),
      if_neg hr]
    rfl

/-- No subject line holds `<registration>` once it is rewritten. -/
theorem subjectFor_plain {v : Text} {p : Text × Text} (h : subjectFor v = some p) :
    isRegistration (subjectLine p.2 p.1) = false := by
  unfold subjectFor at h
  split_ifs at h <;> simp only [Option.some.injEq] at h <;> subst h <;> decide

/-- A `subject` line in state 2: the subject is set and the line rebuilt, or the script dies. -/
theorem scanLine_subject {v : Text} (hs : s.state = .properties)
    (hl : subjectValue l = some v) :
    scanLine t s l = match subjectFor v with
      | some p => .ok ((s.subjected p).push (subjectLine p.2 p.1))
      | none => .error (.unknownSubject v) := by
  have hstep := propertyStep_subject hs hl
  cases hv : subjectFor v with
  | none =>
    rw [hv] at hstep
    simp only [scanLine, testspecificationStep_off (s := s) (t := t) (l := l) (by simp [hs]),
      identifierStep_off (s := s) (l := l) (by simp [hs]), bind, Except.bind, hstep]
  | some p =>
    rw [hv] at hstep
    rw [scanLine_properties hs hstep (by simp [hs]), subjectFor_plain hv]
    rfl

/-- Any other line in state 2 that does not hold `<registration>` is kept as it is. -/
theorem scanLine_noted (hs : s.state = .properties) (hl : subjectValue l = none)
    (hr : isRegistration l = false) : scanLine t s l = .ok ((s.noted l).push l) := by
  rw [scanLine_properties hs (propertyStep_noted hs hl) (by simp [hs]), hr]
  rfl

theorem scanLine_registration_die (hs : s.state = .properties) (hl : subjectValue l = none)
    (hr : isRegistration l = true) (hf : (s.noted l).testTypeFound = false) :
    scanLine t s l = .error .typeNotFound := by
  rw [scanLine_properties hs (propertyStep_noted hs hl) (by simp [hs])]
  simp [hr, hf]

/-- The state after the `<registration>` line, before the rest of the turn. -/
def Scan.registered (s : Scan) (l : Text) : Scan := (s.noted l).entered

@[simp] theorem Scan.registered_state : (s.registered l).state = .registration := rfl
@[simp] theorem Scan.registered_testPackage :
    (s.registered l).testPackage = s.testPackage := rfl
@[simp] theorem Scan.registered_testLabel : (s.registered l).testLabel = s.testLabel := rfl

/-- The `<registration>` line is scanned again, in state 3 and rewritten. -/
theorem scanFrom_registration (hs : s.state = .properties) (hl : subjectValue l = none)
    (hr : isRegistration l = true) (hf : (s.noted l).testTypeFound = true) :
    scanFrom t s (l :: ls)
      = scanFrom t (s.registered l) (registrationLines s.testLabel :: ls) := by
  rw [scanFrom_cons, scanFrom_cons,
    scanLine_properties hs (propertyStep_noted hs hl) (by simp [hs])]
  simp only [hr, hf, ↓reduceIte]
  rfl

/-! ## State 3 -/

/-- What becomes of a line after `<registration>`. -/
def segmentLine (l : Text) : Text :=
  if isPoolproperty l then []
  else if isRegistrationsegment l then
    Text.replaceFirst "adaptive".toList "ADAPTIVE".toList
      (Text.replaceFirst "fixedform".toList "FIXEDFORM".toList l)
  else l

theorem scanLine_registration (hs : s.state = .registration) :
    scanLine t s l = .ok (s.push (segmentLine l)) := by
  have hstart : testspecificationStep t s l = .ok (s, l) := testspecificationStep_off (by simp [hs])
  have hid : identifierStep s l = (s, l) := identifierStep_off (by simp [hs])
  simp only [scanLine, hstart, bind, Except.bind, hid]
  rw [propertyStep_off (by simp [hs])]
  dsimp only
  rw [registrationStep_off (by simp [hs])]
  dsimp only
  have hset : s.push (registrationsegmentStep s (poolpropertyStep s l)) =
      s.push (segmentLine l) := by
    by_cases hp : isPoolproperty l = true
    · have hpool : poolpropertyStep s l = [] := if_pos ⟨hp, hs⟩
      rw [hpool, segmentLine, if_pos hp]
      exact congrArg s.push (if_neg fun h => absurd h.1 (by decide))
    · have hpool : poolpropertyStep s l = l := if_neg fun h => hp h.1
      rw [hpool, segmentLine, if_neg hp]
      by_cases hg : isRegistrationsegment l = true
      · rw [if_pos hg]
        exact congrArg s.push (if_pos ⟨hg, hs⟩)
      · rw [if_neg hg]
        exact congrArg s.push (if_neg fun h => hg h.1)
  rw [hset]
  rfl

/-- Nothing dies after `<registration>`, and only the package grows. -/
theorem scanFrom_segments (hs : s.state = .registration) :
    scanFrom t s ls
      = .ok { s with testPackage := s.testPackage ++ ls.map segmentLine } := by
  induction ls generalizing s with
  | nil => simp
  | cons l ls ih =>
    rw [scanFrom_cons, scanLine_registration hs]
    have := ih (s := s.push (segmentLine l)) (by simpa using hs)
    simp only [bind, Except.bind, this]
    simp [Scan.push]

end Package
end TdsAdmin
