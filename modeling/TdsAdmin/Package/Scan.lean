import TdsAdmin.Lib.Pattern

/-!
# The line scanner of `load_reg_package.pl`

`ProcessXmlFile` reads a registration package a line at a time, tests each line against seven
patterns in turn, rewrites it in place and pushes what is left of it on `@TestPackage`. The
seven `if`s are seven steps here, in the order of the source, each taking the current line and
handing the rewritten one to the next; `scanLine` is one turn of the `while` and `scan` the
whole loop.

`$1` is modelled as Perl has it: a successful match replaces it, a failed one leaves the
capture of the last successful match of the block. The patterns that open the blocks have no
groups, so each block starts with `$1` undefined.
-/

set_option autoImplicit false

namespace TdsAdmin
namespace Package

open Pattern (lit isSpace)

/-- `$State`, 0 to 3. -/
inductive State where
  /-- 0: no `<testspecification` line yet. -/
  | start
  /-- 1: the header is written, `<identifier` is next. -/
  | specification
  /-- 2: the properties of the test are being read. -/
  | properties
  /-- 3: `<registration>` has been seen. -/
  | registration
  deriving DecidableEq, Repr

/-- The ways the script dies while it works on one file. -/
inductive Die where
  | cannotOpen (filePath : Text)
  | notRegistration
  | unknownSubject (propValue : Text)
  | typeNotFound
  | noDeflationStream
  | deflationFailed
  /-- `from_json` rejects what the service answered; the text is the JSON module's own. -/
  | badResponse (report : Text)
  deriving DecidableEq, Repr

/-- The variables `ProcessXmlFile` sets while it reads; `none` is `undef`. -/
structure Scan where
  state : State
  testSubjectName : Option Text
  testSubjectAbbreviation : Option Text
  uniqueId : Option Text
  testGrades : List Text
  testLabel : Option Text
  testType : Option Text
  testVersion : Option Text
  testTypeFound : Bool
  testPackage : List Text
  deriving DecidableEq, Repr

def Scan.initial : Scan where
  state := .start
  testSubjectName := none
  testSubjectAbbreviation := none
  uniqueId := none
  testGrades := []
  testLabel := none
  testType := none
  testVersion := none
  testTypeFound := false
  testPackage := []

/-- A variable interpolated into a string: `undef` counts as the empty string. -/
def interpolate (v : Option Text) : Text := v.getD []

/-! ## The patterns -/

/-- `[^"]` -/
def notQuote (c : Char) : Bool := c != '"'

/-- `\s*=\s*"([^"]*)"`, what follows a name in every pattern below. -/
def valuePattern : Pattern :=
  .run isSpace :: (lit ['='] ++ .run isSpace :: (lit ['"'] ++ .capture notQuote 0 :: lit ['"']))

/-- `/ name\s*=\s*"([^"]*)"/` -/
def attributePattern (name : Text) : Pattern := lit (' ' :: name) ++ valuePattern

/-- `/<property\s*name\s*=\s*"([^"]*)"\s*value\s*=\s*"([^"]*)"\s*label\s*=\s*"([^"]*)"/` -/
def propertyPattern : Pattern :=
  lit "<property".toList ++ .run isSpace :: (lit "name".toList ++ (valuePattern ++
    .run isSpace :: (lit "value".toList ++ (valuePattern ++
      .run isSpace :: (lit "label".toList ++ valuePattern)))))

/-- `$1` after trying to match one attribute: a failed match leaves it as it was. -/
def matchAttribute (name line : Text) (dollar1 : Option Text) : Option Text :=
  ((attributePattern name).first line).or dollar1

/-! ## The rewritten lines -/

def testspecificationLine (tenantId testPublishDate : Option Text) : Text :=
  "<testspecification purpose=\"REGISTRATION\" publisher=\"".toList ++ interpolate tenantId ++
    "\" publishdate=\"".toList ++ interpolate testPublishDate ++ "\" version=\"1.0\">\n".toList

def identifierLine (uniqueId testLabel testVersion : Option Text) : Text :=
  "  <identifier uniqueid=\"".toList ++ interpolate uniqueId ++ "\" name=\"".toList ++
    interpolate uniqueId ++ "\" label=\"".toList ++ interpolate testLabel ++
    "\" version=\"".toList ++ interpolate testVersion ++ "\" />".toList

def subjectLine (testSubjectAbbreviation testSubjectName : Text) : Text :=
  "  <property name=\"subject\" value=\"".toList ++ testSubjectAbbreviation ++
    "\" label=\"".toList ++ testSubjectName ++ "\" />\n".toList

def registrationLines (testLabel : Option Text) : Text :=
  "  <property name=\"label\" value=\"".toList ++ interpolate testLabel ++
    "\" label=\"".toList ++ interpolate testLabel ++
    ("\"/>\n  <property name=\"category\"/>\n  <property name=\"comment\"/>\n" ++
      "  <property name=\"description\"/>\n  <property name=\"testfamily\"/>\n" ++
      "  <registration>\n").toList

/-! ## The seven `if`s -/

def isTestspecification (line : Text) : Bool := Text.has "<testspecification".toList line
def isIdentifier (line : Text) : Bool := Text.has "<identifier".toList line
def isRegistration (line : Text) : Bool := Text.has "<registration>".toList line
def isPoolproperty (line : Text) : Bool := Text.has "<poolproperty".toList line
def isRegistrationsegment (line : Text) : Bool := Text.has "<registrationsegment".toList line

/-- `$TestPurpose`, `$TestPublisher` and `$TestPublishDate` on a `<testspecification` line. -/
def testPurpose (line : Text) : Option Text := matchAttribute "purpose".toList line none
def testPublisher (line : Text) : Option Text :=
  matchAttribute "publisher".toList line (testPurpose line)
def testPublishDate (line : Text) : Option Text :=
  matchAttribute "publishdate".toList line (testPublisher line)

def isRegistrationPurpose (line : Text) : Bool :=
  Text.lower (interpolate (testPurpose line)) == "registration".toList

/-- `$UniqueId`, `$TestLabel` and `$TestVersion` on an `<identifier` line. The third match is
the one of the substitution, whose result is thrown away with the rest of the line. -/
def uniqueIdOf (line : Text) : Option Text := matchAttribute "uniqueid".toList line none
def testLabelOf (line : Text) : Option Text :=
  matchAttribute "label".toList line (uniqueIdOf line)
def testVersionOf (line : Text) : Text :=
  interpolate (matchAttribute "version".toList line (testLabelOf line)) ++ ".0".toList

/-- The subject name and abbreviation for the value of a `subject` property. -/
def subjectFor (propValue : Text) : Option (Text × Text) :=
  if propValue = "ELA".toList then some ("English Language Arts".toList, "ELA".toList)
  else if propValue = "MATH".toList then some ("Mathematics".toList, "MATH".toList)
  else if propValue = "Student Help".toList then some ("Student Help".toList, "SH".toList)
  else none

/-- `$TestType` for the value of a `type` property. -/
def typeFor (propValue : Text) : Option Text :=
  if propValue = "interim".toList then some ['I']
  else if propValue = "summative".toList then some ['S']
  else none

/-- The name in lower case and the value of a line that matches the property pattern. -/
def property (line : Text) : Option (Text × Text) :=
  match propertyPattern.captures line with
  | some [propName, propValue, _] => some (Text.lower propName, propValue)
  | _ => none

def testspecificationStep (tenantId : Option Text) (s : Scan) (line : Text) :
    Except Die (Scan × Text) :=
  if isTestspecification line ∧ s.state = .start then
    if isRegistrationPurpose line then
      .ok ({ s with state := .specification },
        testspecificationLine tenantId (testPublishDate line))
    else .error .notRegistration
  else .ok (s, line)

def identifierStep (s : Scan) (line : Text) : Scan × Text :=
  if isIdentifier line ∧ s.state = .specification then
    ({ s with
        uniqueId := uniqueIdOf line
        testLabel := testLabelOf line
        testVersion := some (testVersionOf line)
        state := .properties },
      identifierLine (uniqueIdOf line) (testLabelOf line) (some (testVersionOf line)))
  else (s, line)

/-- One property of the test. The three names exclude each other, so the three `if`s of the
source are one chain. -/
def applyProperty (s : Scan) (line propName propValue : Text) : Except Die (Scan × Text) :=
  if propName = "subject".toList then
    match subjectFor propValue with
    | some (name, abbreviation) =>
        .ok ({ s with testSubjectName := some name, testSubjectAbbreviation := some abbreviation },
          subjectLine abbreviation name)
    | none => .error (.unknownSubject propValue)
  else if propName = "grade".toList then
    .ok ({ s with testGrades := s.testGrades ++ [propValue] }, line)
  else if propName = "type".toList then
    match typeFor propValue with
    | some type => .ok ({ s with testType := some type, testTypeFound := true }, line)
    | none => .ok (s, line)
  else .ok (s, line)

def propertyStep (s : Scan) (line : Text) : Except Die (Scan × Text) :=
  match property line with
  | some (propName, propValue) =>
      if s.state = .properties then applyProperty s line propName propValue else .ok (s, line)
  | none => .ok (s, line)

def registrationStep (s : Scan) (line : Text) : Except Die (Scan × Text) :=
  if isRegistration line ∧ s.state = .properties then
    if s.testTypeFound then
      .ok ({ s with state := .registration }, registrationLines s.testLabel)
    else .error .typeNotFound
  else .ok (s, line)

def poolpropertyStep (s : Scan) (line : Text) : Text :=
  if isPoolproperty line ∧ s.state = .registration then [] else line

def registrationsegmentStep (s : Scan) (line : Text) : Text :=
  if isRegistrationsegment line ∧ s.state = .registration then
    Text.replaceFirst "adaptive".toList "ADAPTIVE".toList
      (Text.replaceFirst "fixedform".toList "FIXEDFORM".toList line)
  else line

/-- `push( @TestPackage, $_ )` -/
def Scan.push (s : Scan) (line : Text) : Scan :=
  { s with testPackage := s.testPackage ++ [line] }

/-- One turn of the `while` over the file. -/
def scanLine (tenantId : Option Text) (s : Scan) (line : Text) : Except Die Scan := do
  let (s, line) ← testspecificationStep tenantId s line
  let (s, line) := identifierStep s line
  let (s, line) ← propertyStep s line
  let (s, line) ← registrationStep s line
  let line := poolpropertyStep s line
  let line := registrationsegmentStep s line
  return s.push line

def scanFrom (tenantId : Option Text) (s : Scan) (lines : List Text) : Except Die Scan :=
  lines.foldlM (scanLine tenantId) s

/-- The whole loop. -/
def scan (tenantId : Option Text) (lines : List Text) : Except Die Scan :=
  scanFrom tenantId .initial lines

end Package
end TdsAdmin
