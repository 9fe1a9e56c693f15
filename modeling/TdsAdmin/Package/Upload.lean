import TdsAdmin.Lib.Base64
import TdsAdmin.Lib.Json
import TdsAdmin.Package.Scan

/-!
# From the scanned lines to the insert command

The second half of `ProcessXmlFile`: the transformed lines are compressed and encoded a line at
a time, the result goes into `%Data` with what the scanner found, and `%Data` is turned into
JSON, quoted by hand and pasted into a `curl` command.

Compression is `Compress::Zlib`, which is not part of the repository. It is a parameter here: a
`Deflater` is any state machine that answers each call with some bytes, or with a status other
than `Z_OK`. What the service answers is a parameter as well, since `from_json` dies on an
answer that is not JSON.
-/

set_option autoImplicit false

namespace TdsAdmin
namespace Package

/-! ## Compressing and encoding the package -/

/-- A deflation stream; `none` is a status other than `Z_OK`. -/
structure Deflater (σ : Type) where
  /-- `deflateInit()` -/
  init : Option σ
  /-- `deflate( $_ )` -/
  deflate : σ → Text → Option (List UInt8 × σ)
  /-- `flush()` -/
  flush : σ → Option (List UInt8)

/-- `encode_base64` ends every line of 76 letters, and the last one, with a newline. The number
counts the letters of the current line. -/
def wrapLines : Nat → Text → Text
  | k, [] => if k = 0 then [] else ['\n']
  | k, c :: s => if k = 75 then c :: '\n' :: wrapLines 0 s else c :: wrapLines (k + 1) s

def encodeBase64 (deflated : List UInt8) : Text := wrapLines 0 (Base64.encode deflated)

/-- `s/[\n\r]//g` -/
def stripLineEnds (s : Text) : Text := s.filter fun c => c != '\n' && c != '\r'

variable {σ : Type}

/-- The `foreach( @TestPackage )`, with `$EncodedTestPackage` as it grows. -/
def deflateLines (z : Deflater σ) : σ → Text → List Text → Except Die (Text × σ)
  | stream, encodedTestPackage, [] => .ok (encodedTestPackage, stream)
  | stream, encodedTestPackage, line :: lines =>
      match z.deflate stream line with
      | none => .error .deflationFailed
      | some (deflated, stream) =>
          deflateLines z stream (encodedTestPackage ++ encodeBase64 deflated) lines

def encodeTestPackage (z : Deflater σ) (testPackage : List Text) : Except Die Text :=
  match z.init with
  | none => .error .noDeflationStream
  | some stream => do
      let (encodedTestPackage, stream) ← deflateLines z stream [] testPackage
      match z.flush stream with
      | none => throw .deflationFailed
      | some deflated => return stripLineEnds (encodedTestPackage ++ encodeBase64 deflated)

/-! ## `%Data` -/

structure Data where
  specificationXml : Text
  tenantId : Option Text
  itemBank : Option Text
  category : Text
  subjectName : Option Text
  subjectAbbreviation : Option Text
  name : Option Text
  grade : List Text
  label : Option Text
  purpose : Text
  type : Option Text
  version : Option Text
  deriving DecidableEq, Repr

/-- What one run of the script knows before it looks at a file. -/
structure Session where
  tenantId : Option Text
  itemBankParam : Option Text
  executeParam : Bool
  testSpecBankUri : Text
  testSpecBankAccessToken : Option Text
  /-- What `from_json` reports on the service's answer; `none` when it is JSON. -/
  answer : Data → Option Text

def buildData (e : Session) (s : Scan) (encodedTestPackage : Text) : Data where
  specificationXml := encodedTestPackage
  tenantId := e.tenantId
  itemBank := e.itemBankParam
  category := []
  subjectName := s.testSubjectName
  subjectAbbreviation := s.testSubjectAbbreviation
  name := s.uniqueId
  grade := s.testGrades
  label := s.testLabel
  purpose := "REGISTRATION".toList
  type := s.testType
  version := s.testVersion

/-- The members of `%Data`. A Perl hash has no order of its own: see `toJson`. -/
def Data.members (d : Data) : List (Text × Json.Value) :=
  [("specificationXml".toList, .string d.specificationXml),
   ("tenantId".toList, Json.ofScalar d.tenantId),
   ("itemBank".toList, Json.ofScalar d.itemBank),
   ("category".toList, .string d.category),
   ("subjectName".toList, Json.ofScalar d.subjectName),
   ("subjectAbbreviation".toList, Json.ofScalar d.subjectAbbreviation),
   ("name".toList, Json.ofScalar d.name),
   ("grade".toList, .strings d.grade),
   ("label".toList, Json.ofScalar d.label),
   ("purpose".toList, .string d.purpose),
   ("type".toList, Json.ofScalar d.type),
   ("version".toList, Json.ofScalar d.version)]

/-- An order in which the hash may be walked. -/
abbrev Data.Order (d : Data) :=
  { members : List (Text × Json.Value) // members.Perm d.members }

/-- `to_json( \%Data )` -/
def toJson (d : Data) (order : d.Order) : Text := Json.object order.1

/-! ## The command -/

/-- `s/\\n/\n/g`: every backslash followed by an `n` becomes a newline. -/
def unescapeNewlines : Text → Text
  | [] => []
  | '\\' :: 'n' :: s => '\n' :: unescapeNewlines s
  | c :: s => c :: unescapeNewlines s

/-- `s/\"/\\\"/g`: a backslash in front of every quote. -/
def escapeQuotes (s : Text) : Text := s.flatMap fun c => if c = '"' then ['\\', '"'] else [c]

/-- `$TestJsonBody`, with the quotes around it. -/
def testJsonBody (json : Text) : Text :=
  '"' :: (escapeQuotes (unescapeNewlines json) ++ ['"'])

def testSpecBankUrl (e : Session) : Text := e.testSpecBankUri ++ "/rest/testSpecification".toList

def testSpecBankParams (e : Session) : Text :=
  "Authorization: Bearer ".toList ++ interpolate e.testSpecBankAccessToken

/-- The command up to the body. -/
def insertWords : List Text :=
  ["curl".toList, "-s".toList, "--insecure".toList, "-3".toList, "-X".toList, "POST".toList,
    "--data".toList]

/-- The command after the body. -/
def insertRest (e : Session) : Text :=
  ' ' :: (testSpecBankUrl e ++ " --header \"".toList ++ testSpecBankParams e ++
    "\" --header \"Accept: application/json\"".toList ++
    " --header \"Content-Type: application/json\"".toList)

def insertTestUrl (e : Session) (json : Text) : Text :=
  "curl -s --insecure -3 -X POST --data ".toList ++ testJsonBody json ++ insertRest e

/-! ## One file -/

/-- `lc( $FilePath ) =~ /.xml/` -/
def isXmlPath (filePath : Text) : Bool :=
  Pattern.test (.one (· != '\n') :: Pattern.lit "xml".toList) (Text.lower filePath)

/-- What the script did with a file: the record it sent, if it ran the insert command, and how
it died, if it did. -/
structure Outcome where
  sent : Option Data
  died : Option Die

/-- Reading the file, scanning it and building `%Data`. -/
def prepare (e : Session) (z : Deflater σ) (filePath : Text) (file : Option Text) :
    Except Die Data :=
  match file with
  | none => .error (.cannotOpen filePath)
  | some content => do
      let s ← scan e.tenantId (Text.lines content)
      let encodedTestPackage ← encodeTestPackage z s.testPackage
      return buildData e s encodedTestPackage

/-- `ProcessXmlFile`; `file` is the content of the file, or `none` when it cannot be opened. -/
def processXmlFile (e : Session) (z : Deflater σ) (filePath : Text) (file : Option Text) :
    Outcome :=
  if isXmlPath filePath then
    match prepare e z filePath file with
    | .error death => ⟨none, some death⟩
    | .ok data =>
        if e.executeParam then ⟨some data, (e.answer data).map .badResponse⟩ else ⟨none, none⟩
  else ⟨none, none⟩

end Package
end TdsAdmin
