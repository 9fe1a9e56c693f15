import TdsAdmin.Lib.Pattern

/-!
# `tsv2xml-sync-users.pl`

The script skips the first row of its input and writes a `User` element for every other one, with
the field in front of the first comma as its `UUID`. It never asks whether the pattern for that
field has matched. After a match that failed Perl leaves `$1` as it was or takes it back, according
to the block that the earlier match was in; `keeps` says which.

The file is written through `XML::Writer`, so what is modelled is the calls of the writer.
-/

set_option autoImplicit false

namespace TdsAdmin
namespace Users

/-! ## The script -/

/-- The calls of an `XML::Writer`. -/
inductive Call
  | raw (text : Text)
  | startTag (name : Text) (attributes : List (Text × Text))
  | characters (text : Text)
  | endTag (name : Text)
  deriving DecidableEq

/-- `[0-9a-f]` -/
def isHexDigit (c : Char) : Bool := c.isDigit || (decide ('a' ≤ c) && decide (c ≤ 'f'))

/-- `$1` of `/^([0-9a-f]*),/` -/
def capturedUuid (row : Text) : Option Text :=
  (Pattern.matchHere (.capture isHexDigit 0 :: Pattern.lit [',']) row).bind fun m => m.1.head?

/-- What is written for a row. -/
def userCalls (uuid : Text) : List Call :=
  [.raw "  ".toList, .startTag "User".toList [("Action".toList, "SYNC".toList)],
    .raw "\n".toList, .raw "    ".toList, .startTag "UUID".toList [], .characters uuid,
    .endTag "UUID".toList, .raw "\n".toList, .raw "  ".toList, .endTag "User".toList,
    .raw "\n".toList]

/-- The variables of the loop and what it has written. -/
structure Loop where
  first : Bool
  capture : Option Text
  calls : List Call

def readRow (keeps : Bool) (s : Loop) (line : Text) : Loop :=
  if s.first then { s with first := false }
  else
    let capture := (capturedUuid (Text.chomp line)).or (if keeps then s.capture else none)
    { s with capture := capture, calls := s.calls ++ userCalls (capture.getD []) }

/-- The calls of a run. `$XmlHeader` is never set. -/
def syncUsers (keeps : Bool) (file : Text) : List Call :=
  let s := (Text.lines file).foldl (readRow keeps) ⟨true, none, []⟩
  [.raw [], .startTag "Users".toList [], .raw "\n".toList] ++ s.calls ++
    [.endTag "Users".toList, .raw "\n".toList]

/-! ## What is in the written file -/

/-- A `User` element. -/
structure User where
  attributes : List (Text × Text)
  uuid : Text
  deriving DecidableEq

/-- A reader of the file: the attributes of the `User` element it is in, whether it is in a `UUID`,
the text there, and the elements that have ended. -/
structure Reader where
  attributes : Option (List (Text × Text))
  inUuid : Bool
  uuid : Text
  users : List User

def Reader.start : Reader := ⟨none, false, [], []⟩

def Reader.read (s : Reader) : Call → Reader
  | .raw _ => s
  | .startTag name attributes =>
      if name = "User".toList then { s with attributes := some attributes, uuid := [] }
      else { s with inUuid := s.inUuid || name == "UUID".toList }
  | .characters text => if s.inUuid then { s with uuid := s.uuid ++ text } else s
  | .endTag name =>
      if name = "User".toList then
        match s.attributes with
        | some attributes =>
            { s with attributes := none, users := s.users ++ [⟨attributes, s.uuid⟩] }
        | none => s
      else { s with inUuid := s.inUuid && name != "UUID".toList }

/-- The `User` elements, in the order of the file. -/
def emittedUsers (calls : List Call) : List User := (calls.foldl Reader.read Reader.start).users

/-! ## What should be there -/

/-- The rows below the header. -/
def dataRows (file : Text) : List Text := ((Text.lines file).drop 1).map Text.chomp

/-- The user of a row: its first field, if a comma ends it and it consists of hexadecimal digits, of
one at least. -/
def userOf (row : Text) : Option Text :=
  match row.splitOn ',' with
  | field :: _ :: _ => if field ≠ [] ∧ field.all isHexDigit = true then some field else none
  | _ => none

/-- The element for a user. -/
def syncElement (uuid : Text) : User := ⟨[("Action".toList, "SYNC".toList)], uuid⟩

end Users
end TdsAdmin
