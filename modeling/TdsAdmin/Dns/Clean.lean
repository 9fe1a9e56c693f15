import TdsAdmin.Dns.Zone
import TdsAdmin.Lib.Expand

/-!
# `clean_route53.sh`

The script lists the record sets of the zone, asks EC2 for each name of an instance among them
whether there is such an instance, and has the records without one deleted. The listing has a line
for the name of a record and a line below it for its value; a pipeline puts the two together and
cuts the name, the lifetime and the value out.

What EC2 answers is up to EC2: an `Outcome` is what a call of `aws` comes to, and `describe` gives
one for each call, which may differ from call to call for the same name.
-/

set_option autoImplicit false

namespace TdsAdmin
namespace Dns

open Fields (isIfs awkFields readFields)

/-! ## The records -/

/-- `s/CNAME\t*\n/CNAME /`: a line that ends so gets the next one behind it. -/
def joinCname (line : Text) : Text :=
  let body := (Text.chomp line).rdropWhile (· == '\t')
  if line.getLast? = some '\n' ∧ "CNAME".toList <:+ body then body ++ [' '] else line

/-- `awk '{print $2,$3,$6}'` -/
def awkPrint (line : Text) : Text :=
  let fields := awkFields line
  fields.getD 1 [] ++ ' ' :: (fields.getD 2 [] ++ ' ' :: fields.getD 5 [])

/-- `$pairs`, line by line. -/
def pairs (listing : Text) : List Text :=
  let joined := ((Text.lines listing).map joinCname).flatten
  ((((Text.lines joined).map Text.chomp).filter (Text.has "CNAME RESOURCERECORDS".toList)).map
    awkPrint).filter (Text.has "ec2-".toList)

/-! ## The loop -/

/-- What a call of `aws` comes to. Its exit status is lost in the pipe. -/
structure Outcome where
  succeeded : Bool
  output : Text

/-- `grep -q ^INSTANCES` -/
def Outcome.reportsInstance (o : Outcome) : Bool :=
  (Text.lines o.output).any fun line => "INSTANCES".toList.isPrefixOf line

/-- A `DELETE` that is written to the file. -/
structure Removal where
  aliasName : Text
  ttl : Text
  hostname : Text

/-- The format of `printf` for it. -/
def deleteFormat : Expand.Format :=
  [.text ("\t\x7b\n".toList ++ "\t\t\"Action\": \"DELETE\",\n".toList ++
      "\t\t\"ResourceRecordSet\": \x7b\n".toList ++ "\t\t\t\"Name\": \"".toList),
    .arg,
    .text ("\",\n".toList ++ "\t\t\t\"Type\": \"CNAME\",\n".toList ++ "\t\t\t\"TTL\": ".toList),
    .arg,
    .text (",\n".toList ++ "\t\t\t\"ResourceRecords\": [\n".toList ++ "\t\t\t\x7b\n".toList ++
      "\t\t\t\t\"Value\": \"".toList),
    .arg,
    .text ("\"\n".toList ++ "\t\t\t\x7d\n".toList ++ "\t\t]\n".toList ++ "\t\t\x7d\n".toList ++
      "\t\x7d".toList)]

/-- The three variables are not quoted. -/
def Removal.text (matching : Text → List Text) (r : Removal) : Text :=
  Expand.printf deleteFormat (Expand.unquoted matching r.aliasName ++
    Expand.unquoted matching r.ttl ++ Expand.unquoted matching r.hostname)

/-- The variables of the loop and the file it writes. -/
structure Cleaning where
  delete : Bool
  file : Text
  calls : Nat

def Cleaning.start : Cleaning := ⟨false, "\x7b\n\t\"Changes\": [\n".toList, 0⟩

/-- What the file holds at the end. -/
def Cleaning.batch (s : Cleaning) : Text := s.file ++ "\n\t]\n \x7d\n".toList

section Loop

variable (matching : Text → List Text)

/-- The body of the loop from the call on. -/
def cleanRecord (describe : Nat → Text → Outcome) (s : Cleaning) (r : Removal) : Cleaning :=
  let outcome := describe s.calls r.hostname
  if outcome.reportsInstance then { s with calls := s.calls + 1 }
  else
    { delete := true
      file := s.file ++ (if s.delete then ",\n".toList else []) ++ r.text matching
      calls := s.calls + 1 }

/-- `${alias::-1}` of an empty name is an error, and the shell leaves the loop. -/
def cleanLoop (describe : Nat → Text → Outcome) : Cleaning → List Text → Cleaning
  | s, [] => s
  | s, line :: rest =>
      let fields := readFields 3 line
      let aliasName := fields.getD 0 []
      if aliasName = [] then s
      else cleanLoop describe
        (cleanRecord matching describe s
          ⟨aliasName.dropLast, fields.getD 1 [], fields.getD 2 []⟩) rest

/-- Without any pairs the loop still gets one line, an empty one. -/
def loopLines (pairs : List Text) : List Text := if pairs = [] then [[]] else pairs

/-- The loop over the lines of `$pairs`. -/
def cleanPairs (describe : Nat → Text → Outcome) (pairs : List Text) : Cleaning :=
  cleanLoop matching describe Cleaning.start (loopLines pairs)

/-- The batch that is submitted, if one is. -/
def cleanRoute53 (describe : Nat → Text → Outcome) (listing : Text) : Option Text :=
  let s := cleanPairs matching describe (pairs listing)
  if s.delete then some s.batch else none

end Loop

/-! ## The listing -/

/-- A `CNAME` record as it is listed: its name ends in a dot, its lifetime is a number. -/
structure Record where
  name : Fields.Token
  ttl : Fields.Token
  target : Fields.Token
  name_dot : name.text.getLast? = some '.'
  ttl_digits : ttl.text.all Text.isDigit = true

def isOctal (c : Char) : Bool := '0' ≤ c && c ≤ '7'

/-- A character that is no `isNameChar` is printed as a backslash and three octal digits. -/
def isEscaped : Text → Bool
  | '\\' :: a :: b :: c :: s => isOctal a && isOctal b && isOctal c && isEscaped s
  | c :: s => isNameChar c && isEscaped s
  | [] => true

/-- A `CNAME` record of the zone, in the form in which Route 53 returns names and numbers. -/
structure ListedRecord extends Record where
  name_form : isEscaped name.text = true ∧ name.text ≠ ['.']
  ttl_form : ttl.text.head? = some '0' → ttl.text = ['0']
  target_form : isEscaped target.text = true

/-- A line of another record set, which the pipeline has nothing to do with. -/
def OtherLine (line : Text) : Prop :=
  '\n' ∉ line ∧ ¬ "CNAME".toList <:+ line.rdropWhile (· == '\t') ∧
    ¬ "CNAME RESOURCERECORDS".toList <:+: line

/-- What is in the zone: a `CNAME` record with a value, a `CNAME` that is an alias, whose second
line names what it is an alias of, and lines of other records. -/
inductive Listed
  | cname (record : ListedRecord)
  | aliased (name : Fields.Token) (target : Text)
      (isTarget : OtherLine target ∧ ¬ "RESOURCERECORDS".toList <+: target)
  | other (line : Text) (isOther : OtherLine line)

/-- The words of a line, with tabs between them. -/
def tabbed (fields : List Text) : Text := ['\t'].intercalate fields

def Record.nameLine (r : Record) : Text :=
  tabbed ["RESOURCERECORDSETS".toList, r.name.text, r.ttl.text, "CNAME".toList]

def Record.valueLine (r : Record) : Text := tabbed ["RESOURCERECORDS".toList, r.target.text]

def aliasLine (name : Fields.Token) : Text :=
  tabbed ["RESOURCERECORDSETS".toList, name.text, "CNAME".toList]

def Listed.lines : Listed → List Text
  | .cname record => [record.nameLine, record.valueLine]
  | .aliased name target _ => [aliasLine name, target]
  | .other line _ => [line]

/-- What `aws route53 list-resource-record-sets` prints. -/
def listingText (zone : List Listed) : Text := Text.unlines (zone.flatMap Listed.lines)

/-- The line of a record in `$pairs`. -/
def Record.pair (r : Record) : Text := r.name.text ++ ' ' :: (r.ttl.text ++ ' ' :: r.target.text)

/-- The `CNAME` records with a value. -/
def cnames (zone : List Listed) : List ListedRecord :=
  zone.filterMap fun
    | .cname record => some record
    | .aliased _ _ _ => none
    | .other _ _ => none

end Dns
end TdsAdmin
