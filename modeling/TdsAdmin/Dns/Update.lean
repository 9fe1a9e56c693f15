import TdsAdmin.Dns.Zone
import TdsAdmin.Lib.Expand

/-!
# `update_route53_cname.sh` and `create_instance_update_route53_cname.sh`

An instance that starts makes its name an alias of the host name that EC2 has given it. The record
that is there already is read from an answer of `dig`, and one request deletes it and creates the
new one. The second script does the same for an instance that it is told.

The signature of the request and the name server that is asked are left out, apart from what
happens when there is none.
-/

set_option autoImplicit false

namespace TdsAdmin
namespace Dns

open Fields (awkFields cutField)

/-! ## What is there -/

/-- `$(...)` of some lines -/
def substituted (lines : List Text) : Text := (Text.unlines lines).rdropWhile (· == '\n')

/-- A host name as a pattern: a dot stands for any character. -/
def matchesHere : Text → Text → Bool
  | [], _ => true
  | _ :: _, [] => false
  | p :: ps, c :: cs => (p == '.' || p == c) && matchesHere ps cs

/-- `grep` for a host name -/
def grepHost (fqdn line : Text) : Bool := line.tails.any (matchesHere fqdn)

/-- `$(dig @$AuthServer CNAME $Desired_FQDN | grep -v ";" | grep "$Desired_FQDN")` -/
def recordOf (fqdn answer : Text) : Text :=
  substituted ((((Text.lines answer).map Text.chomp).filter fun line => !line.contains ';').filter
    (grepHost fqdn))

/-- `$( echo $Record | cut -d ' ' -f n )` -/
def part (matching : Text → List Text) (n : Nat) (record : Text) : Text :=
  cutField n ([' '].intercalate (Expand.unquoted matching record))

/-! ## The request -/

def preamble (fqdn : Text) : Text :=
  "<?xml version=\"1.0\" encoding=\"UTF-8\"?>".toList ++
  "<ChangeResourceRecordSetsRequest xmlns=\"https://route53.amazonaws.com/doc/2010-10-01/\">".toList
    ++
  ("<ChangeBatch><Comment>Update ".toList ++ fqdn ++ "</Comment><Changes>".toList)

/-- Both the `DELETE` and the `CREATE`. -/
def changeText (action fqdn ttl value : Text) : Text :=
  "<Change>".toList ++
  ("<Action>".toList ++ action ++ "</Action>".toList) ++
  "<ResourceRecordSet>".toList ++
  ("<Name>".toList ++ fqdn ++ ".</Name>".toList) ++
  "<Type>CNAME</Type>".toList ++
  ("<TTL>".toList ++ ttl ++ "</TTL>".toList) ++
  "<ResourceRecords>".toList ++
  "<ResourceRecord>".toList ++
  ("<Value>".toList ++ value ++ "</Value>".toList) ++
  "</ResourceRecord>".toList ++
  "</ResourceRecords>".toList ++
  "</ResourceRecordSet>".toList ++
  "</Change>".toList

def closing : Text :=
  "</Changes>".toList ++
  "</ChangeBatch>".toList ++
  "</ChangeResourceRecordSetsRequest>".toList

def newTTL : Text := "600".toList

/-! ## The scripts -/

inductive Update where
  /-- The domain has no name server at Route 53. -/
  | noServer
  /-- The name has another record. -/
  | notCname (oldType : Text)
  /-- The alias is there already. -/
  | unchanged
  | posted (changeset : Text)
  deriving DecidableEq

section Scripts

variable (matching : Text → List Text)

/-- What both scripts do with the two names. -/
def updateCname (authServer answer fqdn ec2Name : Text) : Update :=
  if authServer = [] then .noServer
  else
    let record := recordOf fqdn answer
    let oldType := part matching 4 record
    let oldTTL := part matching 2 record
    let oldName := (part matching 5 record).dropLast
    if record ≠ [] ∧ oldType ≠ "CNAME".toList then .notCname oldType
    else
      let deletion := if oldName ≠ [] then changeText "DELETE".toList fqdn oldTTL oldName else []
      if oldName ≠ ec2Name then
        .posted (preamble fqdn ++ deletion ++ changeText "CREATE".toList fqdn newTTL ec2Name ++
          closing)
      else .unchanged

/-- What the scripts ask. -/
structure Answers where
  authServer : Text
  /-- The host name of the instance the script runs on. -/
  publicHostname : Text
  /-- `aws ec2 describe-instances --filter "Name=dns-name,Values=$EC2_Name"` -/
  describe : Text → Text
  /-- `dig CNAME $Desired_FQDN` -/
  dig : Text → Text

/-- `grep -P '^TAGS\tName' | awk '{print $3}'` -/
def nameTag (described : Text) : Text :=
  substituted ((((Text.lines described).map Text.chomp).filter
    fun line => "TAGS\tName".toList.isPrefixOf line).map fun line => (awkFields line).getD 2 [])

def updateRoute53Cname (a : Answers) : Update :=
  let fqdn := nameTag (a.describe a.publicHostname)
  updateCname matching a.authServer (a.dig fqdn) fqdn a.publicHostname

/-- `$1` and `$2` are empty when they are not given. -/
def createInstanceUpdateRoute53Cname (a : Answers) (ec2Name fqdn : Text) : Update :=
  let ec2Name := if ec2Name = [] then a.publicHostname else ec2Name
  let fqdn := if fqdn = [] then nameTag (a.describe ec2Name) else fqdn
  updateCname matching a.authServer (a.dig fqdn) fqdn ec2Name

end Scripts

/-- What becomes of a zone when a script has come to this. -/
def Route53.receive (s : Route53) (z : Zone) : Update → Zone
  | .posted changeset => ((readRequest changeset).map (s.submit z)).getD z
  | _ => z

end Dns
end TdsAdmin
