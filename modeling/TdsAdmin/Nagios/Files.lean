import TdsAdmin.Lib.Expand

/-!
# `create_nagios_files.sh`

The script writes two files for Nagios: a host definition for every running server, commented out
if the server has no NRPE port, and five host groups, one with all the servers that have it and one
for each of four ports. It goes through the list of servers once and then, for each group, through
those with NRPE.

Every variable is expanded without quotes, the address among them; `printf` starts again with its
format when a lookup has given it more words than it takes. What a port scan finds is a parameter,
and so is what `dig` answers, which may differ from call to call.
-/

set_option autoImplicit false

namespace TdsAdmin
namespace Nagios

open Expand (unquoted)

/-! ## Lists of words -/

/-- `$(echo $list)`, as far as the words of it are concerned. -/
def echo (words : List Text) : Text := [' '].intercalate words

/-- `for server in $(echo $list)` -/
def forWords (matching : Text → List Text) (list : Text) : List Text :=
  unquoted matching (echo (unquoted matching list))

/-- `sed -e 's/^ //' -e 's/ /,/g'` -/
def commas (line : Text) : Text :=
  (if line.head? = some ' ' then line.tail else line).map fun c => if c = ' ' then ',' else c

/-- `$(echo $list|sed -e 's/^ //' -e 's/ /,/g')` -/
def joined (matching : Text → List Text) (list : Text) : Text :=
  commas (echo (unquoted matching list))

/-! ## `hosts.cfg` -/

/-- The lines of the template. -/
def templateLines : List Text :=
  ["## Default Linux Host Template ##".toList, [], "define host\x7b".toList,
    "name                            linux-box               ; Name of this template".toList,
    "use                             generic-host,host-pnp   ; Inherit default values".toList,
    "check_period                    24x7        ".toList,
    "check_interval                  5       ".toList,
    "retry_interval                  1       ".toList,
    "max_check_attempts              10      ".toList,
    "check_command                   check-host-alive".toList,
    "notification_period             24x7    ".toList,
    "notification_interval           1500      ".toList,
    "notification_options            d,r     ".toList,
    "contact_groups                  admins  ".toList,
    "register                        0                       ; DONT REGISTER THIS".toList ++
      " - ITS A TEMPLATE".toList, "\x7d".toList, []]

def useLine : Text :=
  "\tuse             linux-box".toList ++
    "               ; Inherit default values from a template".toList

/-- A host definition, every line with the same mark in front. -/
def hostFormat (mark : Text) : Expand.Format :=
  [.text (mark ++ ("define host\x7b".toList ++ '\n' :: (mark ++ (useLine ++ '\n' ::
      (mark ++ "\thost_name\t".toList))))),
    .arg,
    .text ('\n' :: (mark ++ "\taddress\t\t".toList)),
    .arg,
    .text ('\n' :: (mark ++ ['\x7d', '\n']))]

def activeFormat : Expand.Format := hostFormat []

def commentedFormat : Expand.Format := hostFormat ['#']

/-- `$(dig $server|grep ^ec2|awk '{print $5}')` -/
def addressOf (answer : Text) : Text :=
  (Text.unlines ((((Text.lines answer).map Text.chomp).filter
    fun line => "ec2".toList.isPrefixOf line).map fun line =>
      (Fields.awkFields line).getD 4 [])).rdropWhile (· == '\n')

/-- `nmap` and `grep`: the port is open. -/
abbrev Scan := Text → Nat → Bool

def nrpe : Nat := 5666

/-- The variables of the first loop and the file it writes. -/
structure Hosts where
  file : Text
  nagios_servers : Text
  calls : Nat

def hostStep (matching : Text → List Text) (isOpen : Scan) (dig : Nat → Text → Text) (s : Hosts)
    (server : Text) : Hosts :=
  let args := unquoted matching server ++ unquoted matching (addressOf (dig s.calls server))
  if isOpen server nrpe then
    { file := s.file ++ Expand.printf activeFormat args
      nagios_servers := s.nagios_servers ++ ' ' :: server
      calls := s.calls + 1 }
  else
    { s with file := s.file ++ Expand.printf commentedFormat args, calls := s.calls + 1 }

/-! ## `hostgroups.cfg` -/

/-- A host group: its name, what stands between `members` and them, its long name, and what stands
in front of the brace. -/
def groupFormat (name gap long_name close : Text) : Expand.Format :=
  [.text ("define hostgroup\x7b".toList ++ '\n' :: ("\thostgroup_name\t".toList ++ (name ++
      ("\t; The name of the hostgroup".toList ++ '\n' :: ("\tmembers".toList ++ gap))))),
    .arg,
    .text ('\n' :: ("\talias\t\t".toList ++ (long_name ++
      ("\t; Long name of the group".toList ++ '\n' :: (close ++ ['\x7d', '\n'])))))]

def allFormat : Expand.Format :=
  groupFormat "all-servers".toList " ".toList "All Servers".toList []

def tomcatFormat : Expand.Format :=
  groupFormat "tomcat-servers".toList "\t\t".toList "Tomcat Servers".toList ['\t']

def mongoFormat : Expand.Format :=
  groupFormat "mongo-servers".toList "\t\t".toList "Mongo Servers".toList ['\t']

def mysqlFormat : Expand.Format :=
  groupFormat "mysql-servers".toList "\t\t".toList "Mysql Servers".toList ['\t']

def apacheFormat : Expand.Format :=
  groupFormat "apache-servers".toList "\t\t".toList "Apache Servers".toList ['\t']

/-- The loop for one of the four ports. -/
def portServers (matching : Text → List Text) (isOpen : Scan) (port : Nat)
    (nagios_servers : Text) : Text :=
  (forWords matching nagios_servers).foldl
    (fun list server => if isOpen server port then list ++ ' ' :: server else list) []

/-! ## The script -/

structure Files where
  hosts : Text
  hostgroups : Text

/-- The files after a run. `server_list` is what `list_running_instances_by_name` prints. -/
def createNagiosFiles (matching : Text → List Text) (isOpen : Scan) (dig : Nat → Text → Text)
    (server_list : Text) : Files :=
  let s := (forWords matching server_list).foldl (hostStep matching isOpen dig)
    ⟨Text.unlines templateLines, [], 0⟩
  let group (fmt : Expand.Format) (list : Text) : Text :=
    Expand.printf fmt (unquoted matching (joined matching list))
  let onPort (port : Nat) : Text := portServers matching isOpen port s.nagios_servers
  { hosts := s.file
    hostgroups := group allFormat s.nagios_servers ++ group tomcatFormat (onPort 8080) ++
      group mongoFormat (onPort 28017) ++ group mysqlFormat (onPort 3306) ++
      group apacheFormat (onPort 80) }

/-! ## What Nagios reads -/

/-- A line without the mark of a comment, and whether it had none. -/
def uncomment : Text → Bool × Text
  | [] => (true, [])
  | c :: line => if c = '#' then (false, line) else (true, c :: line)

/-- The definition a line is in, active or not, its host name, and the definitions that have
ended: whether they are active, and the name. -/
structure Reader where
  block : Option Bool
  name : Option Text
  found : List (Bool × Text)
  deriving DecidableEq

def Reader.step (s : Reader) (body : Bool × Text) : Reader :=
  if body.2 = "define host\x7b".toList then { s with block := some body.1, name := none }
  else if body.2 = "\x7d".toList then
    match s.block, s.name with
    | some active, some name =>
        { block := none, name := none, found := s.found ++ [(active, name)] }
    | _, _ => { s with block := none, name := none }
  else if "\thost_name\t".toList <+: body.2 ∧ s.block = some body.1 then
    { s with name := some (body.2.drop 11) }
  else s

def Reader.read (s : Reader) (line : Text) : Reader := s.step (uncomment (Text.chomp line))

/-- The host definitions of a file. One without a host name is a template. -/
def definitions (file : Text) : List (Bool × Text) :=
  ((Text.lines file).foldl Reader.read ⟨none, none, []⟩).found

/-- The members of a line of `hostgroups.cfg`, if it lists some. -/
def membersOf (line : Text) : Option (List Text) :=
  if "\tmembers".toList <+: line then
    some ((((line.drop 8).dropWhile fun c => c == ' ' || c == '\t').splitOn ',').filter
      (!·.isEmpty))
  else none

/-- The groups of a file, each with its members. -/
def groups (file : Text) : List (List Text) :=
  ((Text.lines file).map Text.chomp).filterMap membersOf

/-! ## The input -/

def isHostChar (c : Char) : Bool := c.isAlphanum || c == '.' || c == '-' || c == '_' || c == ':'

/-- The name or the address of a host. -/
structure Host where
  text : Text
  isHost : text ≠ [] ∧ text.all isHostChar = true ∧ text.head? ≠ some '-'
  deriving DecidableEq

/-- What `list_running_instances_by_name` prints. -/
def serverList (servers : List Host) : Text := Text.unlines (servers.map Host.text)

/-- A line of an answer of `dig`: one that is for an address of an instance, or another one. -/
inductive Answer
  | record (owner ttl kind type : Fields.Token) (address : Host)
      (isEc2 : "ec2".toList <+: owner.text)
  | other (line : Text) (isOther : '\n' ∉ line ∧ ¬ "ec2".toList <+: line)

def Answer.line : Answer → Text
  | .record owner ttl kind type address _ =>
      ['\t'].intercalate [owner.text, ttl.text, kind.text, type.text, address.text]
  | .other line _ => line

def answerText (answers : List Answer) : Text := Text.unlines (answers.map Answer.line)

/-- The addresses in an answer. -/
def addresses (answers : List Answer) : List Host :=
  answers.filterMap fun
    | .record _ _ _ _ address _ => some address
    | .other _ _ => none

end Nagios
end TdsAdmin
