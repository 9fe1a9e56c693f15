import TdsAdmin.Lib.Fields

/-!
# The scripts that open the ports

`create_instance.sh` and `update_firewalls.sh` read `firewalls.txt`, find the row of a role and
ask EC2 for an ingress rule for each of its cells. The second is a copy of the first that has
drifted: it cuts the file one line later, drops other lines, has no use for a role's address, and
runs under `set -u`, where a variable that is not set ends the script.

What a script asks for is a list, in order. Everything it does with the strings it does in the
shell, where an expansion without quotes is cut into words by the current `IFS`; `IFS` is
therefore part of the state. The one rule that `create_instance.sh` opens for the machine it runs
on is not read from the table and is left out, as is what it does before and after.
-/

set_option autoImplicit false

namespace TdsAdmin
namespace Firewall

open Fields (Word)

/-! ## Rules -/

/-- Who is let in: any address, or the group of that name. -/
inductive Source where
  | address
  | group (name : Text)
  deriving DecidableEq, Repr

/-- One `aws ec2 authorize-security-group-ingress`. -/
structure Request where
  group : Text
  protocol : Text
  /-- What `$port` holds; `none` when it is not set. -/
  port : Option Nat
  source : Source
  deriving DecidableEq, Repr

/-- The names in the `case` of `add_security_group_ingress`, the same in both scripts. -/
def ports : List (Text × Nat) :=
  [("MYSQL".toList, 3306), ("SSH".toList, 22), ("Mongo".toList, 27017), ("SMTP".toList, 25),
   ("SSMTP".toList, 10025), ("HTTP".toList, 80), ("HTTPS".toList, 443), ("SFTP".toList, 22),
   ("LDAP".toList, 1389), ("HTTP-ALT".toList, 8080), ("HTTPS-ALT".toList, 8443),
   ("HTTP1".toList, 8081)]

def portOf (protocol : Text) : Option Nat := ports.lookup protocol

/-- `case "$protocol"`: an unknown one leaves `$port` as it was. -/
def setPort (port : Option Nat) (protocol : Text) : Option Nat := (portOf protocol).or port

/-! ## Reading the table -/

/-- `tail -n +N | grep -v ^PREFIX` between backquotes, with `IFS` a newline: the lines from there
on, without those that start with the prefix and without the empty ones. -/
def firewallLines (skipped : Nat) (dropped : Text) (file : Text) : List Text :=
  (((Text.lines file).drop skipped).map Text.chomp).filter
    fun l => !dropped.isPrefixOf l && !l.isEmpty

/-- The loop that looks for `$ec2_Role`: the last row whose first field it is. -/
def openPortsOf (ec2Role : Text) (firewall : List Text) : List Text :=
  firewall.foldl (fun openPorts t =>
    if ec2Role = (Fields.readArray ',' t).headD [] then Fields.readArray ',' t else openPorts) []

/-- What a script was given: the group of the machine, its environment, and the domain, which
`update_firewalls.sh` has of its own. -/
structure Settings where
  sgName : Word
  hostEnv : Word
  domain : Word

/-! ## `create_instance.sh` -/

namespace CreateInstance

/-- `echo $1 | awk '{ print $1 }'` -/
def firstField (s : Text) : Text :=
  (s.dropWhile fun c => c == ' ' || c == '\t' || c == '\n').takeWhile
    fun c => !(c == ' ' || c == '\t' || c == '\n')

/-- `add_security_group_ingress`, with the value of `$port` before and after. A group that does not
exist is created, so there is one to name in either case. -/
def addSecurityGroupIngress (port : Option Nat) (args : List Text) : Request × Option Nat :=
  let myGroup := firstField (args.getD 0 [])
  let protocol := args.getD 1 []
  let remoteServer := args.getD 2 []
  let port := setPort port protocol
  let source := if "ext.".toList <+: remoteServer then .address else .group remoteServer
  (⟨myGroup, protocol, port, source⟩, port)

/-- `${Servers[$i]}-${host_env}.$DOMAIN` -/
def remoteServer (s : Settings) (server : Text) : Text :=
  server ++ '-' :: (s.hostEnv.text ++ '.' :: s.domain.text)

/-- The loop over `open_ports`, with each rule that is asked for next to its cell. -/
def openPorts (s : Settings) (ifs : Char) (servers : List Text) :
    Option Nat → Nat → List Text → List (Text × Request)
  | _, _, [] => []
  | port, i, t :: rest =>
      if t = [] then openPorts s ifs servers port (i + 1) rest
      else match servers[i]? with
        | none => openPorts s ifs servers port (i + 1) rest
        | some server =>
            -- `${[$i]}` is no expansion, so the shell gives up the whole loop
            if '/' ∈ t then []
            else
              let (request, port) := addSecurityGroupIngress port
                (Fields.words ifs s.sgName.text ++ Fields.words ifs t ++
                  Fields.words ifs (remoteServer s server))
              (t, request) :: openPorts s ifs servers port (i + 1) rest

def firewall (file : Text) : List Text := firewallLines 5 ",,,".toList file

/-- The rules for a role. `IFS` is a newline since the table was read, or a tab when the group of
the machine was there already. -/
def rules (s : Settings) (groupFound : Bool) (ec2Role : Text) (file : Text) :
    List (Text × Request) :=
  openPorts s (if groupFound then '\t' else '\n')
    (Fields.readArray ',' ((firewall file).headD [])) none 2
    ((openPortsOf ec2Role (firewall file)).drop 2)

end CreateInstance

/-! ## `update_firewalls.sh` -/

namespace UpdateFirewalls

def DOMAIN : Text := "opentestsystem.org".toList

/-- `add_security_group_ingress`; `none` is the end of the script. Every branch uses `$port`, and
a rule is asked for only when the remote group exists. -/
def addSecurityGroupIngress (groupExists : Text → Bool) (port : Option Nat) :
    List Text → Option (List Request × Option Nat)
  | myGroup :: protocol :: remoteServer :: _ =>
      (setPort port protocol).map fun p =>
        if remoteServer = [] then ([⟨myGroup, protocol, some p, .address⟩], some p)
        else if groupExists remoteServer then
          ([⟨myGroup, protocol, some p, .group remoteServer⟩], some p)
        else ([], some p)
  | _ => none

/-- A row of calls, up to the one that ends the script. -/
def calls (groupExists : Text → Bool) : Option Nat → List (List Text) →
    List Request × Option (Option Nat)
  | port, [] => ([], some port)
  | port, args :: rest =>
      match addSecurityGroupIngress groupExists port args with
      | none => ([], none)
      | some (requests, port) =>
          let (more, port) := calls groupExists port rest
          (requests ++ more, port)

/-- `${Servers[$i]}.$host_env.$DOMAIN` -/
def remoteServer (s : Settings) (server : Text) : Text :=
  server ++ '.' :: (s.hostEnv.text ++ '.' :: DOMAIN)

/-- The loop over `open_ports`. A cell with a slash sets `IFS`, and it stays set. -/
def openPorts (groupExists : Text → Bool) (s : Settings) (servers : List Text) :
    Char → Option Nat → Nat → List Text → List (Text × Request)
  | _, _, _, [] => []
  | ifs, port, i, t :: rest =>
      if t = [] then openPorts groupExists s servers ifs port (i + 1) rest
      else match servers[i]? with
        | none => []
        | some server =>
            let ifs := if '/' ∈ t then '/' else ifs
            let protocols := if '/' ∈ t then Fields.words '/' t else [t]
            let (requests, port) := calls groupExists port (protocols.map fun j =>
              Fields.words ifs s.sgName.text ++ Fields.words ifs j ++
                Fields.words ifs (remoteServer s server))
            requests.map (Prod.mk t) ++ match port with
              | none => []
              | some port => openPorts groupExists s servers ifs port (i + 1) rest

def firewall (file : Text) : List Text := firewallLines 6 ",".toList file

/-- The rules for a role. The script prints the first four servers, and ends when there are fewer,
as it does when a row has no first field. -/
def rules (groupExists : Text → Bool) (s : Settings) (ec2Role : Text) (file : Text) :
    List (Text × Request) :=
  match firewall file with
  | [] => []
  | first :: _ =>
      let servers := Fields.readArray ',' first
      if servers.length < 4 then []
      else if (firewall file).any fun t => (Fields.readArray ',' t).isEmpty then []
      else
        openPorts groupExists s servers '\n' none 2 ((openPortsOf ec2Role (firewall file)).drop 2)

end UpdateFirewalls

end Firewall
end TdsAdmin
