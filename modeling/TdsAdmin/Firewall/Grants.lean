import Mathlib.Data.List.Lex
import Mathlib.Data.Char
import TdsAdmin.Firewall.Audit
import TdsAdmin.Lib.Loop
import TdsAdmin.Lib.Pattern

/-!
# `verify_firewalls.pl`: what is granted, and how it is compared

`read_security_groups` reads the listing of the security groups a line at a time and fills
`%security_group`. The server, the port and the source that it last read are kept from line to
line, and from one server's listing to the next. An undefined one is an empty text, which is what
Perl makes of it as a key of a hash.

`compare_firewall_and_security_groups` goes through `%ports_open` and deletes from
`%security_group` what it finds there; what is left is the second section of its report.
-/

set_option autoImplicit false

namespace TdsAdmin
namespace Firewall
namespace Audit

def EXTERNAL : Text := "ext".toList

/-- A key of `%security_group`: `{server}{source}{port}`. -/
structure Grant where
  server : Text
  source : Text
  port : Text
  deriving DecidableEq, Repr

/-! ## Reading the listing -/

/-- The variables of `read_security_groups`. -/
structure Reading where
  currentServer : Text
  currentPort : Text
  currentRemoteServer : Text
  currentIpRange : Text
  securityGroup : List Grant
  /-- What was printed about ports without a protocol: the port, the server and the line. -/
  undefinedPorts : List (Text × Text × Text)

def Reading.empty : Reading := ⟨[], [], [], [], [], []⟩

/-- `/^0.0.0.0/`, in which a dot is any character. -/
def fromAnywhere : Text → Bool
  | '0' :: _ :: '0' :: _ :: '0' :: _ :: '0' :: _ => true
  | _ => false

/-- The grant of the three current values. -/
def Reading.grant (r : Reading) : Grant := ⟨r.currentServer, r.currentRemoteServer, r.currentPort⟩

/-- The four tests that a line goes through, one after the other. -/
def securityGroupsLine (elements : List Text) (r : Reading) : Reading :=
  if Text.has "SECURITYGROUPS".toList (elements.getD 0 []) then
    { r with currentServer := elements.getD 1 [] }
  else r

def ipPermissionsLine (protocolNumber : List (Text × Text)) (line : Text) (elements : List Text)
    (r : Reading) : Reading :=
  if Text.has "IPPERMISSIONS".toList (elements.getD 0 []) then
    let port := elements.getD 1 []
    { r with
      currentPort := port
      undefinedPorts :=
        if (protocolNumber.lookup port).isSome then r.undefinedPorts
        else r.undefinedPorts ++ [(port, r.currentServer, line)] }
  else r

def userIdGroupPairsLine (elements : List Text) (r : Reading) : Reading :=
  if Text.has "USERIDGROUPPAIRS".toList (elements.getD 0 []) then
    let r := { r with currentRemoteServer := elements.getD 2 [] }
    { r with securityGroup := r.securityGroup ++ [r.grant] }
  else r

/-- The range, or the name that stands for everyone. -/
def rangeName (env : Text) (range : Text) : Text :=
  if fromAnywhere range then hostName env EXTERNAL else range

def ipRangesLine (env : Text) (elements : List Text) (r : Reading) : Reading :=
  if Text.has "IPRANGES".toList (elements.getD 0 []) then
    let r := { r with currentIpRange := rangeName env (elements.getD 1 []) }
    { r with securityGroup := r.securityGroup ++ [r.grant] }
  else r

def readGroupLine (env : Text) (protocolNumber : List (Text × Text)) (r : Reading) (line : Text) :
    Reading :=
  let elements := Fields.splitRuns Pattern.isSpace line
  ipRangesLine env elements (userIdGroupPairsLine elements
    (ipPermissionsLine protocolNumber line elements (securityGroupsLine elements r)))

/-- The servers that the table opens a port on, each asked for once. -/
def serversOf (portsOpen : List Opened) : List Text := Loop.sortKeys (portsOpen.map Opened.server)

/-- `describe` is what `aws ec2 describe-security-groups` prints for a server. -/
def readSecurityGroups (env : Text) (rules : Rules) (describe : Text → Text) : Reading :=
  (serversOf rules.portsOpen).foldl
    (fun r server => (Fields.split '\n' (describe server)).foldl
      (readGroupLine env rules.protocolNumber) r) Reading.empty

/-! ## The comparison -/

/-- The port of a protocol as the hash gives it. A protocol without one has the empty text, which
is the number of no port. -/
def portNumber (protocolName : List (Text × Text)) (protocol : Text) : Text :=
  (protocolName.lookup protocol).getD []

/-- `$security_group{$server}{$incoming_server}{$protocol_name{$port}}` -/
def asked (protocolName : List (Text × Text)) (server source protocol : Text) : Grant :=
  ⟨server, source, portNumber protocolName protocol⟩

/-- The grant that an entry of the table asks for. -/
def Opened.grant (protocolName : List (Text × Text)) (o : Opened) : Grant :=
  asked protocolName o.server o.source o.protocol

/-- A line of the first section: the entry that the loops are at, and the name that is printed for
its source. -/
structure Missing where
  entry : Opened
  incomingServer : Text
  deriving DecidableEq, Repr

/-- `$incoming_server = "EXTERNAL" if ($incoming_server =~ /^ext\./)` -/
def shownAs (incomingServer : Text) : Text :=
  if "ext.".toList <+: incomingServer then "EXTERNAL".toList else incomingServer

/-- The body of the innermost loop. The name it looks the source up under is the loop variable
of the loop around it, which it changes. -/
def comparePort (protocolName : List (Text × Text)) (server source : Text)
    (s : Text × List Grant) (port : Text) : List Missing × (Text × List Grant) :=
  if asked protocolName server s.1 port ∈ s.2 then
    ([], s.1, s.2.filter (· ≠ asked protocolName server s.1 port))
  else ([⟨⟨server, source, port⟩, shownAs s.1⟩], shownAs s.1, s.2)

/-- The sources of a server. -/
def sourcesOf (portsOpen : List Opened) (server : Text) : List Text :=
  Loop.sortKeys ((portsOpen.filter (·.server = server)).map Opened.source)

/-- The protocols of a server and a source. -/
def protocolsOf (portsOpen : List Opened) (server source : Text) : List Text :=
  Loop.sortKeys
    ((portsOpen.filter fun o => o.server = server ∧ o.source = source).map Opened.protocol)

def compareSource (protocolName : List (Text × Text)) (portsOpen : List Opened) (server : Text)
    (securityGroup : List Grant) (source : Text) : List Missing × List Grant :=
  let r := Loop.each (comparePort protocolName server source) (source, securityGroup)
    (protocolsOf portsOpen server source)
  (r.1, r.2.2)

/-- The two sections of the report: what is not granted, and the grants that are left. -/
def compareFirewallAndSecurityGroups (protocolName : List (Text × Text)) (portsOpen : List Opened)
    (securityGroup : List Grant) : List Missing × List Grant :=
  Loop.each (fun securityGroup server => Loop.each (compareSource protocolName portsOpen server)
    securityGroup (sourcesOf portsOpen server)) securityGroup (serversOf portsOpen)

end Audit
end Firewall
end TdsAdmin
