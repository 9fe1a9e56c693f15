import TdsAdmin.Lib.Fields

/-!
# `verify_firewalls.pl`: what the table says

`read_firewall_rules` goes through `firewalls.txt` a line at a time and fills three hashes: the
ports that are to be open, by server, by source and by protocol, and the names and numbers of the
protocols. A hash is the list of what was put into it, the newest entry last for `%ports_open`,
whose keys are all that matters, and first for the other two, where the newest entry counts.
-/

set_option autoImplicit false

namespace TdsAdmin
namespace Firewall
namespace Audit

def DOMAIN : Text := "opentestsystem.org".toList

/-- A key of `%ports_open`: `{server}{source}{protocol}`. -/
structure Opened where
  server : Text
  source : Text
  protocol : Text
  deriving DecidableEq, Repr

/-- The variables of the file that `read_firewall_rules` sets. -/
structure Rules where
  inPrefix : Bool
  inProtocol : Bool
  prefixes : List Text
  portsOpen : List Opened
  protocolNumber : List (Text × Text)
  protocolName : List (Text × Text)

def Rules.empty : Rules := ⟨false, false, [], [], [], []⟩

/-- `s/$/.$env.$DOMAIN/` -/
def hostName (env : Text) (name : Text) : Text := name ++ '.' :: (env ++ '.' :: DOMAIN)

/-- The loop over the cells of a row, from the `i`th on. -/
def openCells (server : Text) (prefixes : List Text) : Nat → List Text → List Opened
  | _, [] => []
  | i, cell :: cells =>
      (if cell = [] then []
        else (Fields.split '/' cell).map fun protocol => ⟨server, prefixes.getD i [], protocol⟩) ++
      openCells server prefixes (i + 1) cells

/-- The name of the server in a row gets its domain; a row without a field gets one. -/
def qualifyServer (env : Text) : List Text → List Text
  | [] => [hostName env []]
  | server :: cells => hostName env server :: cells

/-- A row of the table. -/
def prefixRow (env : Text) (s : Rules) (rowElements : List Text) : Rules :=
  if s.inPrefix then
    { s with
      portsOpen := s.portsOpen ++ openCells ((qualifyServer env rowElements).headD []) s.prefixes 2
        ((qualifyServer env rowElements).drop 2) }
  else s

/-- A row of the section of the protocols. -/
def protocolRow (s : Rules) (rowElements : List Text) : Rules :=
  if s.inProtocol then
    { s with
      protocolNumber := (rowElements.getD 1 [], rowElements.getD 0 []) :: s.protocolNumber
      protocolName := (rowElements.getD 0 [], rowElements.getD 1 []) :: s.protocolName }
  else s

/-- One line of the file. -/
def readLine (env : Text) (s : Rules) (row : Text) : Rules :=
  if "ext".toList <+: row then s
  else if ",".toList <+: row then s
  else
    let row := Text.chomp row
    if "Prefix".toList <+: row then
      { s with inPrefix := true, prefixes := (Fields.split ',' row).map (hostName env) }
    else if "Protocol".toList <+: row then { s with inProtocol := true, inPrefix := false }
    else
      let rowElements := Fields.split ',' row
      let rowElements' := if s.inPrefix then qualifyServer env rowElements else rowElements
      protocolRow (prefixRow env s rowElements) rowElements'

def readFirewallRules (env : Text) (file : Text) : Rules :=
  (Text.lines file).foldl (readLine env) Rules.empty

end Audit
end Firewall
end TdsAdmin
