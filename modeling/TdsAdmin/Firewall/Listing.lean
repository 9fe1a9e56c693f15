import TdsAdmin.Firewall.Grants

/-!
# The listing of the security groups

What `aws ec2 describe-security-groups` prints: a line for each group, below it a line for each
permission with its port, and below that a line for each group and each range of addresses that
may use the port. A line is a keyword and fields with tabs between them.
-/

set_option autoImplicit false

namespace TdsAdmin
namespace Firewall
namespace Audit

open Fields (Token)

/-- A source that is let in: a group, by its name, or a range of addresses. The fields after the
one that counts are kept in `more`. -/
inductive Item
  | groupPair (id name : Token) (more : List Token)
  | range (address : Token) (more : List Token)
  deriving DecidableEq

structure Permission where
  port : Token
  more : List Token
  items : List Item
  deriving DecidableEq

structure SecurityGroup where
  name : Token
  more : List Token
  permissions : List Permission
  deriving DecidableEq

def listingLine (keyword : Text) (fields : List Token) : Text :=
  ['\t'].intercalate (keyword :: fields.map Token.text)

def Item.line : Item → Text
  | .groupPair id name more => listingLine "USERIDGROUPPAIRS".toList (id :: name :: more)
  | .range address more => listingLine "IPRANGES".toList (address :: more)

def Permission.lines (p : Permission) : List Text :=
  listingLine "IPPERMISSIONS".toList (p.port :: p.more) :: p.items.map Item.line

def SecurityGroup.lines (g : SecurityGroup) : List Text :=
  listingLine "SECURITYGROUPS".toList (g.name :: g.more) :: g.permissions.flatMap Permission.lines

def listingText (groups : List SecurityGroup) : Text :=
  Text.unlines (groups.flatMap SecurityGroup.lines)

/-! ## What is listed -/

/-- A source with the server and the port that it stands under. -/
structure Entry where
  server : Text
  port : Text
  item : Item
  deriving DecidableEq

def SecurityGroup.entries (g : SecurityGroup) : List Entry :=
  g.permissions.flatMap fun p => p.items.map fun item => ⟨g.name.text, p.port.text, item⟩

/-- The name of a source: that of the group, or that of the range. -/
def Item.source (env : Text) : Item → Text
  | .groupPair _ name _ => name.text
  | .range address _ => rangeName env address.text

def Entry.listed (env : Text) (e : Entry) : Grant := ⟨e.server, e.item.source env, e.port⟩

/-- The group that a line names, if it names one. -/
def Item.named : Item → Option Text
  | .groupPair _ name _ => some name.text
  | .range _ _ => none

/-- Every entry with the name of the group that was last named above it. -/
def withNameAbove : Text → List Entry → List (Text × Entry)
  | _, [] => []
  | name, e :: entries => (name, e) :: withNameAbove (e.item.named.getD name) entries

end Audit
end Firewall
end TdsAdmin
