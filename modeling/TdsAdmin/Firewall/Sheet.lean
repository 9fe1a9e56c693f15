import TdsAdmin.Firewall.Audit
import TdsAdmin.Firewall.Table

/-!
# Any sheet of `firewalls.txt`

`Table` is the table the provisioning scripts are given. The audit is asked about every sheet of
that layout, whatever its servers are called: a line is known by its place in the sheet, not by
what it starts with. `Sheet.Allows` is what such a sheet says, and `ReadExactly` that
`read_firewall_rules` has taken that from it and nothing else.
-/

set_option autoImplicit false

namespace TdsAdmin
namespace Firewall

/-! ## Lines -/

/-- No separator of the file: the sheet quotes nothing. -/
def Plain (f : Text) : Prop := ∀ c ∈ f, c ≠ ',' ∧ c ≠ '\n'

instance (f : Text) : Decidable (Plain f) := List.decidableBAll _ f

/-- What stands between two commas of a line. -/
structure Field where
  text : Text
  plain : Plain text

structure Name extends Field where
  ne_nil : text ≠ []

/-- A row: of a server with its full name and its cells, or of a protocol with its port. -/
structure Record where
  name : Name
  second : Field
  rest : List Field

def Record.text (r : Record) : Text :=
  line (r.name.text :: r.second.text :: r.rest.map Field.text)

inductive Entry
  | record (r : Record)
  /-- A row that starts with a comma. -/
  | comma (rest : Text) (oneLine : '\n' ∉ rest)

def Entry.text : Entry → Text
  | .record r => r.text
  | .comma rest _ => ',' :: rest

def records : List Entry → List Record
  | [] => []
  | .record r :: entries => r :: records entries
  | .comma _ _ :: entries => records entries

/-! ## Sheets -/

structure Sheet where
  preamble : List Text
  /-- The second field of the `Prefix` row. -/
  title : Field
  /-- The headers of the columns. -/
  columns : List Name
  body : List Entry
  /-- What stands behind `Protocol` in the heading of the last section. -/
  heading : List Field
  protocols : List Entry
  /-- The first row that starts with `Prefix` is the header. -/
  preamble_lines : ∀ l ∈ preamble, '\n' ∉ l ∧ ¬ "Prefix".toList <+: l
  /-- A slash is what separates the protocols of a cell. -/
  columns_whole : ∀ c ∈ columns, '/' ∉ c.text

namespace Sheet

variable (t : Sheet)

def header : Text := line ("Prefix".toList :: t.title.text :: t.columns.map (·.text))

/-- The lines above the section of the protocols. -/
def aboveLines : List Text := t.preamble ++ t.header :: t.body.map Entry.text

def sectionLines : List Text :=
  line ("Protocol".toList :: t.heading.map Field.text) :: t.protocols.map Entry.text

def above : Text := Text.unlines t.aboveLines

def text : Text := Text.unlines (t.aboveLines ++ t.sectionLines)

/-- **What the sheet says**: a row other than the External one names the protocol in the column of
the source. -/
def Allows (env : Text) (server source protocol : Text) : Prop :=
  ∃ r ∈ records t.body, r.name.text ≠ "ext".toList ∧ server = Audit.hostName env r.name.text ∧
    ∃ x ∈ t.columns.zip r.rest, source = Audit.hostName env x.1.text ∧
      protocol ∈ x.2.text.splitOn '/'

end Sheet

/-! ## What the script takes from it -/

open Audit (readFirewallRules)

/-- The script has read the sheet as it stands. The empty text between two slashes is not a
protocol. -/
structure ReadExactly (env : Text) (t : Sheet) : Prop where
  opened : ∀ server source protocol, protocol ≠ [] →
    (⟨server, source, protocol⟩ ∈ (readFirewallRules env t.text).portsOpen ↔
      t.Allows env server source protocol)
  recorded : ∀ name port, (readFirewallRules env t.text).protocolName.lookup name = some port ↔
    ∃ p ∈ records t.protocols, p.name.text = name ∧ p.second.text = port
  /-- Nothing above the section has been read as the row of a protocol. -/
  above_apart : (readFirewallRules env t.above).protocolName = []
  /-- Nothing in the section has been read as the row of a server. -/
  section_apart :
    (readFirewallRules env t.text).portsOpen = (readFirewallRules env t.above).portsOpen

/-! ## When it does -/

/-- What `read_firewall_rules` looks for at the start of a line, the comma apart. -/
def Keyword (s : Text) : Prop :=
  "ext".toList <+: s ∨ "Prefix".toList <+: s ∨ "Protocol".toList <+: s

/-- A line that is skipped or taken for a heading. -/
def Skipped (l : Text) : Prop := ",".toList <+: l ∨ Keyword l

/-- The header below a row: a server named like the header brings its own cells, and below one named
like the last section there is none. -/
def headerBelow (headers : Option (List Text)) (name : Text) (cells : List Text) :
    Option (List Text) :=
  if "Prefix".toList <+: name then some cells
  else if "Protocol".toList <+: name then none
  else headers

/-- The rows, each with the header above it. -/
def underHeaders : Option (List Text) → List Record → List (Option (List Text) × Record)
  | _, [] => []
  | headers, r :: rs =>
      (headers, r) :: underHeaders (headerBelow headers r.name.text (r.rest.map Field.text)) rs

/-- The sheet names the protocol in this column for a server. -/
def Sheet.Names (t : Sheet) (server source protocol : Text) : Prop :=
  ∃ r ∈ records t.body, r.name.text = server ∧
    ∃ x ∈ t.columns.zip r.rest, x.1.text = source ∧ protocol ∈ x.2.text.splitOn '/'

/-- The names of a sheet keep clear of the words that the script looks for. -/
structure Sheet.Clear (t : Sheet) : Prop where
  /-- A server named like a keyword has nothing in the columns. -/
  rows : ∀ r ∈ records t.body, r.name.text ≠ "ext".toList → Keyword r.name.text →
    ∀ x ∈ t.columns.zip r.rest, ∀ p ∈ x.2.text.splitOn '/', p = []
  /-- What another server has in a cell stands under a header, and the sheet names it there. -/
  headers : ∀ headers r, (some headers, r) ∈ underHeaders (some (t.columns.map (·.text)))
      (records t.body) → ¬ Keyword r.name.text →
    ∀ (j : Nat) (cell : Field), r.rest[j]? = some cell → ∀ p ∈ cell.text.splitOn '/', p ≠ [] →
      ∃ source, headers[j]? = some source ∧ t.Names r.name.text source p
  /-- Below a line that starts like the last section every line is skipped or taken for a
  heading. -/
  sections : t.aboveLines.Pairwise fun l m => "Protocol".toList <+: l → Skipped m
  /-- No protocol is named like a keyword, -/
  protocols : ∀ p ∈ records t.protocols, ¬ Keyword p.name.text
  /-- and none has two ports. -/
  ports : (records t.protocols).Pairwise fun p q =>
    p.name.text = q.name.text → p.second.text = q.second.text

end Firewall
end TdsAdmin
