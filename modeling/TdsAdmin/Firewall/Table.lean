import TdsAdmin.Lib.Fields

/-!
# `firewalls.txt`

The table of the ports that are open between the servers, as the spreadsheet exports it: five
lines of heading, the `Prefix` row with the short names of the servers that connect, a row for
each server with the protocols it accepts from each of them, a row of commas, and the section
that gives each protocol its port. Every row is filled up with commas to the same number of
fields.

`RoleTable` is such a table and `RoleTable.text` the file. The names are words: what a comma, a
slash, a backslash or a blank would do to them is not what the scripts are about. In a `Table` the
names are also told apart: a role is not called like a protocol or like a heading.
-/

set_option autoImplicit false

namespace TdsAdmin
namespace Firewall

open Fields (Word)

/-! ## Rows -/

/-- A cell: the protocols that are open, in the order in which they are written. -/
abbrev Cell := List Word

def Cell.text (cell : Cell) : Text := ['/'].intercalate (cell.map Word.text)

/-- The row of one server. -/
structure Row where
  role : Word
  /-- The server's full name. -/
  name : Text
  cells : List Cell
  deriving DecidableEq

/-- A field needs no quoting: the scripts know none. -/
def IsField (f : Text) : Prop := ∀ c ∈ f, c ≠ ',' ∧ c ≠ '\n' ∧ c ≠ '\\'

instance (f : Text) : Decidable (IsField f) := List.decidableBAll _ f

/-- A line of the table. -/
def line (fields : List Text) : Text := [','].intercalate fields

def Row.fields (r : Row) : List Text := r.role.text :: r.name :: r.cells.map Cell.text

def Row.text (r : Row) : Text := line r.fields

/-- The scripts take a row that starts like this for a heading. -/
def isHeading (s : Text) : Prop := "Prefix".toList <+: s ∨ "Protocol".toList <+: s

instance (s : Text) : Decidable (isHeading s) :=
  inferInstanceAs (Decidable ("Prefix".toList <+: s ∨ "Protocol".toList <+: s))

/-! ## Tables -/

/-- A table that has a row for each role, whatever the roles are called. -/
structure RoleTable where
  preamble : List Text
  /-- The short names in the `Prefix` row. -/
  columns : List Word
  rows : List Row
  /-- The protocols of the last section, each with its port. -/
  protocols : List (Word × Text)
  preamble_length : preamble.length = 5
  /-- The first row that starts with `Prefix` is the header. -/
  preamble_lines : ∀ l ∈ preamble, '\n' ∉ l ∧ ¬ "Prefix".toList <+: l
  columns_nodup : columns.Nodup
  roles_nodup : (rows.map Row.role).Nodup
  names_plain : ∀ r ∈ rows, IsField r.name
  ports_plain : ∀ p ∈ protocols, IsField p.2
  rows_full : ∀ r ∈ rows, r.cells.length = columns.length

namespace RoleTable

/-- A short row filled up to the width of the table. -/
def padded (t : RoleTable) (fields : List Text) : Text :=
  line (fields ++ List.replicate t.columns.length [])

def header (t : RoleTable) : Text := line ("Prefix".toList :: [] :: t.columns.map Word.text)

def separator (t : RoleTable) : Text := t.padded [[], []]

/-- The section of the protocols. -/
def protocolLines (t : RoleTable) : List Text :=
  t.padded ["Protocol".toList, "Port".toList] :: t.protocols.map fun p => t.padded [p.1.text, p.2]

/-- The lines after the heading. -/
def tableLines (t : RoleTable) : List Text :=
  t.header :: (t.rows.map Row.text ++ t.separator :: t.protocolLines)

def text (t : RoleTable) : Text := Text.unlines (t.preamble ++ t.tableLines)

end RoleTable

/-- One whose roles, servers and protocols cannot be taken for each other. -/
structure Table extends RoleTable where
  /-- One row for each role, and no role named like a protocol. -/
  keys_nodup : (rows.map Row.role ++ protocols.map Prod.fst).Nodup
  /-- The servers that connect have names of roles, not of protocols. -/
  columns_roles : ∀ c ∈ columns, c ∉ protocols.map Prod.fst
  roles_plain : ∀ r ∈ rows, ¬ isHeading r.role.text
  /-- A protocol is not named like a host. -/
  protocols_dotless : ∀ p ∈ protocols, '.' ∉ p.1.text
  cells_listed : ∀ r ∈ rows, ∀ cell ∈ r.cells, ∀ p ∈ cell, p ∈ protocols.map Prod.fst

end Firewall
end TdsAdmin
