import TdsAdmin.Firewall.Provision
import TdsAdmin.Proof.Firewall.Sheet

/-!
# What the audit records for a role

A table with a row for each role is a sheet, so what the audit takes from it is what it takes from
any sheet: each row opens what stands in its cells, to the names in the header above it (`mem_run`).
Which header that is depends on the names of the roles above: one that starts with `Prefix` brings
its own cells, and below one that starts with `Protocol` there is none (`headerAbove`).
-/

set_option autoImplicit false

namespace TdsAdmin
namespace Firewall

open Fields (Word)
open Audit

/-! ## The table as a sheet -/

theorem Word.plain (w : Word) : Plain w.text :=
  fun c hc => ⟨(Word.isField w c hc).1, (Word.isField w c hc).2.1⟩

theorem IsField.plain {f : Text} (h : IsField f) : Plain f :=
  fun c hc => ⟨(h c hc).1, (h c hc).2.1⟩

def Word.name (w : Word) : Name := ⟨⟨w.text, Word.plain w⟩, w.ne_nil⟩

def Cell.field (cell : Cell) : Field := ⟨cell.text, (Cell.isField cell).plain⟩

def Row.record (r : Row) (hname : IsField r.name) : Record where
  name := Word.name r.role
  second := ⟨r.name, hname.plain⟩
  rest := r.cells.map Cell.field

theorem Row.record_rest (r : Row) (hname : IsField r.name) :
    (r.record hname).rest.map Field.text = r.cells.map Cell.text := by
  rw [Row.record, List.map_map]
  rfl

theorem Row.record_text (r : Row) (hname : IsField r.name) : (r.record hname).text = r.text := by
  rw [Record.text, Row.record_rest]
  rfl

/-- What is built from each element, seen through a function that only needs the element. -/
theorem map_pmap_eq {α β γ : Type} {p : α → Prop} {f : ∀ a, p a → β} {g : β → γ} {h : α → γ}
    (heq : ∀ a ha, g (f a ha) = h a) : ∀ {l : List α} (H : ∀ a ∈ l, p a),
    (l.pmap f H).map g = l.map h
  | [], _ => rfl
  | a :: l, H => by
    rw [List.pmap_cons, List.map_cons, List.map_cons, heq, map_pmap_eq heq]

namespace RoleTable

variable (t : RoleTable)

def blanks : List Field := List.replicate t.columns.length ⟨[], List.forall_mem_nil _⟩

theorem port_plain : Plain "Port".toList := by decide

/-- The row of a protocol. -/
def protocolRecord (p : Word × Text) (hport : IsField p.2) : Record where
  name := Word.name p.1
  second := ⟨p.2, hport.plain⟩
  rest := t.blanks

theorem commas_whole : '\n' ∉ List.replicate t.columns.length ',' := by
  intro h
  exact absurd (List.eq_of_mem_replicate h) (by decide)

theorem columns_whole : ∀ c ∈ t.columns.map Word.name, '/' ∉ c.text := by
  intro c hc
  obtain ⟨w, -, rfl⟩ := List.mem_map.mp hc
  exact w.not_mem (by decide)

def sheet : Sheet where
  preamble := t.preamble
  title := ⟨[], List.forall_mem_nil _⟩
  columns := t.columns.map Word.name
  body := (t.rows.pmap Row.record t.names_plain).map Entry.record ++
    [.comma (List.replicate t.columns.length ',') t.commas_whole]
  heading := ⟨"Port".toList, port_plain⟩ :: t.blanks
  protocols := (t.protocols.pmap t.protocolRecord t.ports_plain).map Entry.record
  preamble_lines := t.preamble_lines
  columns_whole := t.columns_whole

theorem blanks_text : t.blanks.map Field.text = List.replicate t.columns.length [] :=
  List.map_replicate

theorem columns_text : t.sheet.columns.map (·.text) = t.columns.map Word.text := by
  rw [sheet, List.map_map]
  rfl

theorem separator_text : t.separator = ',' :: List.replicate t.columns.length ',' := by
  have hline : ∀ n, line ([] :: [] :: List.replicate n []) = ',' :: List.replicate n ',' := by
    intro n
    rw [line, Fields.intercalate_cons, List.nil_append, List.flatMap_cons]
    induction n with
    | zero => rfl
    | succ n ih =>
      rw [List.replicate_succ, List.flatMap_cons, List.replicate_succ, ← ih]
      rfl
  exact hline _

theorem sheet_text : t.sheet.text = t.text := by
  have hheader : t.sheet.header = t.header := by
    rw [Sheet.header, columns_text]
    rfl
  have hbody : t.sheet.body.map Entry.text = t.rows.map Row.text ++ [t.separator] := by
    rw [sheet, List.map_append, List.map_map, separator_text]
    exact congrArg (· ++ _) (map_pmap_eq (fun r h => r.record_text h) t.names_plain)
  have hprotocols : t.sheet.protocols.map Entry.text =
      t.protocols.map fun p => t.padded [p.1.text, p.2] := by
    rw [sheet, List.map_map]
    refine map_pmap_eq (fun p h => ?_) t.ports_plain
    show Record.text (t.protocolRecord p h) = _
    rw [Record.text, protocolRecord, blanks_text]
    rfl
  have hheading : line ("Protocol".toList :: t.sheet.heading.map Field.text) =
      t.padded ["Protocol".toList, "Port".toList] := by
    rw [sheet, List.map_cons, blanks_text]
    rfl
  rw [Sheet.text, text, Sheet.aboveLines, Sheet.sectionLines, hheader, hheading, hbody, hprotocols,
    tableLines, protocolLines]
  simp [sheet]

/-! ## The header above a row -/

/-- The header in force when the rows have been read as far as this one. -/
def headerFrom (r : Row) : Option (List Text) → List Row → Option (List Text)
  | headers, [] => headers
  | headers, q :: rows =>
      if q.role = r.role then headers
      else headerFrom r (headerBelow headers q.role.text (q.cells.map Cell.text)) rows

def headerAbove (r : Row) : Option (List Text) :=
  headerFrom r (some (t.columns.map Word.text)) t.rows

/-- A role has one row, and that is under one header. -/
theorem under_row {r : Row} {x : Option (List Text) × Record} :
    ∀ {rows : List Row} {headers : Option (List Text)} (hnames : ∀ q ∈ rows, IsField q.name)
      (hr : r ∈ rows), (rows.map Row.role).Nodup →
    (x ∈ underHeaders headers (rows.pmap Row.record hnames) ∧ x.2.name.text = r.role.text ↔
      x = (headerFrom r headers rows, r.record (hnames r hr)))
  | [], _, _, hr, _ => absurd hr List.not_mem_nil
  | q :: rows, headers, hnames, hr, hnodup => by
    obtain ⟨hfresh, hnodup⟩ := List.nodup_cons.mp hnodup
    rw [List.pmap_cons, underHeaders, List.mem_cons, headerFrom, Row.record_rest]
    by_cases hrole : q.role = r.role
    · -- no row below has the role
      have hsame : q = r := by
        rcases List.mem_cons.mp hr with heq | hr
        · exact heq.symm
        · exact absurd (hrole ▸ List.mem_map_of_mem hr) hfresh
      subst hsame
      rw [if_pos rfl]
      constructor
      · rintro ⟨heq | hmem, hname⟩
        · exact heq
        · obtain ⟨y, hy, heq⟩ := List.mem_pmap.mp (mem_of_under hmem)
          rw [← heq] at hname
          have hrole : y.role = q.role := Word.ext hname
          exact absurd (hrole ▸ List.mem_map_of_mem hy) hfresh
      · rintro rfl
        exact ⟨Or.inl rfl, rfl⟩
    -- this row may bring a header of its own for the rows below
    · have hbelow : r ∈ rows := (List.mem_cons.mp hr).resolve_left fun heq => hrole (by rw [heq])
      rw [if_neg hrole,
        ← under_row (fun y hy => hnames y (List.mem_cons_of_mem q hy)) hbelow hnodup]
      constructor
      · rintro ⟨rfl | hmem, hname⟩
        · exact absurd (Word.ext hname) hrole
        · exact ⟨hmem, hname⟩
      · rintro ⟨hmem, hname⟩
        exact ⟨Or.inr hmem, hname⟩

/-- The header above a row is that of the table or the cells of a row of it. -/
theorem headerFrom_cases (r : Row) {above : List Text} : ∀ {rows : List Row}
    {headers : Option (List Text)}, headerFrom r headers rows = some above →
    headers = some above ∨ ∃ q ∈ rows, above = q.cells.map Cell.text
  | [], _, h => Or.inl h
  | q :: rows, headers, h => by
    rw [headerFrom] at h
    split at h
    · exact Or.inl h
    · rcases headerFrom_cases r h with heq | ⟨p, hp, heq⟩
      · unfold headerBelow at heq
        split at heq
        · exact Or.inr ⟨q, List.mem_cons_self, (Option.some.inj heq).symm⟩
        · split at heq
          · cases heq
          · exact Or.inl heq
      · exact Or.inr ⟨p, List.mem_cons_of_mem q hp, heq⟩

end RoleTable

/-! ## The entries of a role -/

/-- A table whose protocols are known to both scripts. -/
structure KnownTable extends RoleTable where
  cells_known : ∀ r ∈ rows, ∀ cell ∈ r.cells, ∀ p ∈ cell, (portOf p.text).isSome = true
  protocols_known : ∀ p ∈ protocols, (portOf p.1.text).isSome = true

instance (s : Text) : Decidable (Keyword s) :=
  inferInstanceAs (Decidable ("ext".toList <+: s ∨ "Prefix".toList <+: s ∨ "Protocol".toList <+: s))

theorem known_mem {protocol : Text} (h : (portOf protocol).isSome = true) :
    protocol ∈ ports.map Prod.fst := by
  obtain ⟨port, hport⟩ := Option.isSome_iff_exists.mp h
  obtain ⟨above, below, hsplit, -⟩ := List.lookup_eq_some_iff.mp hport
  rw [hsplit]
  simp

/-- What holds of the twelve names holds of a protocol that is known. -/
theorem forall_known {P : Text → Prop} (hall : ∀ w ∈ ports.map Prod.fst, P w) {protocol : Text}
    (h : (portOf protocol).isSome = true) : P protocol :=
  hall protocol (known_mem h)

/-- The names that head the columns when the script reads a row of the table, if it does. -/
def RoleTable.readUnder (t : RoleTable) (r : Row) : Option (List Text) :=
  if Keyword r.role.text then none else t.headerAbove r

/-- A protocol stands in a cell of the row, and this is the source that the script has for it. -/
def RoleTable.Recorded (t : RoleTable) (env : Text) (r : Row) (source protocol : Text) : Prop :=
  ∃ headers j cell, t.readUnder r = some headers ∧ r.cells[j]? = some cell ∧
    source = sourceAt env headers j ∧ ∃ p ∈ cell, protocol = p.text

theorem mem_split_cell {cell : Cell} {protocol : Text} :
    protocol ∈ Fields.split '/' cell.text ↔ ∃ p ∈ cell, protocol = p.text := by
  by_cases hcell : cell = []
  · subst hcell
    refine iff_of_false ?_ (by simp)
    -- an empty cell has no parts
    exact List.not_mem_nil
  · rw [split_cell cell hcell, List.mem_map]
    exact exists_congr fun p => and_congr_right fun _ => eq_comm

theorem records_map_record (rs : List Record) : records (rs.map Entry.record) = rs := by
  induction rs with
  | nil => rfl
  | cons r rs ih => rw [List.map_cons, records, ih]

theorem RoleTable.records_body (t : RoleTable) :
    records t.sheet.body = t.rows.pmap Row.record t.names_plain := by
  have happend : ∀ (rs : List Record) (es : List Entry), records es = [] →
      records (rs.map Entry.record ++ es) = rs := by
    intro rs es hes
    induction rs with
    | nil => exact hes
    | cons r rs ih => rw [List.map_cons, List.cons_append, records, ih]
  exact happend _ _ rfl

theorem Row.record_cell {r : Row} (hname : IsField r.name) {j : Nat} {f : Field} :
    (r.record hname).rest[j]? = some f ↔ ∃ cell, r.cells[j]? = some cell ∧ cell.field = f := by
  rw [Row.record, List.getElem?_map, Option.map_eq_some_iff]

/-- **What the audit records for a role is what stands in its row.** -/
theorem mem_recorded (env : Text) {t : KnownTable} {r : Row} (hr : r ∈ t.rows)
    (source protocol : Text) :
    (⟨hostName env r.role.text, source, protocol⟩ ∈ (readFirewallRules env t.text).portsOpen) ↔
      t.Recorded env r source protocol := by
  obtain ⟨s, hs, hnone, habove⟩ := @Sheet.read_header env t.sheet
  obtain ⟨s', hin, hpro, hports, -, htext⟩ := @Sheet.read_heading env t.sheet
  have hsection : ∀ p ∈ records t.sheet.protocols, ¬ Keyword p.name.text := by
    intro p hp
    rw [RoleTable.sheet, records_map_record] at hp
    obtain ⟨q, hq, rfl⟩ := List.mem_pmap.mp hp
    -- none of the twelve names starts like one of the three words
    have hnames : ∀ w ∈ ports.map Prod.fst, ¬ Keyword w := by decide
    exact forall_known hnames (t.protocols_known q hq)
  obtain ⟨hopen, -⟩ := @run_section env t.sheet.protocols s' hin hpro hsection
  rw [← t.sheet_text, htext, hopen, hports, habove, mem_run hs, hnone, t.columns_text,
    or_iff_right List.not_mem_nil, t.records_body]
  constructor
  · rintro ⟨x, hx, hkey, hserver, headers, j, cell, hheaders, hj, hsource, hp⟩
    have hname : x.2.name.text = r.role.text := (hostName_injective hserver).symm
    have heq := (RoleTable.under_row t.names_plain hr t.roles_nodup).mp ⟨hx, hname⟩
    subst heq
    obtain ⟨c, hc, rfl⟩ := (Row.record_cell (t.names_plain r hr)).mp hj
    exact ⟨headers, j, c, (if_neg hkey).trans hheaders, hc, hsource, mem_split_cell.mp hp⟩
  · rintro ⟨headers, j, cell, hunder, hcell, hsource, hp⟩
    rw [RoleTable.readUnder] at hunder
    split at hunder
    · cases hunder
    · rename_i hkey
      have hj : (r.record (t.names_plain r hr)).rest[j]? = some cell.field :=
        (Row.record_cell (t.names_plain r hr)).mpr ⟨cell, hcell, rfl⟩
      refine ⟨(t.headerAbove r, r.record (t.names_plain r hr)), ?_, hkey, rfl, headers, j,
        cell.field, hunder, hj, hsource, mem_split_cell.mpr hp⟩
      exact ((RoleTable.under_row t.names_plain hr t.roles_nodup).mpr rfl).1

end Firewall
end TdsAdmin
