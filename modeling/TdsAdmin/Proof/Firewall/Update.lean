import TdsAdmin.Proof.Firewall.Provision

/-!
# The two ways to open a port

`update_firewalls.sh` starts one line too low, so what it takes for the names of the servers is
the row of the first role. A rule it asks for is then for a group that is named after a cell of
that row, and never for every address, because the name it tests for emptiness has the domain in
it. Nothing in a cell is the name of a role, so no rule is for the group it should be for
(`source_of_rule`): the two scripts open the same ports on exactly the rows on which, cell by
cell, there is nothing to open (`same_ports_iff`).
-/

set_option autoImplicit false

namespace TdsAdmin
namespace Firewall

open Fields (Word Trimmed)

namespace UpdateFirewalls

/-! ## One call -/

/-- Whom a call with this third argument lets in. -/
def calledSource (remoteServer : Text) : Source :=
  if remoteServer = [] then .address else .group remoteServer

theorem source_of_call {groupExists : Text → Bool} {port port' : Option Nat} {args : List Text}
    {requests : List Request}
    (h : addSecurityGroupIngress groupExists port args = some (requests, port')) :
    ∀ q ∈ requests, ∃ w, args[2]? = some w ∧ q.source = calledSource w := by
  intro q hq
  match args, h with
  | myGroup :: protocol :: remoteServer :: rest, h =>
    refine ⟨remoteServer, rfl, ?_⟩
    obtain ⟨p, -, hp⟩ := Option.map_eq_some_iff.mp h
    rw [calledSource]
    split at hp
    · obtain ⟨rfl, -⟩ := Prod.mk.inj hp
      rw [List.mem_singleton.mp hq, if_pos (by assumption)]
    · split at hp
      · obtain ⟨rfl, -⟩ := Prod.mk.inj hp
        rw [List.mem_singleton.mp hq, if_neg (by assumption)]
      · obtain ⟨rfl, -⟩ := Prod.mk.inj hp
        simp at hq

theorem source_of_calls {groupExists : Text → Bool} : ∀ {argss : List (List Text)}
    {port : Option Nat}, ∀ q ∈ (calls groupExists port argss).1,
      ∃ args ∈ argss, ∃ w, args[2]? = some w ∧ q.source = calledSource w
  | [], _, q, hq => by simp [calls] at hq
  | args :: rest, port, q, hq => by
    rw [calls] at hq
    cases hcall : addSecurityGroupIngress groupExists port args with
    | none =>
      rw [hcall] at hq
      simp at hq
    | some result =>
      obtain ⟨requests, port'⟩ := result
      rw [hcall] at hq
      rcases List.mem_append.mp hq with hq | hq
      · obtain ⟨w, hw, hsource⟩ := source_of_call hcall q hq
        exact ⟨args, by simp, w, hw, hsource⟩
      · obtain ⟨args', hargs, w, hw, hsource⟩ := source_of_calls q hq
        exact ⟨args', List.mem_cons_of_mem args hargs, w, hw, hsource⟩

/-! ## Words under a changing `IFS` -/

/-- `IFS` is a newline, or a slash since the first cell with two protocols. -/
def IfsChar (ifs : Char) : Prop := ifs = '\n' ∨ ifs = '/'

theorem words_word {ifs : Char} (h : IfsChar ifs) (w : Word) :
    Fields.words ifs w.text = [w.text] := by
  refine Fields.words_single w.ne_nil (w.not_mem ?_)
  rcases h with rfl | rfl <;> decide

/-- The protocols of a cell, as the script walks through them. -/
theorem protocols_of_cell {cell : Cell} (hne : cell ≠ []) :
    (if '/' ∈ cell.text then Fields.words '/' cell.text else [cell.text])
      = cell.map Word.text := by
  have hparts : cell.text.splitOn '/' = cell.map Word.text := by
    refine List.splitOn_intercalate '/' ?_ (by simpa using hne)
    intro f hf
    obtain ⟨w, -, rfl⟩ := List.mem_map.mp hf
    exact w.not_mem (by decide)
  split
  · have hlast : (cell.map Word.text).getLast? ≠ some [] := by
      intro hlast
      obtain ⟨w, -, hw⟩ := List.mem_map.mp (List.mem_of_getLast? hlast)
      exact w.ne_nil hw
    rw [Fields.words, if_neg (by decide), hparts, Fields.endFields, if_neg hlast]
  · rename_i hslash
    rw [← hparts, List.splitOn_eq_singleton hslash]

theorem not_mem_remoteServer (s : Settings) {server : Text} {c : Char}
    (hc : Fields.isWordChar c = false) (hdot : c ≠ '.') (hdomain : c ∉ DOMAIN)
    (hserver : c ∉ server) : c ∉ remoteServer s server := by
  simp only [remoteServer, List.mem_append, List.mem_cons, not_or]
  exact ⟨hserver, hdot, s.hostEnv.not_mem hc, hdot, hdomain⟩

/-- The name of the remote group, cut at a slash where `IFS` says so. -/
theorem words_remoteServer {ifs : Char} (h : IfsChar ifs) (s : Settings) (cell : Cell) :
    ∃ w rest, Fields.words ifs (remoteServer s cell.text) = w :: rest ∧ w ≠ [] ∧
      (w = remoteServer s cell.text ∨ ∃ p ∈ cell, w = p.text) := by
  have hne : remoteServer s cell.text ≠ [] := by simp [remoteServer]
  have hwhole : ifs ∉ remoteServer s cell.text →
      ∃ w rest, Fields.words ifs (remoteServer s cell.text) = w :: rest ∧ w ≠ [] ∧
        (w = remoteServer s cell.text ∨ ∃ p ∈ cell, w = p.text) :=
    fun hmem => ⟨_, [], Fields.words_single hne hmem, hne, Or.inl rfl⟩
  rcases h with rfl | rfl
  · exact hwhole (not_mem_remoteServer s (by decide) (by decide) (by decide)
      fun hcell => (Cell.isField cell _ hcell).2.1 rfl)
  · by_cases hslash : '/' ∈ cell.text
    · match cell, Cell.slash_mem.mp hslash with
      | p :: q :: cell, _ =>
        -- the slash is the cell's own, and the first word is what stands in front of it
        have htext : remoteServer s (Cell.text (p :: q :: cell))
            = p.text ++ '/' :: remoteServer s (Cell.text (q :: cell)) := by
          rw [remoteServer, Cell.text_more]
          simp [remoteServer]
        obtain ⟨rest, hwords⟩ : ∃ rest,
            Fields.words '/' (remoteServer s (Cell.text (p :: q :: cell))) = p.text :: rest := by
          rw [Fields.words, if_neg (by decide), htext,
            List.splitOn_append_cons_self_of_not_mem (p.not_mem (by decide)), Fields.endFields]
          split
          · cases hparts : (remoteServer s (Cell.text (q :: cell))).splitOn '/' with
            | nil => exact absurd hparts (List.splitOn_ne_nil _ _)
            | cons f fs => exact ⟨_, List.dropLast_cons_cons⟩
          · exact ⟨_, rfl⟩
        exact ⟨p.text, rest, hwords, p.ne_nil, Or.inr ⟨p, by simp, rfl⟩⟩
    · exact hwhole (not_mem_remoteServer s (by decide) (by decide) (by decide) hslash)

/-! ## The loop -/

/-- Where a rule comes from: a cell of the row, and a group named after a cell of the row that the
script takes for the heading. -/
def Misnamed (s : Settings) (heading cells : List Cell) (x : Text × Request) : Prop :=
  (∃ cell ∈ cells, cell ≠ [] ∧ x.1 = cell.text) ∧
    ∃ cell ∈ heading, ∃ w, x.2.source = .group w ∧
      (w = remoteServer s cell.text ∨ ∃ p ∈ cell, w = p.text)

theorem misnamed_openPorts {groupExists : Text → Bool} {s : Settings} {servers : List Text}
    {heading cells : List Cell}
    (hservers : ∀ server ∈ servers.drop 2, server ∈ heading.map Cell.text) :
    ∀ {openPortsLeft : List Text} {ifs : Char} {port : Option Nat} {i : Nat}, IfsChar ifs → 2 ≤ i →
      (∀ t ∈ openPortsLeft, t ∈ cells.map Cell.text) →
      ∀ x ∈ openPorts groupExists s servers ifs port i openPortsLeft, Misnamed s heading cells x
  | [], _, _, _, _, _, _, x, hx => by simp [openPorts] at hx
  | t :: rest, ifs, port, i, hifs, hi, hcells, x, hx => by
    have hrest : ∀ u ∈ rest, u ∈ cells.map Cell.text := fun u hu => hcells u (by simp [hu])
    rw [openPorts] at hx
    split at hx
    · exact misnamed_openPorts hservers hifs (by omega) hrest x hx
    · rename_i hne
      split at hx
      · simp at hx
      · rename_i server hserver
        have hifs' : IfsChar (if '/' ∈ t then '/' else ifs) := by
          split
          · exact Or.inr rfl
          · exact hifs
        obtain ⟨cell, hcell, rfl⟩ := List.mem_map.mp (hcells t (by simp))
        have hcellne : cell ≠ [] := mt Cell.text_eq_nil.mpr hne
        have hdrop : (servers.drop 2)[i - 2]? = some server := by
          rw [List.getElem?_drop, Nat.add_sub_cancel' hi, hserver]
        obtain ⟨column, hcolumn, rfl⟩ :=
          List.mem_map.mp (hservers server (List.mem_of_getElem? hdrop))
        obtain ⟨w, wrest, hwords, hw, hname⟩ := words_remoteServer hifs' s column
        dsimp only at hx
        rcases List.mem_append.mp hx with hx | hx
        · obtain ⟨q, hq, rfl⟩ := List.mem_map.mp hx
          refine ⟨⟨cell, hcell, hcellne, rfl⟩, column, hcolumn, w, ?_, hname⟩
          obtain ⟨args, hargs, w', hw', hsource⟩ := source_of_calls q hq
          rw [protocols_of_cell hcellne, List.map_map] at hargs
          obtain ⟨p, -, rfl⟩ := List.mem_map.mp hargs
          -- the group and the protocol are one word each, so the third word is the name
          simp only [Function.comp, words_word hifs', hwords, List.cons_append, List.nil_append,
            List.getElem?_cons_succ, List.getElem?_cons_zero, Option.some.injEq] at hw'
          rw [hsource, ← hw', calledSource, if_neg hw]
        · split at hx
          · simp at hx
          · exact misnamed_openPorts hservers hifs' (by omega) hrest x hx

/-! ## A row of the table -/

theorem firewall_text (t : Table) : firewall t.text =
    (t.rows.map Row.text ++ t.separator :: t.protocolLines).filter
      fun l => !",".toList.isPrefixOf l && !l.isEmpty :=
  t.firewallLines_text 1 ",".toList

theorem keep_row (r : Row) : (!",".toList.isPrefixOf r.text && !r.text.isEmpty) = true := by
  obtain ⟨c, s, htext, hc⟩ := r.text_head
  rw [htext]
  simp [List.isPrefixOf, hc.symm]

variable {t : Table} {r : Row}

theorem row_kept (hr : r ∈ t.rows) : r.text ∈ firewall t.text := by
  rw [firewall_text, List.mem_filter]
  exact ⟨List.mem_append_left _ (List.mem_map_of_mem hr), keep_row r⟩

/-- The script takes the first row for the heading. -/
theorem first_row {first : Row} {rows : List Row} (h : t.rows = first :: rows) :
    ∃ lines, firewall t.text = first.text :: lines := by
  rw [firewall_text, h, List.map_cons, List.cons_append]
  exact ⟨_, List.filter_cons_of_pos (keep_row first)⟩

theorem cells_read (hr : r ∈ t.rows) :
    ∀ u ∈ (Fields.readArray ',' r.text).drop 2, u ∈ r.cells.map Cell.text := by
  intro u hu
  have hread := read_line (by simp [Row.fields]) (Row.fields_plain (t.names_plain r hr))
  exact (hread.drop 2).subset hu

/-- **What the script asks for on a role's row.** -/
theorem rules_misnamed (groupExists : Text → Bool) (s : Settings) (hr : r ∈ t.rows) :
    ∃ first ∈ t.rows, ∀ x ∈ rules groupExists s r.role.text t.text,
      Misnamed s first.cells r.cells x := by
  cases hrows : t.rows with
  | nil =>
    rw [hrows] at hr
    simp at hr
  | cons first rows =>
    obtain ⟨lines, hlines⟩ := first_row hrows
    have hfirst : first ∈ t.rows := by rw [hrows]; simp
    have hsub : ∀ l ∈ firewall t.text, l ∈ t.tableLines := by
      rw [firewall_text]
      exact fun l hl => List.mem_cons_of_mem _ (List.mem_filter.mp hl).1
    have hrow := openPortsOf_row hr hsub (row_kept hr)
    refine ⟨first, by simp, ?_⟩
    intro x hx
    rw [rules, hlines] at hx
    dsimp only at hx
    rw [← hlines, hrow] at hx
    split at hx
    · simp at hx
    · split at hx
      · simp at hx
      · exact misnamed_openPorts (cells_read hfirst) (Or.inl rfl) (Nat.le_refl 2) (cells_read hr)
          x hx

end UpdateFirewalls

/-! ## The same ports -/

/-- The rules for the cells with one protocol. -/
def singles (rules : List (Text × Request)) : List Request :=
  (rules.filter fun x => !x.1.contains '/').map Prod.snd

/-- What is to be open on a role's row, for a way to name the group of a column: each single
protocol to the role at the head of its column, and to every address in the `ext` column. -/
def Wanted (t : Table) (r : Row) (groupOf : Text → Text) (source : Source) (port : Option Nat) :
    Prop :=
  ∃ x ∈ t.columns.zip r.cells, ∃ p, x.2 = [p] ∧ port = portOf p.text ∧
    source = if x.1.text = "ext".toList then .address else .group (groupOf x.1.text)

/-- **The two scripts open the same ports**: both ask, for the role's group, for what the table
wants, each with its own way to write the name of a group. -/
def SamePorts (groupExists : Text → Bool) (s : Settings) (groupFound : Bool) (t : Table) (r : Row) :
    Prop :=
  (∀ source port, (∃ q ∈ singles (UpdateFirewalls.rules groupExists s r.role.text t.text),
      q.group = s.sgName.text ∧ q.source = source ∧ q.port = port) ↔
    Wanted t r (UpdateFirewalls.remoteServer s) source port) ∧
  ∀ source port, (∃ q ∈ singles (CreateInstance.rules s groupFound r.role.text t.text),
      q.group = s.sgName.text ∧ q.source = source ∧ q.port = port) ↔
    Wanted t r (CreateInstance.remoteServer s) source port

variable {t : Table} {r : Row}

/-- A cell whose text has no slash names one protocol, or none. -/
theorem mem_singles {rules : List (Text × Request)} {q : Request} :
    q ∈ singles rules ↔ ∃ x ∈ rules, '/' ∉ x.1 ∧ x.2 = q := by
  simp only [singles, List.mem_map, List.mem_filter, Bool.not_eq_true', List.contains_eq_mem,
    decide_eq_false_iff_not, and_assoc]

/-- No protocol of the table is the name of a role, or of the group of one. -/
theorem group_not_wanted {s : Settings} {first : Row} (hfirst : first ∈ t.rows) {cell : Cell}
    (hcell : cell ∈ first.cells) {w : Text}
    (hw : w = UpdateFirewalls.remoteServer s cell.text ∨ ∃ p ∈ cell, w = p.text) {column : Word}
    (hcolumn : column ∈ t.columns) : w ≠ UpdateFirewalls.remoteServer s column.text := by
  have hlisted := t.cells_listed first hfirst cell hcell
  rintro rfl
  rcases hw with hname | ⟨p, hp, hname⟩
  · have htext : column.text = cell.text := List.append_cancel_right hname
    match cell with
    | [] => exact column.ne_nil htext
    | [p] =>
      rw [Cell.text_single] at htext
      have hsame : column = p := Word.ext htext
      exact t.columns_roles column hcolumn (hsame ▸ hlisted p (by simp))
    | p :: q :: cell =>
      have hslash : '/' ∈ column.text := by
        rw [htext]
        exact Cell.slash_mem.mpr (by simp)
      exact column.not_mem (by decide) hslash
  · obtain ⟨entry, hentry, rfl⟩ := List.mem_map.mp (hlisted p hp)
    have hdot : '.' ∈ entry.1.text := by
      rw [← hname]
      exact List.mem_append_right _ (by simp)
    exact t.protocols_dotless entry hentry hdot

/-- **The scripts open the same ports exactly on a row without a single protocol.** -/
theorem same_ports_iff (groupExists : Text → Bool) (s : Settings) (groupFound : Bool) (t : Table)
    (r : Row) (hr : r ∈ t.rows) :
    SamePorts groupExists s groupFound t r ↔ ∀ cell ∈ r.cells, cell.length ≠ 1 := by
  obtain ⟨first, hfirst, hmisnamed⟩ := UpdateFirewalls.rules_misnamed groupExists s hr
  constructor
  · rintro ⟨hupdate, -⟩ cell hcell hlen
    obtain ⟨p, rfl⟩ := List.length_eq_one_iff.mp hlen
    rw [← map_snd_cells hr] at hcell
    obtain ⟨x, hx, hcell⟩ := List.mem_map.mp hcell
    obtain ⟨q, hq, -, hsource, -⟩ := (hupdate _ _).mpr ⟨x, hx, p, hcell, rfl, rfl⟩
    obtain ⟨y, hy, -, rfl⟩ := mem_singles.mp hq
    obtain ⟨-, column, hcolumn, w, hw, hname⟩ := hmisnamed y hy
    rw [hw] at hsource
    split at hsource
    · cases hsource
    · exact group_not_wanted hfirst hcolumn hname (List.of_mem_zip hx).1 (Source.group.inj hsource)
  · intro hnone
    have hwanted : ∀ groupOf source port, ¬ Wanted t r groupOf source port := by
      rintro groupOf source port ⟨x, hx, p, hcell, -⟩
      exact hnone x.2 (List.of_mem_zip hx).2 (by rw [hcell]; rfl)
    refine ⟨fun source port => iff_of_false ?_ (hwanted _ _ _),
      fun source port => iff_of_false ?_ (hwanted _ _ _)⟩
    · rintro ⟨q, hq, -⟩
      obtain ⟨x, hx, hslash, -⟩ := mem_singles.mp hq
      obtain ⟨⟨cell, hcell, hne, htext⟩, -⟩ := hmisnamed x hx
      rw [htext, Cell.slash_mem, not_le] at hslash
      have hpos := List.length_pos_iff.mpr hne
      exact hnone cell hcell (by omega)
    · rintro ⟨q, hq, hgroup, hsource, -⟩
      obtain ⟨x, hx, -, rfl⟩ := mem_singles.mp hq
      rw [CreateInstance.rules_row s groupFound hr (Table.not_misnamed hr)] at hx
      obtain ⟨y, hy, p, hp, -⟩ :=
        CreateInstance.mem_created.mp ⟨x, hx, hgroup, hsource, rfl⟩
      have hlen : y.2.length < 2 := by simpa using List.mem_takeWhile_imp hy
      have hpos := List.length_pos_of_mem hp
      exact hnone y.2 (List.of_mem_zip ((List.takeWhile_prefix _).subset hy)).2 (by omega)

theorem same_ports_iff_sample :
    SamePorts (fun _ => true) Sample.settings false Sample.table Sample.csRow ↔
      ∀ cell ∈ Sample.csRow.cells, cell.length ≠ 1 :=
  same_ports_iff (fun _ => true) Sample.settings false Sample.table Sample.csRow Sample.csRow_mem

/-- HTTPS is to be open to every address, and no rule of the script is. -/
theorem ports_of_update_differ : ¬ ∀ (groupExists : Text → Bool) (s : Settings) (groupFound : Bool)
    (t : Table) (r : Row), t.Known → r ∈ t.rows → SamePorts groupExists s groupFound t r := by
  intro h
  have hknown : Sample.table.Known := by
    unfold Table.Known
    decide
  have hsame := h (fun _ => true) Sample.settings false Sample.table Sample.csRow hknown
    Sample.csRow_mem
  obtain ⟨first, -, hmisnamed⟩ :=
    UpdateFirewalls.rules_misnamed (fun _ => true) Sample.settings Sample.csRow_mem
  obtain ⟨q, hq, -, hsource, -⟩ := (hsame.1 .address (portOf Sample.HTTPS.text)).mpr
    ⟨(Sample.ext, [Sample.HTTPS]), by decide, Sample.HTTPS, rfl, rfl, rfl⟩
  obtain ⟨x, hx, -, rfl⟩ := mem_singles.mp hq
  obtain ⟨-, column, -, w, hw, -⟩ := hmisnamed x hx
  rw [hsource] at hw
  cases hw

end Firewall
end TdsAdmin
