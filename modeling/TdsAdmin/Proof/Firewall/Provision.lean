import TdsAdmin.Proof.Firewall.Recorded

/-!
# Provisioning against the audit

`create_instance.sh` goes along a role's row with the columns beside it. An empty cell is passed
over, a cell with one protocol becomes a rule, and a cell with more than one ends the loop: the
script fails on its own message before it asks for anything (`rules_row`). A rule is for the group
of the column; `ext` was meant to be every address, but the test for it looks for a dot where the
script has just put a dash, so only a column that brings a dot of its own passes it.

The audit has neither trouble, and others of its own. It takes a role's row for something else when
the name starts like a heading or like `ext`, and the columns may come from such a row above. The
script in turn finds a line of the last section where that starts with the name of the role.
`agrees_iff` puts all of this together: on which rows the two mean the same.
-/

set_option autoImplicit false

namespace TdsAdmin
namespace Firewall

open Fields (Word Trimmed)

/-! ## One call -/

namespace CreateInstance

/-- Whom a rule for a column lets in. -/
def sourceOf (s : Settings) (server : Text) : Source :=
  if "ext.".toList <+: server then .address else .group (remoteServer s server)

theorem firstField_word (w : Word) : firstField w.text = w.text := by
  have hall : ∀ c ∈ w.text, (!(c == ' ' || c == '\t' || c == '\n')) = true := by
    intro c hc
    have hword : ∀ d : Char, Fields.isWordChar d = false → c ≠ d := by
      rintro d hd rfl
      exact w.not_mem hd hc
    simp [hword ' ' (by decide), hword '\t' (by decide), hword '\n' (by decide)]
  have hdrop : w.text.dropWhile (fun c => c == ' ' || c == '\t' || c == '\n') = w.text := by
    cases h : w.text with
    | nil => rfl
    | cons c v =>
      have hc := hall c (by rw [h]; simp)
      rw [List.dropWhile_cons_of_neg]
      simpa using hc
  rw [firstField, hdrop, List.takeWhile_eq_self_iff.mpr hall]

/-- `IFS` is a newline or a tab. -/
def IfsChar (ifs : Char) : Prop := ifs = '\n' ∨ ifs = '\t'

theorem words_word {ifs : Char} (h : IfsChar ifs) (w : Word) :
    Fields.words ifs w.text = [w.text] := by
  refine Fields.words_single w.ne_nil (w.not_mem ?_)
  rcases h with rfl | rfl <;> decide

theorem words_remoteServer {ifs : Char} (h : IfsChar ifs) (s : Settings) (c : Word) :
    Fields.words ifs (remoteServer s c.text) = [remoteServer s c.text] := by
  have hchar : Fields.isWordChar ifs = false ∧ ifs ≠ '-' ∧ ifs ≠ '.' := by
    rcases h with rfl | rfl <;> decide
  refine Fields.words_single ?_ ?_
  · simp [remoteServer, c.ne_nil]
  · simp only [remoteServer, List.mem_append, List.mem_cons, not_or]
    exact ⟨c.not_mem hchar.1, hchar.2.1, s.hostEnv.not_mem hchar.1, hchar.2.2,
      s.domain.not_mem hchar.1⟩

/-- The rule for a cell with one protocol. -/
def ruleFor (s : Settings) (port : Option Nat) (column p : Word) : Request :=
  ⟨s.sgName.text, p.text, setPort port p.text, sourceOf s column.text⟩

theorem addSecurityGroupIngress_words {ifs : Char} (h : IfsChar ifs) (s : Settings)
    (port : Option Nat) (c p : Word) :
    addSecurityGroupIngress port (Fields.words ifs s.sgName.text ++ Fields.words ifs p.text ++
      Fields.words ifs (remoteServer s c.text)) = (ruleFor s port c p, setPort port p.text) := by
  have hext : "ext.".toList <+: remoteServer s c.text ↔ "ext.".toList <+: c.text :=
    prefix_append (Or.inr ⟨'-', rfl, by decide⟩)
  rw [words_word h, words_word h, words_remoteServer h]
  simp only [addSecurityGroupIngress, List.cons_append, List.nil_append, List.getD_cons_zero,
    List.getD_cons_succ, firstField_word, ruleFor, sourceOf, hext]

/-! ## The loop -/

variable {s : Settings} {ifs : Char} {servers : List Text}

theorem openPorts_append_empty (k : Nat) : ∀ (port : Option Nat) (i : Nat) (cells : List Text),
    openPorts s ifs servers port i (cells ++ List.replicate k []) =
      openPorts s ifs servers port i cells
  | port, i, [] => by
    induction k generalizing i with
    | zero => rfl
    | succ k ih =>
      have hskip : openPorts s ifs servers port i ([] :: List.replicate k [])
          = openPorts s ifs servers port (i + 1) (List.replicate k []) := by simp [openPorts]
      exact hskip.trans (ih (i + 1))
  | port, i, t :: rest => by
    have ih := fun port => openPorts_append_empty k port (i + 1) rest
    rw [List.cons_append, openPorts, openPorts, ih]
    simp only [ih]

/-- The rules for the cells beside their columns: each cell with one protocol, as far as the first
with more. -/
def created (s : Settings) : Option Nat → List (Word × Cell) → List (Text × Request)
  | _, [] => []
  | port, (_, []) :: rest => created s port rest
  | port, (c, [p]) :: rest => (p.text, ruleFor s port c p) :: created s (setPort port p.text) rest
  | _, (_, _ :: _ :: _) :: _ => []

theorem openPorts_zip (h : IfsChar ifs) : ∀ {port : Option Nat} {i : Nat} {columns : List Word}
    {cells : List Cell}, cells.length = columns.length →
    servers.drop i = columns.map Word.text →
    openPorts s ifs servers port i (cells.map Cell.text) = created s port (columns.zip cells)
  | _, _, [], [], _, _ => rfl
  | _, _, [], _ :: _, hlen, _ => by simp at hlen
  | _, _, _ :: _, [], hlen, _ => by simp at hlen
  | port, i, c :: columns, cell :: cells, hlen, hdrop => by
    have hrest : servers.drop (i + 1) = columns.map Word.text := by
      rw [← List.drop_drop, hdrop]
      rfl
    have hserver : servers[i]? = some c.text := by
      have hhead := congrArg List.head? hdrop
      rw [List.head?_drop] at hhead
      exact hhead
    have ih := fun port : Option Nat =>
      @openPorts_zip h port (i + 1) columns cells (by simpa using hlen) hrest
    rw [List.map_cons, openPorts, hserver, List.zip_cons_cons]
    cases cell with
    | nil => exact (if_pos rfl).trans (ih port)
    | cons p cell =>
      rw [if_neg (mt Cell.text_eq_nil.mp (by simp))]
      cases cell with
      | nil =>
        dsimp only
        rw [Cell.text_single, if_neg (p.not_mem (by decide)), addSecurityGroupIngress_words h,
          created, ih]
      | cons q cell => exact if_pos (Cell.slash_mem.mpr (by simp))

/-! ## A row of the table -/

/-- `grep -v ^,,,`, and no empty line. -/
def kept (l : Text) : Bool := !",,,".toList.isPrefixOf l && !l.isEmpty

theorem firewall_text (t : RoleTable) : firewall t.text = t.tableLines.filter kept := by
  have h := t.firewallLines_text 0 ",,,".toList
  rw [List.drop_zero] at h
  exact h

theorem header_kept (t : RoleTable) : ∃ rest, firewall t.text = t.header :: rest := by
  obtain ⟨s, hs, -⟩ := line_cons "Prefix".toList ([] :: t.columns.map Word.text)
  have hkeep : kept t.header = true := by
    rw [RoleTable.header, hs]
    rfl
  rw [firewall_text, RoleTable.tableLines]
  exact ⟨_, List.filter_cons_of_pos hkeep⟩

/-- A line that starts with a name is kept. -/
theorem line_kept {c : Char} {l : Text} (hc : c ≠ ',') : kept (c :: l) = true := by
  simp [kept, List.isPrefixOf, hc.symm]

theorem ifsChar (groupFound : Bool) : IfsChar (if groupFound then '\t' else '\n') := by
  cases groupFound
  · exact Or.inl rfl
  · exact Or.inr rfl

end CreateInstance

/-- A line of the last section starts with the name of the role, and comes after the role's row. -/
def RoleTable.Misnamed (t : RoleTable) (r : Row) : Prop :=
  r.role.text = "Protocol".toList ∨ r.role ∈ t.protocols.map Prod.fst

instance (t : RoleTable) (r : Row) : Decidable (t.Misnamed r) :=
  inferInstanceAs (Decidable (_ ∨ _))

theorem Table.not_misnamed {t : Table} {r : Row} (hr : r ∈ t.rows) : ¬ t.Misnamed r := by
  intro h
  rcases h with h | h
  · exact t.roles_plain r hr (Or.inr (by rw [h]))
  · have hkeys := t.keys_nodup
    rw [List.nodup_append] at hkeys
    exact hkeys.2.2 _ (List.mem_map_of_mem hr) _ h rfl

namespace CreateInstance

/-- The row of a role is the last line that starts with its name. -/
theorem openPortsOf_named {t : RoleTable} {r : Row} (hr : r ∈ t.rows) (hnamed : ¬ t.Misnamed r) :
    openPortsOf r.role.text (firewall t.text) = Fields.readArray ',' r.text := by
  obtain ⟨above, below, hrows⟩ := List.append_of_mem hr
  obtain ⟨c, l, htext, hc⟩ := r.text_head
  have hnodup := t.roles_nodup
  rw [hrows, List.map_append, List.map_cons, List.nodup_append] at hnodup
  have hbelow : r.role ∉ below.map Row.role := (List.nodup_cons.mp hnodup.2.1).1
  have hsplit : t.tableLines = (t.header :: above.map Row.text) ++ r.text ::
      (below.map Row.text ++ t.separator :: t.protocolLines) := by
    rw [RoleTable.tableLines, hrows]
    simp
  have hkept : kept r.text = true := by
    rw [htext]
    exact line_kept hc
  rw [firewall_text, hsplit, List.filter_append, List.filter_cons_of_pos hkept]
  refine openPortsOf_last _ (read_line_head (Row.fields_plain (t.names_plain r hr))).symm ?_
  intro m hm
  -- below the row there are other roles, the row of commas and the last section
  rcases List.mem_append.mp (List.mem_filter.mp hm).1 with hm | hm
  · obtain ⟨q, hq, rfl⟩ := List.mem_map.mp hm
    have hqr : q ∈ t.rows := by
      rw [hrows]
      exact List.mem_append_right _ (List.mem_cons_of_mem r hq)
    rw [Row.text, Row.fields, read_line_head (Row.fields_plain (t.names_plain q hqr))]
    intro hrole
    exact hbelow (List.mem_map.mpr ⟨q, hq, Word.ext hrole.symm⟩)
  · rcases List.mem_cons.mp hm with rfl | hm
    · rw [RoleTable.separator, t.padded_head IsField.nil IsField.nil]
      exact r.role.ne_nil
    · obtain ⟨name, port, rfl, hname, hport, -, hcases⟩ := t.protocolLines_cases hm
      rw [t.padded_head hname hport]
      intro hrole
      refine hnamed ?_
      rcases hcases with rfl | ⟨p, hp, rfl⟩
      · exact Or.inl hrole
      · exact Or.inr (List.mem_map.mpr ⟨p, hp, Word.ext hrole.symm⟩)

/-- **What the script asks for on a role's row.** -/
theorem rules_row (s : Settings) (groupFound : Bool) {t : RoleTable} {r : Row} (hr : r ∈ t.rows)
    (hnamed : ¬ t.Misnamed r) :
    rules s groupFound r.role.text t.text = created s none (t.columns.zip r.cells) := by
  obtain ⟨lines, hfirst⟩ := header_kept t
  have hservers : (Fields.readArray ',' t.header).drop 2 = t.columns.map Word.text := by
    refine ((read_line (by simp) t.header_plain).drop 2).eq_of_full ?_
    intro f hf
    obtain ⟨c, -, rfl⟩ := List.mem_map.mp hf
    exact c.ne_nil
  obtain ⟨k, hk⟩ :=
    (read_line (by simp [Row.fields]) (Row.fields_plain (t.names_plain r hr))).drop 2
  have hcells : r.fields.drop 2 = r.cells.map Cell.text := rfl
  rw [rules, openPortsOf_named hr hnamed, hfirst, List.headD_cons, ← openPorts_append_empty k]
  change openPorts _ _ _ _ _ ((Fields.readArray ',' (line r.fields)).drop 2 ++ _) = _
  rw [← hk, hcells]
  exact openPorts_zip (ifsChar groupFound) (t.rows_full r hr) hservers

/-- A role whose row is hidden opens nothing: a line of the last section has no cells. -/
theorem rules_misnamed (s : Settings) (groupFound : Bool) {t : RoleTable} {r : Row}
    (hmis : t.Misnamed r) : rules s groupFound r.role.text t.text = [] := by
  have hline : ∃ m ∈ t.protocolLines, r.role.text = (Fields.readArray ',' m).headD [] := by
    rcases hmis with h | h
    · refine ⟨_, List.mem_cons_self, ?_⟩
      rw [t.padded_head (by decide) (by decide), h]
    · obtain ⟨p, hp, hrole⟩ := List.mem_map.mp h
      refine ⟨_, List.mem_cons_of_mem _ (List.mem_map_of_mem hp), ?_⟩
      rw [t.padded_head (Word.isField p.1) (t.ports_plain p hp), hrole]
  obtain ⟨m, hm, hhead⟩ := hline
  obtain ⟨name', port', hm', hname, -, hne, -⟩ := t.protocolLines_cases hm
  obtain ⟨c, l, htext, hc⟩ := line_head hne hname ([port'] ++ List.replicate t.columns.length [])
  have hsplit : t.tableLines = (t.header :: (t.rows.map Row.text ++ [t.separator])) ++
      t.protocolLines := by
    rw [RoleTable.tableLines]
    simp
  have hkept : m ∈ t.protocolLines.filter kept := by
    refine List.mem_filter.mpr ⟨hm, ?_⟩
    rw [hm']
    exact (congrArg kept htext).trans (line_kept hc)
  rw [rules, firewall_text, hsplit, List.filter_append]
  obtain ⟨l, hl, -, hfound⟩ := openPortsOf_below _ hkept hhead
  obtain ⟨name, port, rfl, hname, hport, -, -⟩ :=
    t.protocolLines_cases (List.mem_filter.mp hl).1
  have hplain : ∀ f ∈ [name, port] ++ List.replicate t.columns.length [], IsField f := by
    refine t.padded_plain [name, port] ?_
    simp [hname, hport]
  obtain ⟨k, hk⟩ := (read_line (List.cons_ne_nil _ _) hplain).drop 2
  rw [hfound, ← openPorts_append_empty k]
  have hcells : (Fields.readArray ',' (t.padded [name, port])).drop 2 ++ List.replicate k [] =
      List.replicate t.columns.length [] := hk.symm
  rw [hcells]
  exact openPorts_append_empty t.columns.length none 2 []

/-- What is asked for, as pairs: a rule for each protocol in front of the first cell with two. -/
theorem mem_created {s : Settings} {source : Source} {protocol : Text} :
    ∀ {port : Option Nat} {cells : List (Word × Cell)},
    (∃ x ∈ created s port cells,
      x.2.group = s.sgName.text ∧ x.2.source = source ∧ x.2.protocol = protocol) ↔
    ∃ x ∈ cells.takeWhile (fun x => x.2.length < 2), ∃ p ∈ x.2,
      source = sourceOf s x.1.text ∧ protocol = p.text
  | _, [] => by simp [created]
  -- an empty cell asks for nothing, one protocol for one rule, and at two the loop ends
  | port, (c, []) :: rest => by
    rw [created, List.takeWhile_cons_of_pos (by simp), mem_created]
    simp
  | port, (c, [p]) :: rest => by
    rw [created, List.takeWhile_cons_of_pos (by simp), List.exists_mem_cons_iff,
      List.exists_mem_cons_iff, mem_created]
    refine or_congr ?_ Iff.rfl
    simp only [ruleFor, List.mem_singleton, exists_eq_left, true_and]
    exact and_congr eq_comm eq_comm
  | _, (c, p :: q :: cell) :: rest => by
    rw [created, List.takeWhile_cons_of_neg (by simp)]
    simp

end CreateInstance

/-! ## The cells of a row -/

theorem map_fst_cells {t : RoleTable} {r : Row} (hr : r ∈ t.rows) :
    (t.columns.zip r.cells).map Prod.fst = t.columns :=
  List.map_fst_zip (t.rows_full r hr).ge

theorem map_snd_cells {t : RoleTable} {r : Row} (hr : r ∈ t.rows) :
    (t.columns.zip r.cells).map Prod.snd = r.cells :=
  List.map_snd_zip (t.rows_full r hr).le

theorem cell_of_column {t : RoleTable} {r : Row} (hr : r ∈ t.rows) {x y : Word × Cell}
    (hx : x ∈ t.columns.zip r.cells) (hy : y ∈ t.columns.zip r.cells) (h : x.1 = y.1) : x = y := by
  have hnodup : ((t.columns.zip r.cells).map Prod.fst).Nodup := by
    rw [map_fst_cells hr]
    exact t.columns_nodup
  exact List.inj_on_of_nodup_map hnodup hx hy h

/-! ## Agreement -/

/-- Whom the audit expects to be let in: the `ext` column stands for every address. -/
def expectedSource (s : Settings) (column : Text) : Source :=
  if column = "ext".toList then .address else .group (CreateInstance.remoteServer s column)

/-- An entry of the audit and a rule let in the same, whatever suffix the name of a group has. -/
def SameSource (s : Settings) (env entry : Text) (source : Source) : Prop :=
  ∃ column, entry = Audit.hostName env column ∧ source = expectedSource s column

/-- **The two scripts read the row the same way**: what one asks for on the role's group is what
the other records for the role. -/
structure Agrees (s : Settings) (groupFound : Bool) (env : Text) (t : RoleTable) (r : Row) :
    Prop where
  requested : ∀ x ∈ CreateInstance.rules s groupFound r.role.text t.text,
    x.2.group = s.sgName.text → ∃ entry, ⟨Audit.hostName env r.role.text, entry, x.2.protocol⟩ ∈
      (Audit.readFirewallRules env t.text).portsOpen ∧ SameSource s env entry x.2.source
  recorded : ∀ entry protocol, ⟨Audit.hostName env r.role.text, entry, protocol⟩ ∈
      (Audit.readFirewallRules env t.text).portsOpen →
    ∃ x ∈ CreateInstance.rules s groupFound r.role.text t.text,
      x.2.group = s.sgName.text ∧ x.2.protocol = protocol ∧ SameSource s env entry x.2.source

/-- A column for the outside: the one that is, and the ones that `ext.*` matches. -/
def IsExternal (column : Text) : Prop := column = "ext".toList ∨ "ext.".toList <+: column

/-- The cells in front of the first with several protocols, each with its column. -/
def Row.front (r : Row) (columns : List Word) : List (Word × Cell) :=
  (columns.zip r.cells).takeWhile fun x => x.2.length < 2

/-- The row is one that both scripts read alike. Where one of them has no row for the role, the
other may find no protocol to ask for or to record. Else the audit reads the cells under the names
of the columns, and every cell has one protocol at most, and none for the outside; or under the
cells of a row above that is named like the header, which then have to say the same. -/
def RoleTable.Readable (t : RoleTable) (r : Row) : Prop :=
  if t.Misnamed r then t.readUnder r = none ∨ ∀ cell ∈ r.cells, cell = []
  else match t.readUnder r with
    | none => ∀ x ∈ r.front t.columns, x.2 = []
    | some headers =>
        if headers = t.columns.map Word.text then
          (∀ cell ∈ r.cells, cell.length < 2) ∧
            ∀ x ∈ t.columns.zip r.cells, IsExternal x.1.text → x.2 = []
        else ∀ name p, (∃ x ∈ r.front t.columns, x.1.text = name ∧ p ∈ x.2) ↔
          ∃ x ∈ headers.zip r.cells, x.1 = name ∧ p ∈ x.2

/-! ### Sources -/

section
variable {s : Settings} {env : Text} {c : Word} {w : Text}

/-- The column that a rule was for is meant by the name above a cell. -/
def Meant (s : Settings) (c : Word) (w : Text) : Prop :=
  w ≠ [] ∧ CreateInstance.sourceOf s c.text = expectedSource s w

theorem expectedSource_nil (s : Settings) (c : Word) :
    CreateInstance.sourceOf s c.text ≠ expectedSource s [] := by
  intro h
  have hnil : expectedSource s [] = .group (CreateInstance.remoteServer s []) := if_neg (by decide)
  rw [hnil, CreateInstance.sourceOf] at h
  split at h
  · cases h
  · exact c.ne_nil (List.append_cancel_right (Source.group.inj h))

theorem meant_iff : Meant s c w ↔
    if w = "ext".toList then "ext.".toList <+: c.text
    else c.text = w ∧ ¬ "ext.".toList <+: w := by
  rw [Meant, CreateInstance.sourceOf, expectedSource]
  by_cases hw : w = "ext".toList
  · rw [if_pos hw, if_pos hw]
    subst hw
    split
    · exact iff_of_true ⟨by decide, rfl⟩ (by assumption)
    · exact iff_of_false (by simp) (by assumption)
  · rw [if_neg hw, if_neg hw]
    constructor
    · intro ⟨_, hsource⟩
      split at hsource
      · cases hsource
      · rename_i hdot
        have htext : c.text = w := List.append_cancel_right (Source.group.inj hsource)
        exact ⟨htext, htext ▸ hdot⟩
    · rintro ⟨rfl, hdot⟩
      rw [if_neg hdot]
      exact ⟨c.ne_nil, rfl⟩

/-- What the audit has for a cell is the source of a rule exactly if the column is meant. -/
theorem sameSource_iff {headers : List Text} {j : Nat} (hj : headers[j]? = some w) :
    SameSource s env (sourceAt env headers j) (CreateInstance.sourceOf s c.text) ↔
      Meant s c w := by
  constructor
  · rintro ⟨column, hentry, hsource⟩
    have hne : column ≠ [] := by
      rintro rfl
      exact expectedSource_nil s c hsource
    rw [sourceAt_iff hne, hj] at hentry
    cases hentry
    exact ⟨hne, hsource⟩
  · rintro ⟨hne, hsource⟩
    exact ⟨w, (sourceAt_iff hne).mpr hj, hsource⟩

end

/-! ### Pairs -/

namespace RoleTable

variable (t : RoleTable) (r : Row)

/-- The cells that are asked for, each with its column. -/
def asked : List (Word × Cell) := if t.Misnamed r then [] else r.front t.columns

/-- The cells that are recorded, each with the name above it. -/
def told : List (Text × Cell) :=
  match t.readUnder r with
  | none => []
  | some headers => headers.zip r.cells

variable {t r}

theorem mem_requested (s : Settings) (groupFound : Bool) (hr : r ∈ t.rows) {source : Source}
    {protocol : Text} :
    (∃ x ∈ CreateInstance.rules s groupFound r.role.text t.text,
      x.2.group = s.sgName.text ∧ x.2.source = source ∧ x.2.protocol = protocol) ↔
    ∃ x ∈ t.asked r, ∃ p ∈ x.2,
      source = CreateInstance.sourceOf s x.1.text ∧ protocol = p.text := by
  rw [asked]
  split
  · rename_i hmis
    rw [CreateInstance.rules_misnamed s groupFound hmis]
    simp
  · rename_i hnamed
    rw [CreateInstance.rules_row s groupFound hr hnamed, CreateInstance.mem_created, Row.front]

theorem header_length {headers : List Text} (h : t.readUnder r = some headers) :
    headers.length = t.columns.length := by
  rw [readUnder] at h
  split at h
  · cases h
  · rcases headerFrom_cases r h with heq | ⟨q, hq, rfl⟩
    · cases heq
      exact List.length_map _
    · rw [List.length_map, t.rows_full q hq]

/-- Below the row of another role that is named like the header, a cell stands under protocols. -/
theorem header_cell {headers : List Text} (h : t.readUnder r = some headers)
    (hother : headers ≠ t.columns.map Word.text) :
    ∃ q ∈ t.rows, headers = q.cells.map Cell.text := by
  rw [readUnder] at h
  split at h
  · cases h
  · refine (headerFrom_cases r h).resolve_left fun heq => hother ?_
    exact (Option.some.inj heq).symm

end RoleTable

variable {t : KnownTable} {r : Row}

theorem mem_told (env : Text) (hr : r ∈ t.rows) {entry protocol : Text} :
    (⟨Audit.hostName env r.role.text, entry, protocol⟩ ∈
      (Audit.readFirewallRules env t.text).portsOpen) ↔
    ∃ headers j w cell, t.readUnder r = some headers ∧ headers[j]? = some w ∧
      r.cells[j]? = some cell ∧ entry = sourceAt env headers j ∧ ∃ p ∈ cell, protocol = p.text := by
  rw [mem_recorded env hr, RoleTable.Recorded]
  constructor
  · rintro ⟨headers, j, cell, hunder, hcell, hentry, hp⟩
    have hlen : j < headers.length := by
      rw [RoleTable.header_length hunder, ← t.rows_full r hr]
      exact (List.getElem?_eq_some_iff.mp hcell).1
    exact ⟨headers, j, headers[j], cell, hunder, List.getElem?_eq_getElem hlen, hcell, hentry, hp⟩
  · rintro ⟨headers, j, w, cell, hunder, -, hcell, hentry, hp⟩
    exact ⟨headers, j, cell, hunder, hcell, hentry, hp⟩

theorem mem_told_iff {y : Text × Cell} : y ∈ t.told r ↔ ∃ (headers : List Text) (j : Nat),
    t.readUnder r = some headers ∧ headers[j]? = some y.1 ∧ r.cells[j]? = some y.2 := by
  rw [RoleTable.told]
  split
  · rename_i hnone
    simp [hnone]
  · rename_i headers hsome
    rw [hsome, List.mem_iff_getElem?]
    simp [List.getElem?_zip_eq_some]

/-- The scripts agree when what is asked for is meant, and what is recorded is asked for. -/
theorem agrees_pairs (s : Settings) (groupFound : Bool) (env : Text) (hr : r ∈ t.rows) :
    Agrees s groupFound env t.toRoleTable r ↔
      (∀ x ∈ t.asked r, ∀ p ∈ x.2, ∃ y ∈ t.told r, p ∈ y.2 ∧ Meant s x.1 y.1) ∧
      ∀ y ∈ t.told r, ∀ p ∈ y.2, ∃ x ∈ t.asked r, p ∈ x.2 ∧ Meant s x.1 y.1 := by
  constructor
  · intro h
    refine ⟨fun x hx p hp => ?_, fun y hy p hp => ?_⟩
    · obtain ⟨q, hq, hgroup, hsource, hprotocol⟩ :=
        (RoleTable.mem_requested s groupFound hr).mpr ⟨x, hx, p, hp, rfl, rfl⟩
      obtain ⟨entry, hentry, hsame⟩ := h.requested q hq hgroup
      obtain ⟨headers, j, w, cell, hunder, hj, hcell, rfl, p', hp', heq⟩ :=
        (mem_told env hr).mp hentry
      rw [hsource, sameSource_iff hj] at hsame
      have hsameWord : p = p' := Word.ext (hprotocol.symm.trans heq)
      exact ⟨(w, cell), mem_told_iff.mpr ⟨headers, j, hunder, hj, hcell⟩, hsameWord ▸ hp', hsame⟩
    · obtain ⟨headers, j, hunder, hj, hcell⟩ := mem_told_iff.mp hy
      obtain ⟨q, hq, hgroup, hprotocol, hsame⟩ := h.recorded (sourceAt env headers j) p.text
        ((mem_told env hr).mpr ⟨headers, j, y.1, y.2, hunder, hj, hcell, rfl, p, hp, rfl⟩)
      obtain ⟨x, hx, p', hp', hsource, heq⟩ :=
        (RoleTable.mem_requested s groupFound hr).mp ⟨q, hq, hgroup, rfl, hprotocol⟩
      rw [hsource, sameSource_iff hj] at hsame
      have hsameWord : p = p' := Word.ext heq
      exact ⟨x, hx, hsameWord ▸ hp', hsame⟩
  · rintro ⟨hasked, htold⟩
    refine ⟨fun q hq hgroup => ?_, fun entry protocol hentry => ?_⟩
    · obtain ⟨x, hx, p, hp, hsource, hprotocol⟩ :=
        (RoleTable.mem_requested s groupFound hr).mp ⟨q, hq, hgroup, rfl, rfl⟩
      obtain ⟨y, hy, hpy, hmeant⟩ := hasked x hx p hp
      obtain ⟨headers, j, hunder, hj, hcell⟩ := mem_told_iff.mp hy
      refine ⟨sourceAt env headers j, ?_, ?_⟩
      · exact (mem_told env hr).mpr
          ⟨headers, j, y.1, y.2, hunder, hj, hcell, rfl, p, hpy, hprotocol⟩
      · rw [hsource]
        exact (sameSource_iff hj).mpr hmeant
    · obtain ⟨headers, j, w, cell, hunder, hj, hcell, rfl, p, hp, rfl⟩ :=
        (mem_told env hr).mp hentry
      obtain ⟨x, hx, hpx, hmeant⟩ :=
        htold (w, cell) (mem_told_iff.mpr ⟨headers, j, hunder, hj, hcell⟩) p hp
      obtain ⟨q, hq, hgroup, hsource, hprotocol⟩ :=
        (RoleTable.mem_requested s groupFound hr).mpr ⟨x, hx, p, hpx, rfl, rfl⟩
      refine ⟨q, hq, hgroup, hprotocol, ?_⟩
      rw [hsource]
      exact (sameSource_iff hj).mpr hmeant

/-! ### Cells -/

theorem mem_front {columns : List Word} {x : Word × Cell} (hx : x ∈ r.front columns) :
    x ∈ columns.zip r.cells :=
  (List.takeWhile_prefix _).subset hx

/-- Under the names of the columns, the audit records each cell for its own. -/
theorem told_columns (h : t.readUnder r = some (t.columns.map Word.text)) :
    t.told r = (t.columns.zip r.cells).map fun x => (x.1.text, x.2) := by
  rw [RoleTable.told, h]
  exact List.zip_map_left

section
variable {s : Settings}

/-- A row that is read under the columns and agrees has no protocol for the outside. -/
theorem external_empty (hunder : t.readUnder r = some (t.columns.map Word.text))
    (htold : ∀ y ∈ t.told r, ∀ p ∈ y.2, ∃ x ∈ r.front t.columns, p ∈ x.2 ∧ Meant s x.1 y.1) :
    ∀ x ∈ t.columns.zip r.cells, IsExternal x.1.text → x.2 = [] := by
  rw [told_columns hunder, List.forall_mem_map] at htold
  -- a column that brings its own dot is taken for the outside, and is not
  have hdot : ∀ x ∈ t.columns.zip r.cells, ∀ p ∈ x.2, ¬ "ext.".toList <+: x.1.text := by
    intro x hx p hp hdot
    have hne : x.1.text ≠ "ext".toList := by
      intro heq
      rw [heq] at hdot
      exact absurd hdot (by decide)
    obtain ⟨y, -, -, hmeant⟩ := htold x hx p hp
    rw [meant_iff, if_neg hne] at hmeant
    exact hmeant.2 hdot
  intro x hx hexternal
  refine List.eq_nil_iff_forall_not_mem.mpr fun p hp => ?_
  rcases hexternal with hcolumn | hcolumn
  · -- a rule for every address could only come from such a column
    obtain ⟨y, hy, hpy, hmeant⟩ := htold x hx p hp
    rw [meant_iff, if_pos hcolumn] at hmeant
    exact hdot y (mem_front hy) p hpy hmeant
  · exact hdot x hx p hp hcolumn

/-- And no cell with several. -/
theorem cells_single (hr : r ∈ t.rows)
    (hunder : t.readUnder r = some (t.columns.map Word.text))
    (htold : ∀ y ∈ t.told r, ∀ p ∈ y.2, ∃ x ∈ r.front t.columns, p ∈ x.2 ∧ Meant s x.1 y.1) :
    ∀ cell ∈ r.cells, cell.length < 2 := by
  have houtside := external_empty hunder htold
  rw [told_columns hunder, List.forall_mem_map] at htold
  intro cell hcell
  rw [← map_snd_cells hr] at hcell
  obtain ⟨x, hx, rfl⟩ := List.mem_map.mp hcell
  by_cases hempty : x.2 = []
  · rw [hempty]
    exact Nat.zero_lt_two
  · obtain ⟨p, hp⟩ := List.exists_mem_of_ne_nil x.2 hempty
    have hinside : x.1.text ≠ "ext".toList := by
      intro heq
      rw [houtside x hx (Or.inl heq)] at hp
      cases hp
    obtain ⟨y, hy, -, hmeant⟩ := htold x hx p hp
    rw [meant_iff, if_neg hinside] at hmeant
    -- the rule for this column was asked for, so the loop got past this cell
    have hsame : y = x := cell_of_column hr (mem_front hy) hx (Word.ext hmeant.1)
    have hsingle := List.mem_takeWhile_imp hy
    rw [hsame] at hsingle
    exact of_decide_eq_true hsingle

theorem pairs_columns (hr : r ∈ t.rows) (hunder : t.readUnder r = some (t.columns.map Word.text)) :
    ((∀ x ∈ r.front t.columns, ∀ p ∈ x.2, ∃ y ∈ t.told r, p ∈ y.2 ∧ Meant s x.1 y.1) ∧
      ∀ y ∈ t.told r, ∀ p ∈ y.2, ∃ x ∈ r.front t.columns, p ∈ x.2 ∧ Meant s x.1 y.1) ↔
    (∀ cell ∈ r.cells, cell.length < 2) ∧
      ∀ x ∈ t.columns.zip r.cells, IsExternal x.1.text → x.2 = [] := by
  constructor
  · rintro ⟨-, htold⟩
    exact ⟨cells_single hr hunder htold, external_empty hunder htold⟩
  · rintro ⟨hsingle, houtside⟩
    have hall : r.front t.columns = t.columns.zip r.cells := by
      refine List.takeWhile_eq_self_iff.mpr fun x hx => ?_
      have hmem : x.2 ∈ r.cells := by
        rw [← map_snd_cells hr]
        exact List.mem_map_of_mem hx
      exact decide_eq_true (hsingle x.2 hmem)
    have hmeant : ∀ x ∈ t.columns.zip r.cells, ∀ p ∈ x.2, Meant s x.1 x.1.text := by
      intro x hx p hp
      have hinside : ¬ IsExternal x.1.text := by
        intro hexternal
        rw [houtside x hx hexternal] at hp
        cases hp
      rw [meant_iff, if_neg fun h => hinside (Or.inl h)]
      exact ⟨rfl, fun h => hinside (Or.inr h)⟩
    rw [hall, told_columns hunder, List.forall_mem_map]
    exact ⟨fun x hx p hp => ⟨_, List.mem_map_of_mem hx, hp, hmeant x hx p hp⟩,
      fun x hx p hp => ⟨x, hx, hp, hmeant x hx p hp⟩⟩

/-- Under a row of protocols, a name is meant when it is the column's own. -/
theorem meant_protocol {q : Row} (hq : q ∈ t.rows) {c : Word} {w : Text}
    (hw : w ∈ q.cells.map Cell.text) : Meant s c w ↔ c.text = w := by
  have hhead : w.head? ≠ some 'e' := by
    obtain ⟨cell, hcell, rfl⟩ := List.mem_map.mp hw
    cases cell with
    | nil => decide
    | cons p cell =>
      -- a header made of cells starts with a known protocol or is empty
      have hnames : ∀ w ∈ ports.map Prod.fst, w.head? ≠ some 'e' := by decide
      have hp := forall_known hnames (t.cells_known q hq _ hcell p List.mem_cons_self)
      rw [Cell.head_text]
      exact hp
  have hext : ∀ {u : Text}, "ext".toList <+: u → u.head? = some 'e' := by
    rintro _ ⟨u, rfl⟩
    rfl
  have hne : w ≠ "ext".toList := by
    rintro rfl
    exact hhead rfl
  have hdot : ¬ "ext.".toList <+: w := by
    rintro ⟨u, rfl⟩
    exact hhead rfl
  rw [meant_iff, if_neg hne]
  exact and_iff_left hdot

/-- Under such a row the scripts agree when they find the same pairs. -/
theorem pairs_protocols {headers : List Text} (hunder : t.readUnder r = some headers)
    (hother : headers ≠ t.columns.map Word.text) :
    ((∀ x ∈ r.front t.columns, ∀ p ∈ x.2, ∃ y ∈ t.told r, p ∈ y.2 ∧ Meant s x.1 y.1) ∧
      ∀ y ∈ t.told r, ∀ p ∈ y.2, ∃ x ∈ r.front t.columns, p ∈ x.2 ∧ Meant s x.1 y.1) ↔
    ∀ name p, (∃ x ∈ r.front t.columns, x.1.text = name ∧ p ∈ x.2) ↔
      ∃ x ∈ headers.zip r.cells, x.1 = name ∧ p ∈ x.2 := by
  obtain ⟨q, hq, hheaders⟩ := RoleTable.header_cell hunder hother
  have hmeant : ∀ y ∈ headers.zip r.cells, ∀ c : Word, Meant s c y.1 ↔ c.text = y.1 :=
    fun y hy c => meant_protocol hq (hheaders ▸ (List.of_mem_zip hy).1)
  have htold : t.told r = headers.zip r.cells := by
    rw [RoleTable.told, hunder]
  rw [htold]
  constructor
  · rintro ⟨hasked, htold⟩ name p
    constructor
    · rintro ⟨x, hx, rfl, hp⟩
      obtain ⟨y, hy, hpy, hsame⟩ := hasked x hx p hp
      exact ⟨y, hy, ((hmeant y hy x.1).mp hsame).symm, hpy⟩
    · rintro ⟨y, hy, rfl, hp⟩
      obtain ⟨x, hx, hpx, hsame⟩ := htold y hy p hp
      exact ⟨x, hx, (hmeant y hy x.1).mp hsame, hpx⟩
  · intro h
    refine ⟨fun x hx p hp => ?_, fun y hy p hp => ?_⟩
    · obtain ⟨y, hy, hname, hpy⟩ := (h x.1.text p).mp ⟨x, hx, rfl, hp⟩
      exact ⟨y, hy, hpy, (hmeant y hy x.1).mpr hname.symm⟩
    · obtain ⟨x, hx, hname, hpx⟩ := (h y.1 p).mpr ⟨y, hy, rfl, hp⟩
      exact ⟨x, hx, hpx, (hmeant y hy x.1).mpr hname⟩

end

/-- **The scripts agree on a row exactly when it is readable.** -/
theorem agrees_iff (s : Settings) (groupFound : Bool) (env : Text) (t : KnownTable) (r : Row)
    (hr : r ∈ t.rows) : Agrees s groupFound env t.toRoleTable r ↔ t.Readable r := by
  have hpairs := agrees_pairs s groupFound env hr
  rw [RoleTable.asked] at hpairs
  rw [hpairs, RoleTable.Readable]
  -- whose line the search finds, and then under which header the audit reads the row
  by_cases hmis : t.Misnamed r
  · rw [if_pos hmis, if_pos hmis]
    cases hunder : t.readUnder r with
    | none => simp [RoleTable.told, hunder]
    | some headers =>
      have hlen : headers.length = r.cells.length := by
        rw [RoleTable.header_length hunder, t.rows_full r hr]
      have hsnd : (headers.zip r.cells).map Prod.snd = r.cells := List.map_snd_zip hlen.ge
      have hcells : (∀ cell ∈ r.cells, cell = []) ↔ ∀ y ∈ headers.zip r.cells, y.2 = [] := by
        conv_lhs => rw [← hsnd, List.forall_mem_map]
      rw [or_iff_right (by simp), hcells]
      simp [RoleTable.told, hunder, List.eq_nil_iff_forall_not_mem]
  · rw [if_neg hmis, if_neg hmis]
    cases hunder : t.readUnder r with
    | none => simp [RoleTable.told, hunder, List.eq_nil_iff_forall_not_mem]
    | some headers =>
      dsimp only
      split
      · rename_i hcolumns
        exact pairs_columns hr (hcolumns ▸ hunder)
      · rename_i hother
        exact pairs_protocols hunder hother

/-! ## A table -/

/-- Every protocol in a cell is one that the scripts have a port for. -/
def Table.Known (t : Table) : Prop :=
  ∀ r ∈ t.rows, ∀ cell ∈ r.cells, ∀ p ∈ cell, (portOf p.text).isSome = true

namespace Sample

def cs : Word := ⟨"cs".toList, by decide⟩
def mail : Word := ⟨"mail".toList, by decide⟩
def ext : Word := ⟨"ext".toList, by decide⟩
def SSH : Word := ⟨"SSH".toList, by decide⟩
def HTTPS : Word := ⟨"HTTPS".toList, by decide⟩
def SSMTP : Word := ⟨"SSMTP".toList, by decide⟩

/-- The row of a server that the outside reaches over HTTPS. -/
def csRow : Row := ⟨cs, "Core Standards (CS)".toList, [[], [SSH], [HTTPS]]⟩

/-- Two servers and the outside. -/
def table : Table where
  preamble := [",\"This Server ->".toList, [], "Talks to these servers below".toList, "|".toList,
    "V\",Core Standards (CS)".toList]
  columns := [cs, mail, ext]
  rows := [csRow, ⟨mail, "Mail server".toList, [[SSMTP], [SSMTP, SSH], []]⟩]
  protocols := [(SSH, "22".toList), (HTTPS, "443".toList), (SSMTP, "10025".toList)]
  preamble_length := rfl
  preamble_lines := by decide
  columns_nodup := by decide
  roles_nodup := by decide
  keys_nodup := by decide
  columns_roles := by decide
  roles_plain := by decide
  protocols_dotless := by decide
  names_plain := by decide
  ports_plain := by decide
  rows_full := by decide
  cells_listed := by decide

def known : KnownTable :=
  { table.toRoleTable with
    cells_known := by decide
    protocols_known := by decide }

def settings : Settings :=
  ⟨⟨"sg-1".toList, by decide⟩, ⟨"dev".toList, by decide⟩, ⟨"opentestsystem.org".toList, by decide⟩⟩

theorem csRow_mem : csRow ∈ table.rows := by decide

end Sample

theorem agrees_iff_sample :
    Agrees Sample.settings false "dev".toList Sample.known.toRoleTable Sample.csRow ↔
      Sample.known.Readable Sample.csRow :=
  agrees_iff Sample.settings false "dev".toList Sample.known Sample.csRow Sample.csRow_mem

/-- The audit expects HTTPS to be open to every address, and the script opens it to a group. -/
theorem open_to_the_outside_differs : ¬ ∀ (s : Settings) (groupFound : Bool) (env : Text)
    (t : KnownTable) (r : Row), r ∈ t.rows → Agrees s groupFound env t.toRoleTable r := by
  intro h
  have hagrees := h Sample.settings false "dev".toList Sample.known Sample.csRow Sample.csRow_mem
  have hpairs := (agrees_pairs Sample.settings false "dev".toList Sample.csRow_mem).mp hagrees
  have hunder : Sample.known.readUnder Sample.csRow =
      some (Sample.known.columns.map Word.text) := by decide
  have hcell := external_empty hunder hpairs.2 (Sample.ext, [Sample.HTTPS]) (by decide)
    (Or.inl rfl)
  cases hcell

end Firewall
end TdsAdmin
