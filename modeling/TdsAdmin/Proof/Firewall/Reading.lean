import Mathlib.Data.List.Nodup
import TdsAdmin.Firewall.Provision
import TdsAdmin.Firewall.Table

/-!
# The table as the shell reads it

What the two shell scripts get out of `Table.text`: the lines they keep, the fields of a line,
and the row of a role. The fields come back less an empty one at the end, which is all that
`read -a` does to them (`read_line`); the row of a role is found because no other line of the
table starts with its name (`openPortsOf_row`).
-/

set_option autoImplicit false

namespace TdsAdmin
namespace Firewall

open Fields (Word readArray Trimmed mem_intercalate)

/-! ## Lines -/

theorem Word.isField (w : Word) : IsField w.text := by
  intro c hc
  refine ⟨?_, ?_, ?_⟩ <;> rintro rfl <;> exact w.not_mem (by decide) hc

theorem IsField.nil : IsField [] := by simp [IsField]

theorem Cell.isField (cell : Cell) : IsField cell.text := by
  intro c hc
  rcases mem_intercalate hc with rfl | ⟨f, hf, hc⟩
  · decide
  · obtain ⟨w, -, rfl⟩ := List.mem_map.mp hf
    exact Word.isField w c hc

@[simp] theorem Cell.text_single (p : Word) : Cell.text [p] = p.text := by
  simp [Cell.text]

theorem Cell.text_more (p q : Word) (cell : Cell) :
    Cell.text (p :: q :: cell) = p.text ++ '/' :: Cell.text (q :: cell) := by
  simp [Cell.text, List.intercalate_cons_cons]

theorem Cell.text_eq_nil {cell : Cell} : cell.text = [] ↔ cell = [] := by
  constructor
  · intro h
    match cell with
    | [] => rfl
    | [p] => exact absurd ((Cell.text_single p).symm.trans h) p.ne_nil
    | p :: q :: cell =>
      rw [Cell.text_more] at h
      exact absurd (List.append_eq_nil_iff.mp h).1 p.ne_nil
  · rintro rfl
    rfl

theorem Cell.head_text (p : Word) (cell : Cell) : (Cell.text (p :: cell)).head? = p.text.head? := by
  cases cell with
  | nil => rw [Cell.text_single]
  | cons q cell => rw [Cell.text_more, List.head?_append_of_ne_nil _ p.ne_nil]

/-- A slash is in the cells with two protocols. -/
theorem Cell.slash_mem {cell : Cell} : '/' ∈ cell.text ↔ 2 ≤ cell.length := by
  match cell with
  | [] => simp [Cell.text]
  | [p] =>
    rw [Cell.text_single]
    exact iff_of_false (p.not_mem (by decide)) (by simp)
  | p :: q :: cell =>
    rw [Cell.text_more]
    simp

/-- A line is its first field and what a comma separates from it. -/
theorem line_cons (f : Text) (fields : List Text) : ∃ s, line (f :: fields) = f ++ s ∧
    (s = [] ∨ s.head? = some ',') := by
  cases fields with
  | nil => exact ⟨[], by simp [line], Or.inl rfl⟩
  | cons g fields =>
    exact ⟨',' :: [','].intercalate (g :: fields), by simp [line, List.intercalate_cons_cons],
      Or.inr rfl⟩

/-- A line whose first field is not empty starts with that, and not with a comma. -/
theorem line_head {f : Text} (hne : f ≠ []) (hf : IsField f) (fields : List Text) :
    ∃ c s, line (f :: fields) = c :: s ∧ c ≠ ',' := by
  obtain ⟨s, hs, -⟩ := line_cons f fields
  cases f with
  | nil => exact absurd rfl hne
  | cons c w => exact ⟨c, w ++ s, hs, (hf c List.mem_cons_self).1⟩

theorem Row.text_head (r : Row) : ∃ c s, r.text = c :: s ∧ c ≠ ',' :=
  line_head r.role.ne_nil (Word.isField r.role) _

theorem newline_not_mem_line {fields : List Text} (h : ∀ f ∈ fields, IsField f) :
    '\n' ∉ line fields := by
  intro hmem
  rcases mem_intercalate hmem with h' | ⟨f, hf, hc⟩
  · exact absurd h' (by decide)
  · exact (h f hf _ hc).2.1 rfl

theorem prefix_append {p f s : Text} (hs : s = [] ∨ ∃ c, s.head? = some c ∧ c ∉ p) :
    p <+: f ++ s ↔ p <+: f := by
  constructor
  · intro h
    rcases List.prefix_or_prefix_of_prefix h (List.prefix_append f s) with h' | ⟨u, rfl⟩
    · exact h'
    · have hu : u <+: s := (List.prefix_append_right_inj f).mp h
      cases u with
      | nil => simp
      | cons d u =>
        rcases hs with rfl | ⟨c, hc, hp⟩
        · simp at hu
        · cases s with
          | nil => simp at hc
          | cons e s =>
            simp only [List.head?_cons, Option.some.injEq] at hc
            obtain ⟨rfl, -⟩ := List.cons_prefix_cons.mp hu
            exact absurd (by simp [hc]) hp
  · exact fun h => h.trans (List.prefix_append f s)

/-- What a line starts with, its first field does. -/
theorem prefix_line {p f : Text} (hp : ',' ∉ p) (fields : List Text) :
    p <+: line (f :: fields) ↔ p <+: f := by
  obtain ⟨s, hs, hcomma⟩ := line_cons f fields
  rw [hs]
  refine prefix_append ?_
  rcases hcomma with rfl | h
  · exact Or.inl rfl
  · exact Or.inr ⟨',', h, hp⟩

/-- **The fields of a line, as `read -a` finds them.** -/
theorem read_line {fields : List Text} (hne : fields ≠ []) (h : ∀ f ∈ fields, IsField f) :
    Trimmed (readArray ',' (line fields)) fields := by
  refine Fields.readArray_trimmed hne (fun f hf hc => (h f hf _ hc).1 rfl) ?_
  intro hmem
  rcases mem_intercalate hmem with h' | ⟨f, hf, hc⟩
  · exact absurd h' (by decide)
  · exact (h f hf _ hc).2.2 rfl

/-- An empty first field may be dropped with the others, and is none. -/
theorem read_line_head {f : Text} {fields : List Text} (h : ∀ g ∈ f :: fields, IsField g) :
    (readArray ',' (line (f :: fields))).headD [] = f := by
  obtain ⟨k, hk⟩ := read_line (by simp) h
  cases htrim : readArray ',' (line (f :: fields)) with
  | nil =>
    rw [htrim, List.nil_append] at hk
    exact (List.eq_of_mem_replicate (hk ▸ List.mem_cons_self)).symm
  | cons g trimmed =>
    rw [htrim] at hk
    exact (List.cons.inj hk).1.symm

/-! ## The lines of a table -/

variable (t : RoleTable)

theorem Row.fields_plain {r : Row} (hname : IsField r.name) : ∀ f ∈ r.fields, IsField f := by
  intro f hf
  simp only [Row.fields, List.mem_cons, List.mem_map] at hf
  rcases hf with rfl | rfl | ⟨cell, -, rfl⟩
  · exact Word.isField r.role
  · exact hname
  · exact Cell.isField cell

theorem RoleTable.padded_plain (fields : List Text) (h : ∀ f ∈ fields, IsField f) :
    ∀ f ∈ fields ++ List.replicate t.columns.length [], IsField f := by
  intro f hf
  rcases List.mem_append.mp hf with hf | hf
  · exact h f hf
  · rw [List.eq_of_mem_replicate hf]
    exact IsField.nil

theorem RoleTable.header_plain :
    ∀ f ∈ "Prefix".toList :: [] :: t.columns.map Word.text, IsField f := by
  intro f hf
  simp only [List.mem_cons, List.mem_map] at hf
  rcases hf with rfl | rfl | ⟨c, -, rfl⟩
  · exact (by decide : IsField "Prefix".toList)
  · exact IsField.nil
  · exact Word.isField c

/-- The lines below the heading, by what they start with. -/
theorem RoleTable.tableLines_cases {l : Text} (h : l ∈ t.tableLines) :
    ∃ f fields, l = line (f :: fields) ∧ (∀ g ∈ f :: fields, IsField g) ∧
      (l = t.header ∧ f = "Prefix".toList ∨ (∃ r ∈ t.rows, l = r.text ∧ f = r.role.text) ∨
        l = t.separator ∧ f = [] ∨ f = "Protocol".toList ∨ ∃ p ∈ t.protocols, f = p.1.text) := by
  simp only [RoleTable.tableLines, RoleTable.protocolLines, List.mem_cons, List.mem_append,
    List.mem_map] at h
  rcases h with rfl | ⟨r, hr, rfl⟩ | rfl | rfl | ⟨p, hp, rfl⟩
  · exact ⟨_, _, rfl, t.header_plain, Or.inl ⟨rfl, rfl⟩⟩
  · exact ⟨_, _, rfl, Row.fields_plain (t.names_plain r hr),
      Or.inr (Or.inl ⟨r, hr, rfl, rfl⟩)⟩
  · refine ⟨_, _, rfl, t.padded_plain [[], []] ?_,
      Or.inr (Or.inr (Or.inl ⟨rfl, rfl⟩))⟩
    simp [IsField.nil]
  · refine ⟨_, _, rfl, t.padded_plain ["Protocol".toList, "Port".toList] ?_,
      Or.inr (Or.inr (Or.inr (Or.inl rfl)))⟩
    decide
  · refine ⟨_, _, rfl, t.padded_plain [p.1.text, p.2] ?_,
      Or.inr (Or.inr (Or.inr (Or.inr ⟨p, hp, rfl⟩)))⟩
    intro f hf
    simp only [List.mem_cons, List.not_mem_nil, or_false] at hf
    rcases hf with rfl | rfl
    · exact Word.isField p.1
    · exact t.ports_plain p hp

theorem RoleTable.lines_text :
    Text.lines t.text = (t.preamble ++ t.tableLines).map (· ++ ['\n']) := by
  refine Text.lines_unlines ?_
  intro l hl
  rcases List.mem_append.mp hl with hl | hl
  · exact (t.preamble_lines l hl).1
  · obtain ⟨f, fields, rfl, hplain, -⟩ := t.tableLines_cases hl
    exact newline_not_mem_line hplain

/-- What the shell keeps of the table, from the `Prefix` row or from a later line on. -/
theorem RoleTable.firewallLines_text (n : Nat) (dropped : Text) :
    firewallLines (5 + n) dropped t.text =
      (t.tableLines.drop n).filter fun l => !dropped.isPrefixOf l && !l.isEmpty := by
  have hdrop : (t.preamble ++ t.tableLines).drop (5 + n) = t.tableLines.drop n := by
    rw [← t.preamble_length, List.drop_append, List.drop_eq_nil_of_le (by omega)]
    simp
  have hchomp : ∀ l : Text, (Text.chomp ∘ (· ++ ['\n'])) l = l := Text.chomp_append
  rw [firewallLines, t.lines_text, ← List.map_drop, hdrop, List.map_map,
    List.map_congr_left fun l _ => hchomp l, List.map_id']

/-! ## The row of a role -/

/-- A scan for the last match finds one when there is one. -/
theorem openPortsOf_cases (ec2Role : Text) : ∀ (firewall : List Text) (openPorts : List Text),
    (∀ l ∈ firewall, ec2Role ≠ (readArray ',' l).headD []) ∨
    ∃ l ∈ firewall, ec2Role = (readArray ',' l).headD [] ∧
      firewall.foldl (fun openPorts t =>
        if ec2Role = (readArray ',' t).headD [] then readArray ',' t else openPorts) openPorts
        = readArray ',' l
  | [], _ => Or.inl (by simp)
  | l :: firewall, openPorts => by
    rw [List.foldl_cons]
    by_cases hl : ec2Role = (readArray ',' l).headD []
    · rw [if_pos hl]
      right
      rcases openPortsOf_cases ec2Role firewall (readArray ',' l) with h | ⟨m, hm, hrole, hfold⟩
      · refine ⟨l, by simp, hl, ?_⟩
        clear hl
        induction firewall with
        | nil => rfl
        | cons m firewall ih =>
          rw [List.foldl_cons, if_neg (h m (by simp))]
          exact ih fun n hn => h n (List.mem_cons_of_mem m hn)
      · exact ⟨m, List.mem_cons_of_mem l hm, hrole, hfold⟩
    · rw [if_neg hl]
      rcases openPortsOf_cases ec2Role firewall openPorts with h | ⟨m, hm, hrole, hfold⟩
      · left
        intro m hm
        rcases List.mem_cons.mp hm with rfl | hm
        · exact hl
        · exact h m hm
      · exact Or.inr ⟨m, List.mem_cons_of_mem l hm, hrole, hfold⟩

/-- The last line that starts with the role is the one. -/
theorem openPortsOf_last {ec2Role l : Text} (above : List Text) {below : List Text}
    (hl : ec2Role = (readArray ',' l).headD [])
    (hbelow : ∀ m ∈ below, ec2Role ≠ (readArray ',' m).headD []) :
    openPortsOf ec2Role (above ++ l :: below) = readArray ',' l := by
  rw [openPortsOf, List.foldl_append, List.foldl_cons, if_pos hl]
  clear hl
  induction below with
  | nil => rfl
  | cons m below ih =>
    rw [List.foldl_cons, if_neg (hbelow m List.mem_cons_self)]
    exact ih fun n hn => hbelow n (List.mem_cons_of_mem m hn)

/-- A line below a role's row hides it. -/
theorem openPortsOf_below {ec2Role m : Text} (above : List Text) {below : List Text}
    (hm : m ∈ below) (hhead : ec2Role = (readArray ',' m).headD []) :
    ∃ l ∈ below, ec2Role = (readArray ',' l).headD [] ∧
      openPortsOf ec2Role (above ++ below) = readArray ',' l := by
  rw [openPortsOf, List.foldl_append]
  rcases openPortsOf_cases ec2Role below (openPortsOf ec2Role above) with h | h
  · exact absurd hhead (h m hm)
  · exact h

/-- The lines of the last section. -/
theorem RoleTable.protocolLines_cases {l : Text} (h : l ∈ t.protocolLines) :
    ∃ name port, l = t.padded [name, port] ∧ IsField name ∧ IsField port ∧ name ≠ [] ∧
      (name = "Protocol".toList ∨ ∃ p ∈ t.protocols, name = p.1.text) := by
  rcases List.mem_cons.mp h with rfl | h
  · exact ⟨_, _, rfl, by decide, by decide, by decide, Or.inl rfl⟩
  · obtain ⟨p, hp, rfl⟩ := List.mem_map.mp h
    exact ⟨_, _, rfl, Word.isField p.1, t.ports_plain p hp, p.1.ne_nil, Or.inr ⟨p, hp, rfl⟩⟩

theorem RoleTable.padded_head {name port : Text} (hname : IsField name) (hport : IsField port) :
    (readArray ',' (t.padded [name, port])).headD [] = name := by
  refine read_line_head (t.padded_plain [name, port] ?_)
  intro f hf
  simp only [List.mem_cons, List.not_mem_nil, or_false] at hf
  rcases hf with rfl | rfl
  · exact hname
  · exact hport

variable {t : Table}

/-- A role's line is the only one that starts with its name. -/
theorem Table.line_of_role {r : Row} (hr : r ∈ t.rows) {l : Text} (hl : l ∈ t.tableLines)
    (hhead : r.role.text = (readArray ',' l).headD []) : l = r.text := by
  obtain ⟨f, fields, rfl, hplain, hcases⟩ := t.tableLines_cases hl
  have hkeys := t.keys_nodup
  rw [List.nodup_append] at hkeys
  obtain ⟨hroles, -, hdisjoint⟩ := hkeys
  rw [read_line_head hplain] at hhead
  rcases hcases with ⟨-, h⟩ | ⟨r', hr', htext, h⟩ | ⟨-, h⟩ | h | ⟨p, hp, h⟩
  · exact absurd (Or.inl (by rw [hhead, h])) (t.roles_plain r hr)
  · have hrole : r'.role = r.role := Word.ext (h ▸ hhead.symm)
    have hrow : r' = r := List.inj_on_of_nodup_map hroles hr' hr hrole
    rw [htext, hrow]
  · exact absurd (hhead.trans h) r.role.ne_nil
  · exact absurd (Or.inr (by rw [hhead, h])) (t.roles_plain r hr)
  · have hrole : r.role = p.1 := Word.ext (hhead.trans h)
    exact absurd rfl (hdisjoint _ (List.mem_map_of_mem hr) _ (hrole ▸ List.mem_map_of_mem hp))

/-- **The row that a script finds for a role is the role's row.** -/
theorem openPortsOf_row {r : Row} (hr : r ∈ t.rows) {firewall : List Text}
    (hsub : ∀ l ∈ firewall, l ∈ t.tableLines) (hmem : r.text ∈ firewall) :
    openPortsOf r.role.text firewall = readArray ',' r.text := by
  have hhead : r.role.text = (readArray ',' r.text).headD [] :=
    (read_line_head (Row.fields_plain (t.names_plain r hr))).symm
  rcases openPortsOf_cases r.role.text firewall [] with h | ⟨l, hl, hrole, hfold⟩
  · exact absurd hhead (h _ hmem)
  · rw [openPortsOf, hfold, Table.line_of_role hr (hsub l hl) hrole]

end Firewall
end TdsAdmin
