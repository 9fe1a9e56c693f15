import TdsAdmin.Firewall.Audit
import TdsAdmin.Proof.Firewall.Reading

/-!
# A line as the audit reads it

`read_firewall_rules` tells a line by what it starts with: two guards pass it over, two headings
set the flags, and any other line is cut into fields, which are taken for a row of the table, for a
row of the last section or for nothing. What the flags come to over a whole file is not the matter
of this file.
-/

set_option autoImplicit false

namespace TdsAdmin
namespace Firewall
namespace Audit

open Fields (Word Trimmed)

variable (env : Text)

/-! ## Cells -/

theorem openCells_append_empty (server : Text) (prefixes : List Text) (k : Nat) :
    ∀ (i : Nat) (cells : List Text),
      openCells server prefixes i (cells ++ List.replicate k []) = openCells server prefixes i cells
  | i, [] => by
    induction k generalizing i with
    | zero => rfl
    | succ k ih =>
      have hskip : openCells server prefixes i ([] :: List.replicate k [])
          = openCells server prefixes (i + 1) (List.replicate k []) := by simp [openCells]
      exact hskip.trans (ih (i + 1))
  | i, cell :: cells => by
    rw [List.cons_append, openCells, openCells_append_empty server prefixes k (i + 1) cells,
      openCells]

theorem split_cell (cell : Cell) (hne : cell ≠ []) :
    Fields.split '/' cell.text = cell.map Word.text := by
  refine Fields.split_full (by simpa using hne) ?_
  intro f hf
  obtain ⟨w, -, rfl⟩ := List.mem_map.mp hf
  exact ⟨w.ne_nil, w.not_mem (by decide)⟩

/-! ## One line -/

theorem prefix_newline {p l : Text} (hp : '\n' ∉ p) : p <+: l ++ ['\n'] ↔ p <+: l :=
  prefix_append (Or.inr ⟨'\n', rfl, hp⟩)

variable {env}

theorem readLine_ext {s : Rules} {l : Text} (h : "ext".toList <+: l) :
    readLine env s (l ++ ['\n']) = s := by
  rw [readLine, if_pos ((prefix_newline (by decide)).mpr h)]

theorem readLine_comma {s : Rules} {l : Text} (h : ",".toList <+: l) :
    readLine env s (l ++ ['\n']) = s := by
  rw [readLine]
  split
  · rfl
  · rw [if_pos ((prefix_newline (by decide)).mpr h)]

/-- A line that the two guards let through. -/
theorem readLine_pass {s : Rules} {l : Text} (hext : ¬ "ext".toList <+: l)
    (hcomma : ¬ ",".toList <+: l) : readLine env s (l ++ ['\n']) =
      if "Prefix".toList <+: l then
        { s with inPrefix := true, prefixes := (Fields.split ',' l).map (hostName env) }
      else if "Protocol".toList <+: l then { s with inProtocol := true, inPrefix := false }
      else protocolRow (prefixRow env s (Fields.split ',' l))
        (if s.inPrefix then qualifyServer env (Fields.split ',' l) else Fields.split ',' l) := by
  rw [readLine, if_neg (mt (prefix_newline (by decide)).mp hext),
    if_neg (mt (prefix_newline (by decide)).mp hcomma)]
  dsimp only
  rw [Text.chomp_append]

@[simp] theorem protocolRow_portsOpen (s : Rules) (rowElements : List Text) :
    (protocolRow s rowElements).portsOpen = s.portsOpen := by
  rw [protocolRow]
  split <;> rfl

@[simp] theorem protocolRow_inPrefix (s : Rules) (rowElements : List Text) :
    (protocolRow s rowElements).inPrefix = s.inPrefix := by
  rw [protocolRow]
  split <;> rfl

/-- A line that is not a heading: what its first field names is opened by the cells from the third
on, and is recorded with the second. -/
theorem readLine_fields {s : Rules} {name second : Text} {cells : List Text} (hne : name ≠ [])
    (hplain : ∀ f ∈ name :: second :: cells, ',' ∉ f) (hext : ¬ "ext".toList <+: name)
    (hprefixed : ¬ "Prefix".toList <+: name) (hprotocol : ¬ "Protocol".toList <+: name) :
    readLine env s (line (name :: second :: cells) ++ ['\n']) =
      { s with
        portsOpen := s.portsOpen ++
          if s.inPrefix then openCells (hostName env name) s.prefixes 2 cells else []
        protocolNumber := if s.inProtocol then
          (second, if s.inPrefix then hostName env name else name) :: s.protocolNumber
          else s.protocolNumber
        protocolName := if s.inProtocol then
          (if s.inPrefix then hostName env name else name, second) :: s.protocolName
          else s.protocolName } := by
  have hstart : ∀ {p : Text}, ',' ∉ p → (p <+: line (name :: second :: cells) ↔ p <+: name) :=
    fun hp => prefix_line hp _
  have hcomma : ¬ ",".toList <+: line (name :: second :: cells) := by
    obtain ⟨u, hu, -⟩ := line_cons name (second :: cells)
    rw [hu]
    cases name with
    | nil => exact absurd rfl hne
    | cons c w =>
      intro h
      have hc : ',' = c := (List.cons_prefix_cons.mp h).1
      exact hplain (c :: w) (by simp) (hc ▸ List.mem_cons_self)
  rw [readLine_pass (mt (hstart (by decide)).mp hext) hcomma,
    if_neg (mt (hstart (by decide)).mp hprefixed), if_neg (mt (hstart (by decide)).mp hprotocol)]
  have htrim : Trimmed (Fields.split ',' (line (name :: second :: cells)))
      (name :: second :: cells) := Fields.split_trimmed (by simp) hplain
  generalize Fields.split ',' (line (name :: second :: cells)) = fields at htrim
  obtain ⟨k, hk⟩ := htrim
  -- the first field is not empty, so `split` has kept it
  cases fields with
  | nil => exact absurd (List.eq_of_mem_replicate (hk ▸ List.mem_cons_self)) hne
  | cons f fields =>
    obtain ⟨rfl, hrest⟩ := List.cons.inj hk
    have hsecond : fields.getD 0 [] = second := by
      cases fields with
      | nil => exact (List.eq_of_mem_replicate (hrest ▸ List.mem_cons_self)).symm
      | cons g fields => exact (List.cons.inj hrest).1.symm
    have hcells : openCells (hostName env name) s.prefixes 2 (fields.drop 1)
        = openCells (hostName env name) s.prefixes 2 cells := by
      have hdrop : cells = fields.drop 1 ++ List.replicate (k - (1 - fields.length)) [] := by
        have hdrop := congrArg (List.drop 1) hrest
        simpa [List.drop_append, List.drop_replicate] using hdrop
      rw [hdrop, openCells_append_empty]
    rw [← hcells, ← hsecond]
    obtain ⟨inPrefix, inProtocol, prefixes, portsOpen, protocolNumber, protocolName⟩ := s
    cases inPrefix <;> cases inProtocol <;>
      simp [protocolRow, prefixRow, qualifyServer]

/-- What a line starts with whose first field is a heading. -/
theorem not_ext_comma {f : Text} (hf : f = "Prefix".toList ∨ f = "Protocol".toList)
    (fields : List Text) :
    ¬ "ext".toList <+: line (f :: fields) ∧ ¬ ",".toList <+: line (f :: fields) := by
  obtain ⟨u, hu, -⟩ := line_cons f fields
  have hhead : ∀ {p : Text}, p ≠ [] → p.head? ≠ some 'P' → ¬ p <+: line (f :: fields) := by
    intro p hp hP h
    obtain ⟨c, q, rfl⟩ := List.exists_cons_of_ne_nil hp
    rw [hu] at h
    rcases hf with rfl | rfl
    · exact hP (congrArg some (List.cons_prefix_cons.mp h).1)
    · exact hP (congrArg some (List.cons_prefix_cons.mp h).1)
  exact ⟨hhead (by decide) (by decide), hhead (by decide) (by decide)⟩

/-- The `Prefix` row sets the columns: they have names, so `split` has kept them. -/
theorem readLine_prefixRow {s : Rules} {title : Text} {columns : List Text}
    (hplain : ∀ f ∈ title :: columns, ',' ∉ f) (hne : ∀ c ∈ columns, c ≠ []) :
    ∃ prefixes, prefixes.drop 2 = columns.map (hostName env) ∧
      readLine env s (line ("Prefix".toList :: title :: columns) ++ ['\n'])
        = { s with inPrefix := true, prefixes := prefixes } := by
  obtain ⟨hext, hcomma⟩ := not_ext_comma (Or.inl rfl) (title :: columns)
  rw [readLine_pass hext hcomma, if_pos ((prefix_line (by decide) _).mpr (List.prefix_refl _))]
  refine ⟨_, ?_, rfl⟩
  have htrim : Trimmed (Fields.split ',' (line ("Prefix".toList :: title :: columns)))
      ("Prefix".toList :: title :: columns) := by
    refine Fields.split_trimmed (List.cons_ne_nil _ _) fun f hf => ?_
    rcases List.mem_cons.mp hf with rfl | hf
    · decide
    · exact hplain f hf
  rw [← List.map_drop, (htrim.drop 2).eq_of_full hne]
  rfl

theorem readLine_protocolRow {s : Rules} (fields : List Text) :
    readLine env s (line ("Protocol".toList :: fields) ++ ['\n'])
      = { s with inProtocol := true, inPrefix := false } := by
  have hstart : ∀ {p : Text}, ',' ∉ p →
      (p <+: line ("Protocol".toList :: fields) ↔ p <+: "Protocol".toList) :=
    fun hp => prefix_line hp _
  obtain ⟨hext, hcomma⟩ := not_ext_comma (Or.inr rfl) fields
  rw [readLine_pass hext hcomma, if_neg (mt (hstart (by decide)).mp (by decide)),
    if_pos ((hstart (by decide)).mpr (List.prefix_refl _))]

/-- Outside the table proper a line opens nothing, unless it is a `Prefix` row. -/
theorem readLine_outside {s : Rules} (hs : s.inPrefix = false) {l : Text}
    (hl : ¬ "Prefix".toList <+: l) :
    (readLine env s (l ++ ['\n'])).inPrefix = false ∧
      (readLine env s (l ++ ['\n'])).portsOpen = s.portsOpen := by
  by_cases hext : "ext".toList <+: l
  · rw [readLine_ext hext]
    exact ⟨hs, rfl⟩
  · by_cases hcomma : ",".toList <+: l
    · rw [readLine_comma hcomma]
      exact ⟨hs, rfl⟩
    · rw [readLine_pass hext hcomma, if_neg hl]
      split
      · exact ⟨rfl, rfl⟩
      · rw [prefixRow, hs]
        simp [hs]

theorem run_outside : ∀ {ls : List Text} {s : Rules}, s.inPrefix = false →
    (∀ l ∈ ls, ¬ "Prefix".toList <+: l) →
    ((ls.map (· ++ ['\n'])).foldl (readLine env) s).inPrefix = false ∧
      ((ls.map (· ++ ['\n'])).foldl (readLine env) s).portsOpen = s.portsOpen
  | [], _, hs, _ => ⟨hs, rfl⟩
  | l :: ls, s, hs, h => by
    obtain ⟨hstill, hopen⟩ := @readLine_outside env s hs l (h l (by simp))
    obtain ⟨hrun, hrun'⟩ := run_outside hstill fun m hm => h m (List.mem_cons_of_mem l hm)
    exact ⟨hrun, hrun'.trans hopen⟩

theorem hostName_injective {env v w : Text} (h : hostName env v = hostName env w) : v = w :=
  List.append_cancel_right h

end Audit
end Firewall
end TdsAdmin
