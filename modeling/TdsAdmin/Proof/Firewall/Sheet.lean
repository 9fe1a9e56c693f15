import TdsAdmin.Firewall.Sheet
import TdsAdmin.Lib.Datum
import TdsAdmin.Proof.Firewall.Audit

/-!
# A sheet as the audit reads it

Each line of a sheet is told by what it starts with, so the name of a server decides how its row is
read. The lemmas on one line say which of the five ways that is; a run of lines is then followed
twice, once for `%ports_open`, where the last header above a row matters (`mem_run`), and once for
`%protocol_name`, where only the flag of the last section does.
-/

set_option autoImplicit false

namespace TdsAdmin
namespace Firewall

open Audit

variable {env : Text}

/-! ## Keywords -/

theorem Keyword.of_append {f : Text} : Keyword (hostName env f) → Keyword f := by
  have hcut : ∀ {p : Text}, '.' ∉ p → p <+: hostName env f → p <+: f :=
    fun hp => (prefix_append (Or.inr ⟨'.', rfl, hp⟩)).mp
  intro h
  rcases h with h | h | h
  · exact Or.inl (hcut (by decide) h)
  · exact Or.inr (Or.inl (hcut (by decide) h))
  · exact Or.inr (Or.inr (hcut (by decide) h))

/-! ## Records -/

theorem Record.fields_plain (r : Record) :
    ∀ f ∈ r.name.text :: r.second.text :: r.rest.map Field.text, Plain f := by
  intro f hf
  rcases List.mem_cons.mp hf with rfl | hf
  · exact r.name.plain
  · rcases List.mem_cons.mp hf with rfl | hf
    · exact r.second.plain
    · obtain ⟨cell, -, rfl⟩ := List.mem_map.mp hf
      exact cell.plain

theorem Record.starts (r : Record) {p : Text} (hp : ',' ∉ p) : p <+: r.text ↔ p <+: r.name.text :=
  prefix_line hp _

theorem Record.keyword_iff (r : Record) : Keyword r.text ↔ Keyword r.name.text := by
  unfold Keyword
  rw [r.starts (by decide), r.starts (by decide), r.starts (by decide)]

theorem Record.not_comma (r : Record) : ¬ ",".toList <+: r.text := by
  obtain ⟨u, hu, -⟩ := line_cons r.name.text (r.second.text :: r.rest.map Field.text)
  rw [Record.text, hu]
  cases hname : r.name.text with
  | nil => exact absurd hname r.name.ne_nil
  | cons c w =>
    intro h
    have hc : ',' = c := (List.cons_prefix_cons.mp h).1
    exact (r.name.plain c (by rw [hname]; exact List.mem_cons_self)).1 hc.symm

/-! ## One row -/

/-- What a row opens that is not taken for a heading. -/
def opens (env : Text) (s : Rules) (r : Record) : List Opened :=
  if s.inPrefix then openCells (hostName env r.name.text) s.prefixes 2 (r.rest.map Field.text)
  else []

theorem read_comma {s : Rules} (rest : Text) : readLine env s (',' :: rest ++ ['\n']) = s :=
  readLine_comma ⟨rest, rfl⟩

theorem read_ext {s : Rules} {r : Record} (h : "ext".toList <+: r.name.text) :
    readLine env s (r.text ++ ['\n']) = s :=
  readLine_ext ((r.starts (by decide)).mpr h)

theorem not_ext {p name : Text} (hp : ['e'] <+: p → False) (hne : p ≠ []) (h : p <+: name) :
    ¬ "ext".toList <+: name := by
  intro hext
  obtain ⟨c, q, rfl⟩ := List.exists_cons_of_ne_nil hne
  obtain ⟨u, rfl⟩ := h
  have hc : 'e' = c := (List.cons_prefix_cons.mp hext).1
  exact hp ⟨q, by rw [hc]; rfl⟩

theorem ne_ext {p name : Text} (hp : ¬ p <+: "ext".toList) (h : p <+: name) :
    name ≠ "ext".toList := by
  intro hname
  exact hp (hname ▸ h)

theorem read_asHeader {s : Rules} {r : Record} (h : "Prefix".toList <+: r.name.text) :
    readLine env s (r.text ++ ['\n']) =
      { s with inPrefix := true, prefixes := (Fields.split ',' r.text).map (hostName env) } := by
  have hext : ¬ "ext".toList <+: r.name.text := not_ext (by decide) (by decide) h
  rw [readLine_pass (mt (r.starts (by decide)).mp hext) r.not_comma,
    if_pos ((r.starts (by decide)).mpr h)]

theorem read_asHeading {s : Rules} {r : Record} (h : "Protocol".toList <+: r.name.text) :
    readLine env s (r.text ++ ['\n']) = { s with inProtocol := true, inPrefix := false } := by
  have hext : ¬ "ext".toList <+: r.name.text := not_ext (by decide) (by decide) h
  have hheader : ¬ "Prefix".toList <+: r.name.text := by
    intro h'
    obtain h'' | h'' := List.prefix_or_prefix_of_prefix h h'
    · exact absurd h'' (by decide)
    · exact absurd h'' (by decide)
  rw [readLine_pass (mt (r.starts (by decide)).mp hext) r.not_comma,
    if_neg (mt (r.starts (by decide)).mp hheader), if_pos ((r.starts (by decide)).mpr h)]

theorem read_plain {s : Rules} {r : Record} (h : ¬ Keyword r.name.text) :
    readLine env s (r.text ++ ['\n']) =
      { s with
        portsOpen := s.portsOpen ++ opens env s r
        protocolNumber := if s.inProtocol then
          (r.second.text, if s.inPrefix then hostName env r.name.text else r.name.text) ::
            s.protocolNumber
          else s.protocolNumber
        protocolName := if s.inProtocol then
          (if s.inPrefix then hostName env r.name.text else r.name.text, r.second.text) ::
            s.protocolName
          else s.protocolName } :=
  readLine_fields r.name.ne_nil (fun f hf hc => (r.fields_plain f hf _ hc).1 rfl)
    (fun h' => h (Or.inl h')) (fun h' => h (Or.inr (Or.inl h'))) fun h' => h (Or.inr (Or.inr h'))

/-- The lines of a sheet one after the other. -/
def readLines (env : Text) (s : Rules) (ls : List Text) : Rules :=
  (ls.map (· ++ ['\n'])).foldl (readLine env) s

theorem readLines_append (s : Rules) (ls ms : List Text) :
    readLines env s (ls ++ ms) = readLines env (readLines env s ls) ms := by
  rw [readLines, List.map_append, List.foldl_append]
  rfl

/-- A property that every row keeps, the rows keep. -/
theorem readLines_keep {P : Rules → Prop} {es : List Entry} {s : Rules} (hs : P s)
    (h : ∀ r ∈ records es, ∀ s, P s → P (readLine env s (r.text ++ ['\n']))) :
    P (readLines env s (es.map Entry.text)) := by
  induction es generalizing s with
  | nil => exact hs
  | cons e es ih =>
    cases e with
    | record r =>
      have hr : P (readLine env s (r.text ++ ['\n'])) := h r List.mem_cons_self s hs
      exact ih hr fun q hq => h q (List.mem_cons_of_mem r hq)
    | comma rest oneLine =>
      have hskip : readLine env s (',' :: rest ++ ['\n']) = s := read_comma rest
      show P (readLines env (readLine env s (',' :: rest ++ ['\n'])) (es.map Entry.text))
      rw [hskip]
      exact ih hs h

/-! ## Cells -/

theorem mem_split {p cell : Text} (hp : p ≠ []) :
    p ∈ Fields.split '/' cell ↔ p ∈ cell.splitOn '/' := by
  obtain ⟨k, hk⟩ := Fields.trimmed_rdropWhile (cell.splitOn '/')
  constructor
  · intro h
    rw [hk]
    exact List.mem_append_left _ h
  · intro h
    rw [hk] at h
    rcases List.mem_append.mp h with h | h
    · exact h
    · exact absurd (List.eq_of_mem_replicate h) hp

theorem mem_openCells {server : Text} {prefixes : List Text} {o : Opened} :
    ∀ {i : Nat} {cells : List Text}, o ∈ openCells server prefixes i cells ↔
      o.server = server ∧ ∃ j cell, cells[j]? = some cell ∧
        o.source = prefixes.getD (i + j) [] ∧ o.protocol ∈ Fields.split '/' cell
  | i, [] => by
    constructor
    · intro h
      cases h
    · intro h
      obtain ⟨-, j, cell, hj, -⟩ := h
      cases hj
  | i, cell :: cells => by
    have hcell : (o ∈ if cell = [] then [] else
        (Fields.split '/' cell).map fun protocol => ⟨server, prefixes.getD i [], protocol⟩) ↔
        o.server = server ∧ o.source = prefixes.getD i [] ∧
          o.protocol ∈ Fields.split '/' cell := by
      by_cases hempty : cell = []
      · rw [if_pos hempty, hempty]
        -- an empty cell has no parts
        exact iff_of_false List.not_mem_nil fun h => List.not_mem_nil h.2.2
      · rw [if_neg hempty, List.mem_map]
        constructor
        · intro h
          obtain ⟨p, hp, rfl⟩ := h
          exact ⟨rfl, rfl, hp⟩
        · intro h
          obtain ⟨hserver, hsource, hp⟩ := h
          refine ⟨o.protocol, hp, ?_⟩
          rw [← hserver, ← hsource]
    rw [openCells, List.mem_append, hcell, mem_openCells]
    constructor
    · intro h
      rcases h with ⟨hserver, hsource, hp⟩ | ⟨hserver, j, c, hj, hsource, hp⟩
      · exact ⟨hserver, 0, cell, rfl, hsource, hp⟩
      · refine ⟨hserver, j + 1, c, hj, ?_, hp⟩
        rw [hsource, Nat.add_right_comm, Nat.add_assoc]
    · intro h
      obtain ⟨hserver, j, c, hj, hsource, hp⟩ := h
      cases j with
      | zero =>
        obtain rfl : cell = c := Option.some.inj hj
        exact Or.inl ⟨hserver, hsource, hp⟩
      | succ j =>
        refine Or.inr ⟨hserver, j, c, hj, ?_, hp⟩
        rw [hsource, Nat.add_right_comm, Nat.add_assoc]

/-! ## The columns in force -/

/-- The source that the script has for a cell, given the texts of the header above it. -/
def sourceAt (env : Text) (headers : List Text) (j : Nat) : Text :=
  ((headers.rdropWhile List.isEmpty).map (hostName env)).getD j []

theorem getElem?_trimmed {trimmed fields : List Text} (h : Fields.Trimmed trimmed fields)
    {w : Text} (hw : w ≠ []) (j : Nat) : trimmed[j]? = some w ↔ fields[j]? = some w := by
  obtain ⟨k, rfl⟩ := h
  rw [List.getElem?_append]
  split
  · rfl
  · rename_i hlong
    rw [List.getElem?_eq_none (Nat.le_of_not_lt hlong)]
    refine iff_of_false (by simp) fun hmem => ?_
    exact hw (List.eq_of_mem_replicate (List.mem_of_getElem? hmem))

/-- A name is the source of a cell exactly if it stands above the cell. -/
theorem sourceAt_iff {headers : List Text} {j : Nat} {w : Text} (hw : w ≠ []) :
    sourceAt env headers j = hostName env w ↔ headers[j]? = some w := by
  rw [← getElem?_trimmed (Fields.trimmed_rdropWhile headers) hw, sourceAt,
    List.getD_eq_getElem?_getD, List.getElem?_map]
  cases (headers.rdropWhile List.isEmpty)[j]? with
  | none =>
    refine iff_of_false (fun h => ?_) (by simp)
    exact absurd (congrArg List.length h) (by simp [hostName])
  | some header =>
    simp only [Option.map_some, Option.getD_some, Option.some.injEq]
    exact ⟨hostName_injective, fun h => by rw [h]⟩

/-- The script reads rows under this header, or reads none. -/
def InForce (env : Text) (headers : Option (List Text)) (s : Rules) : Prop :=
  match headers with
  | some headers =>
      s.inPrefix = true ∧ s.prefixes.drop 2 = (headers.rdropWhile List.isEmpty).map (hostName env)
  | none => s.inPrefix = false

/-- What a row opens under a header. -/
def Opens (env : Text) (x : Option (List Text) × Record) (o : Opened) : Prop :=
  ¬ Keyword x.2.name.text ∧ o.server = hostName env x.2.name.text ∧ ∃ headers j cell,
    x.1 = some headers ∧ x.2.rest[j]? = some cell ∧ o.source = sourceAt env headers j ∧
      o.protocol ∈ Fields.split '/' cell.text

theorem InForce.mem_opens {headers : Option (List Text)} {s : Rules} (hs : InForce env headers s)
    {r : Record} (hkey : ¬ Keyword r.name.text) {o : Opened} :
    o ∈ opens env s r ↔ Opens env (headers, r) o := by
  cases headers with
  | none =>
    rw [opens, if_neg (by rw [show s.inPrefix = false from hs]; exact Bool.false_ne_true)]
    refine iff_of_false List.not_mem_nil ?_
    rintro ⟨-, -, _, _, _, hnone, -⟩
    cases hnone
  | some headers =>
    obtain ⟨hin, hprefixes⟩ := hs
    have hsource : ∀ j, s.prefixes.getD (2 + j) [] = sourceAt env headers j := by
      intro j
      rw [sourceAt, ← hprefixes, List.getD_eq_getElem?_getD, List.getD_eq_getElem?_getD,
        List.getElem?_drop]
    rw [opens, if_pos hin, mem_openCells]
    constructor
    · intro ⟨hserver, j, cell, hj, hat, hp⟩
      rw [List.getElem?_map, Option.map_eq_some_iff] at hj
      obtain ⟨c, hc, rfl⟩ := hj
      exact ⟨hkey, hserver, headers, j, c, rfl, hc, hat.trans (hsource j), hp⟩
    · rintro ⟨-, hserver, _, j, cell, heq, hj, hat, hp⟩
      cases heq
      refine ⟨hserver, j, cell.text, ?_, hat.trans (hsource j).symm, hp⟩
      rw [List.getElem?_map, hj]
      rfl

theorem InForce.plain {headers : Option (List Text)} {s : Rules} (hs : InForce env headers s)
    {r : Record} (h : ¬ Keyword r.name.text) :
    InForce env headers (readLine env s (r.text ++ ['\n'])) := by
  rw [read_plain h]
  exact hs

/-- The fields of a row behind its name. -/
theorem drop_rdropWhile (a b : Text) (fields : List Text) :
    ((a :: b :: fields).rdropWhile List.isEmpty).drop 2 = fields.rdropWhile List.isEmpty := by
  induction fields using List.reverseRecOn with
  | nil =>
    have hlen := (List.rdropWhile_prefix List.isEmpty (l := [a, b])).length_le
    exact List.drop_eq_nil_of_le hlen
  | append_singleton fields f ih =>
    cases hf : f.isEmpty with
    | true =>
      rw [← List.cons_append, ← List.cons_append, List.rdropWhile_concat_pos _ _ _ hf, ih,
        List.rdropWhile_concat_pos _ _ _ hf]
    | false =>
      have hneg : ¬ f.isEmpty = true := by
        rw [hf]
        exact Bool.false_ne_true
      rw [← List.cons_append, ← List.cons_append, List.rdropWhile_concat_neg _ _ _ hneg,
        List.rdropWhile_concat_neg _ _ _ hneg]
      rfl

/-- A row named like the header brings its own cells into force. -/
theorem inForce_header {s : Rules} {r : Record} (h : "Prefix".toList <+: r.name.text) :
    InForce env (some (r.rest.map Field.text)) (readLine env s (r.text ++ ['\n'])) := by
  have hsplit : (r.text).splitOn ',' = r.name.text :: r.second.text :: r.rest.map Field.text :=
    List.splitOn_intercalate ',' (fun f hf hc => (r.fields_plain f hf _ hc).1 rfl)
      (List.cons_ne_nil _ _)
  rw [read_asHeader h]
  refine ⟨rfl, ?_⟩
  show ((Fields.split ',' r.text).map (hostName env)).drop 2 = _
  rw [Fields.split, hsplit, ← List.map_drop, drop_rdropWhile]

/-! ## The rows of the table -/

theorem mem_portsOpen_row {s : Rules} {r : Record} {o : Opened} :
    o ∈ (readLine env s (r.text ++ ['\n'])).portsOpen ↔
      o ∈ s.portsOpen ∨ ¬ Keyword r.name.text ∧ o ∈ opens env s r := by
  by_cases hkey : Keyword r.name.text
  · have hsame : (readLine env s (r.text ++ ['\n'])).portsOpen = s.portsOpen := by
      rcases hkey with h | h | h
      · rw [read_ext h]
      · rw [read_asHeader h]
      · rw [read_asHeading h]
    rw [hsame]
    exact ⟨Or.inl, fun h => h.elim id fun h' => absurd hkey h'.1⟩
  · rw [read_plain hkey]
    show o ∈ s.portsOpen ++ opens env s r ↔ _
    rw [List.mem_append]
    exact or_congr_right ⟨fun h => ⟨hkey, h⟩, And.right⟩

theorem prefix_apart {w name : Text} (h : w <+: name) (hlong : ¬ "Prefix".toList <+: w)
    (hshort : ¬ w <+: "Prefix".toList) : ¬ "Prefix".toList <+: name :=
  fun h' => (List.prefix_or_prefix_of_prefix h' h).elim hlong hshort

/-- The header in force below a row. -/
theorem InForce.below {headers : Option (List Text)} {s : Rules} (hs : InForce env headers s)
    (r : Record) : InForce env (headerBelow headers r.name.text (r.rest.map Field.text))
      (readLine env s (r.text ++ ['\n'])) := by
  unfold headerBelow
  by_cases hkey : Keyword r.name.text
  · rcases hkey with h | h | h
    · rw [read_ext h, if_neg (prefix_apart h (by decide) (by decide)),
        if_neg fun h' => not_ext (by decide) (by decide) h' h]
      exact hs
    · rw [if_pos h]
      exact inForce_header h
    · rw [if_neg (prefix_apart h (by decide) (by decide)), if_pos h, read_asHeading h]
      rfl
  · rw [if_neg fun h => hkey (Or.inr (Or.inl h)), if_neg fun h => hkey (Or.inr (Or.inr h))]
    exact hs.plain hkey

/-- **A row opens what stands in its cells, to the names in the header above it.** -/
theorem mem_run {o : Opened} : ∀ {es : List Entry} {headers : Option (List Text)} {s : Rules},
    InForce env headers s → (o ∈ (readLines env s (es.map Entry.text)).portsOpen ↔
      o ∈ s.portsOpen ∨ ∃ x ∈ underHeaders headers (records es), Opens env x o)
  | [], _, _, _ => by
    simp [readLines, records, underHeaders]
  | .comma rest oneLine :: es, headers, s, hs => by
    have hskip : readLine env s (',' :: rest ++ ['\n']) = s := read_comma rest
    show o ∈ (readLines env (readLine env s (',' :: rest ++ ['\n']))
      (es.map Entry.text)).portsOpen ↔ _
    rw [hskip]
    exact mem_run hs
  | .record r :: es, headers, s, hs => by
    have hrow : o ∈ (readLine env s (r.text ++ ['\n'])).portsOpen ↔
        o ∈ s.portsOpen ∨ Opens env (headers, r) o := by
      rw [mem_portsOpen_row]
      refine or_congr_right ⟨fun h => (hs.mem_opens h.1).mp h.2, fun h => ⟨h.1, ?_⟩⟩
      exact (hs.mem_opens h.1).mpr h
    show o ∈ (readLines env (readLine env s (r.text ++ ['\n'])) (es.map Entry.text)).portsOpen ↔
      o ∈ s.portsOpen ∨ ∃ x ∈ (headers, r) :: underHeaders _ (records es), Opens env x o
    rw [mem_run (hs.below r), hrow, List.exists_mem_cons_iff, or_assoc]

/-- The header above a row is that of the sheet or a row named like it. -/
theorem header_of_under {above : List Text} {r : Record} : ∀ {headers : Option (List Text)}
    {rs : List Record}, (some above, r) ∈ underHeaders headers rs → headers = some above ∨
      ∃ q ∈ rs, "Prefix".toList <+: q.name.text ∧ above = q.rest.map Field.text
  | _, [], h => by simp [underHeaders] at h
  | headers, q :: rs, h => by
    rcases List.mem_cons.mp h with heq | h
    · cases heq
      exact Or.inl rfl
    · rcases header_of_under h with heq | ⟨p, hp, hprefix, heq⟩
      · unfold headerBelow at heq
        split at heq
        · rename_i hprefix
          exact Or.inr ⟨q, List.mem_cons_self, hprefix, (Option.some.inj heq).symm⟩
        · split at heq
          · cases heq
          · exact Or.inl heq
      · exact Or.inr ⟨p, List.mem_cons_of_mem q hp, hprefix, heq⟩

theorem mem_of_under {x : Option (List Text) × Record} : ∀ {headers : Option (List Text)}
    {rs : List Record}, x ∈ underHeaders headers rs → x.2 ∈ rs
  | _, [], h => by simp [underHeaders] at h
  | _, q :: rs, h => by
    rcases List.mem_cons.mp h with rfl | h
    · exact List.mem_cons_self
    · exact List.mem_cons_of_mem q (mem_of_under h)

/-- Below a row that starts like the last section no server's row is left. -/
def SectionLast (rs : List Record) : Prop :=
  rs.Pairwise fun r q => "Protocol".toList <+: r.name.text → Keyword q.name.text

/-- So a server's row has a header above it. -/
theorem SectionLast.header_above {r : Record} : ∀ {headers : Option (List Text)}
    {rs : List Record}, headers ≠ none → SectionLast rs → (none, r) ∈ underHeaders headers rs →
    Keyword r.name.text
  | _, [], _, _, h => by simp [underHeaders] at h
  | headers, q :: rs, hsome, hlast, h => by
    obtain ⟨hbelow, hrest⟩ := List.pairwise_cons.mp hlast
    rcases List.mem_cons.mp h with heq | h
    · cases heq
      exact absurd rfl hsome
    · by_cases hprotocol : "Protocol".toList <+: q.name.text
      · exact hbelow r (mem_of_under h) hprotocol
      · refine SectionLast.header_above ?_ hrest h
        unfold headerBelow
        rw [if_neg hprotocol]
        split
        · exact Option.some_ne_none _
        · exact hsome

theorem exists_under {r : Record} : ∀ {headers : Option (List Text)} {rs : List Record}, r ∈ rs →
    ∃ above, (above, r) ∈ underHeaders headers rs
  | _, [], h => absurd h List.not_mem_nil
  | headers, q :: rs, h => by
    rcases List.mem_cons.mp h with rfl | h
    · exact ⟨headers, List.mem_cons_self⟩
    · obtain ⟨above, habove⟩ := exists_under h
      exact ⟨above, List.mem_cons_of_mem _ habove⟩

/-! ## The flag of the last section -/

theorem inProtocol_line {s : Rules} (l : Text) : (readLine env s (l ++ ['\n'])).inProtocol = true ↔
    s.inProtocol = true ∨ "Protocol".toList <+: l := by
  by_cases hext : "ext".toList <+: l
  · rw [readLine_ext hext]
    exact ⟨Or.inl, fun h => h.elim id fun h' => absurd hext (not_ext (by decide) (by decide) h')⟩
  · by_cases hcomma : ",".toList <+: l
    · rw [readLine_comma hcomma]
      refine ⟨Or.inl, fun h => h.elim id fun h' => ?_⟩
      obtain ⟨u, rfl⟩ := h'
      exact absurd (List.cons_prefix_cons.mp hcomma).1 (by decide)
    · rw [readLine_pass hext hcomma]
      split
      · rename_i hheader
        refine ⟨Or.inl, fun h => h.elim id fun h' => ?_⟩
        obtain h'' | h'' := List.prefix_or_prefix_of_prefix hheader h'
        · exact absurd h'' (by decide)
        · exact absurd h'' (by decide)
      · split
        · exact iff_of_true rfl (Or.inr ‹_›)
        · rename_i hprotocol
          rw [or_iff_left hprotocol]
          unfold protocolRow prefixRow
          cases s.inPrefix <;> cases hs : s.inProtocol <;> simp [hs]

theorem protocolName_skipped {s : Rules} {l : Text} (h : Skipped l) :
    (readLine env s (l ++ ['\n'])).protocolName = s.protocolName := by
  by_cases hext : "ext".toList <+: l
  · rw [readLine_ext hext]
  · by_cases hcomma : ",".toList <+: l
    · rw [readLine_comma hcomma]
    · rw [readLine_pass hext hcomma]
      split
      · rfl
      · rename_i hheader
        have hprotocol : "Protocol".toList <+: l :=
          ((h.resolve_left hcomma).resolve_left hext).resolve_left hheader
        rw [if_pos hprotocol]

theorem protocolName_recorded {s : Rules} (hs : s.inProtocol = true) {l : Text}
    (h : ¬ Skipped l) : ∃ x, (readLine env s (l ++ ['\n'])).protocolName = x :: s.protocolName := by
  rw [readLine_pass (fun h' => h (Or.inr (Or.inl h'))) fun h' => h (Or.inl h'),
    if_neg fun h' => h (Or.inr (Or.inr (Or.inl h'))),
    if_neg fun h' => h (Or.inr (Or.inr (Or.inr h')))]
  unfold protocolRow prefixRow
  cases s.inPrefix <;> simp [hs]

theorem protocolName_quiet {s : Rules} (hs : s.inProtocol = false) (l : Text) :
    (readLine env s (l ++ ['\n'])).protocolName = s.protocolName := by
  by_cases h : Skipped l
  · exact protocolName_skipped h
  · rw [readLine_pass (fun h' => h (Or.inr (Or.inl h'))) fun h' => h (Or.inl h'),
      if_neg fun h' => h (Or.inr (Or.inr (Or.inl h'))),
      if_neg fun h' => h (Or.inr (Or.inr (Or.inr h')))]
    unfold protocolRow prefixRow
    cases s.inPrefix <;> simp [hs]

theorem protocolName_suffix : ∀ (ls : List Text) (s : Rules),
    s.protocolName <:+ (readLines env s ls).protocolName
  | [], _ => List.suffix_refl _
  | l :: ls, s => by
    have hrest := protocolName_suffix ls (readLine env s (l ++ ['\n']))
    refine List.IsSuffix.trans ?_ hrest
    by_cases hs : s.inProtocol = true
    · by_cases h : Skipped l
      · rw [protocolName_skipped h]
      · obtain ⟨x, hx⟩ := @protocolName_recorded env s hs l h
        rw [hx]
        exact List.suffix_cons x _
    · rw [protocolName_quiet (Bool.not_eq_true _ ▸ hs)]

/-- Below a line that starts like the last section, the lines that are not skipped are recorded. -/
theorem run_skips : ∀ {ls : List Text} {s : Rules}, s.inProtocol = true →
    ((readLines env s ls).protocolName = s.protocolName ↔ ∀ m ∈ ls, Skipped m)
  | [], _, _ => iff_of_true rfl fun _ hm => by cases hm
  | l :: ls, s, hs => by
    have hnext : (readLine env s (l ++ ['\n'])).inProtocol = true :=
      (inProtocol_line l).mpr (Or.inl hs)
    show (readLines env (readLine env s (l ++ ['\n'])) ls).protocolName = _ ↔ _
    rw [List.forall_mem_cons]
    by_cases h : Skipped l
    · have ih := @run_skips ls _ hnext
      rw [protocolName_skipped h] at ih
      rw [ih, and_iff_right h]
    · refine iff_of_false ?_ fun h' => h h'.1
      intro heq
      obtain ⟨x, hx⟩ := @protocolName_recorded env s hs l h
      have hlen := (@protocolName_suffix env ls (readLine env s (l ++ ['\n']))).length_le
      rw [heq, hx] at hlen
      exact absurd hlen (Nat.not_succ_le_self _)

theorem run_apart : ∀ {ls : List Text} {s : Rules}, s.inProtocol = false →
    ((readLines env s ls).protocolName = s.protocolName ↔
      ls.Pairwise fun l m => "Protocol".toList <+: l → Skipped m)
  | [], _, _ => iff_of_true rfl List.Pairwise.nil
  | l :: ls, s, hs => by
    show (readLines env (readLine env s (l ++ ['\n'])) ls).protocolName = _ ↔ _
    have hquiet := @protocolName_quiet env s hs l
    rw [List.pairwise_cons]
    by_cases h : "Protocol".toList <+: l
    · have hnext : (readLine env s (l ++ ['\n'])).inProtocol = true :=
        (inProtocol_line l).mpr (Or.inr h)
      rw [← hquiet, run_skips hnext]
      refine ⟨fun hall => ⟨fun m hm _ => hall m hm, ?_⟩, fun hall m hm => hall.1 m hm h⟩
      exact List.pairwise_of_forall_mem_list fun _ _ m hm _ => hall m hm
    · have hnext : (readLine env s (l ++ ['\n'])).inProtocol = false := by
        rw [← Bool.not_eq_true, inProtocol_line, hs]
        exact fun h' => h'.elim (fun h'' => by cases h'') h
      rw [← hquiet, run_apart hnext]
      exact ⟨fun hall => ⟨fun m hm h' => absurd h' h, hall⟩, And.right⟩

/-! ## The section of the protocols -/

/-- No protocol named like a keyword is recorded. -/
theorem keys_plain {s : Rules} (es : List Entry) (hs : ∀ kv ∈ s.protocolName, ¬ Keyword kv.1) :
    ∀ kv ∈ (readLines env s (es.map Entry.text)).protocolName, ¬ Keyword kv.1 := by
  refine readLines_keep (P := fun s => ∀ kv ∈ s.protocolName, ¬ Keyword kv.1) hs ?_
  intro r _ s hs
  by_cases hkey : Keyword r.name.text
  · rw [protocolName_skipped (Or.inr (r.keyword_iff.mpr hkey))]
    exact hs
  · rw [read_plain hkey]
    show ∀ kv ∈ (if s.inProtocol then _ else _), _
    split
    · refine List.forall_mem_cons.mpr ⟨?_, hs⟩
      show ¬ Keyword (if s.inPrefix then hostName env r.name.text else r.name.text)
      split
      · exact mt Keyword.of_append hkey
      · exact hkey
    · exact hs

/-- What the script records of the section, the newest entry first. -/
def recordedPairs (es : List Entry) : List (Text × Text) :=
  ((records es).map fun p => (p.name.text, p.second.text)).reverse

theorem run_section : ∀ {es : List Entry} {s : Rules}, s.inPrefix = false → s.inProtocol = true →
    (∀ p ∈ records es, ¬ Keyword p.name.text) →
    (readLines env s (es.map Entry.text)).portsOpen = s.portsOpen ∧
      (readLines env s (es.map Entry.text)).protocolName = recordedPairs es ++ s.protocolName
  | [], _, _, _, _ => ⟨rfl, rfl⟩
  | .comma rest oneLine :: es, s, hin, hpro, hplain => by
    have hskip : readLine env s (',' :: rest ++ ['\n']) = s := read_comma rest
    show (readLines env (readLine env s (',' :: rest ++ ['\n']))
        (es.map Entry.text)).portsOpen = _ ∧
      (readLines env (readLine env s (',' :: rest ++ ['\n']))
        (es.map Entry.text)).protocolName = recordedPairs es ++ _
    rw [hskip]
    exact run_section hin hpro hplain
  | .record r :: es, s, hin, hpro, hplain => by
    obtain ⟨hr, hes⟩ := List.forall_mem_cons.mp hplain
    have hread := @read_plain env s r hr
    have hopens : opens env s r = [] := by
      rw [opens, hin]
      rfl
    obtain ⟨hports, hnames⟩ := @run_section es (readLine env s (r.text ++ ['\n']))
      (by rw [hread]; exact hin) (by rw [hread]; exact hpro) hes
    refine ⟨hports.trans ?_, hnames.trans ?_⟩
    · rw [hread]
      show s.portsOpen ++ opens env s r = s.portsOpen
      rw [hopens, List.append_nil]
    · rw [hread]
      show recordedPairs es ++ (if s.inProtocol then _ else _) = _
      rw [if_pos hpro, hin, recordedPairs, recordedPairs, records, List.map_cons,
        List.reverse_cons, List.append_assoc]
      rfl

/-! ## The whole sheet -/

namespace Sheet

variable (t : Sheet)

theorem entry_oneLine (e : Entry) : '\n' ∉ e.text := by
  cases e with
  | record r =>
    intro h
    rcases Fields.mem_intercalate h with h' | ⟨f, hf, hc⟩
    · exact absurd h' (by decide)
    · exact (r.fields_plain f hf _ hc).2 rfl
  | comma rest oneLine =>
    intro h
    rcases List.mem_cons.mp h with h' | h'
    · exact absurd h' (by decide)
    · exact oneLine h'

theorem header_plain : ∀ f ∈ t.title.text :: t.columns.map (·.text), Plain f := by
  intro f hf
  rcases List.mem_cons.mp hf with rfl | hf
  · exact t.title.plain
  · obtain ⟨c, -, rfl⟩ := List.mem_map.mp hf
    exact c.plain

theorem heading_oneLine {f : Text} (hf : '\n' ∉ f) {fields : List Text}
    (h : ∀ f ∈ fields, Plain f) : '\n' ∉ line (f :: fields) := by
  intro hmem
  rcases Fields.mem_intercalate hmem with h' | ⟨g, hg, hc⟩
  · exact absurd h' (by decide)
  · rcases List.mem_cons.mp hg with rfl | hg
    · exact hf hc
    · exact (h g hg _ hc).2 rfl

theorem aboveLines_oneLine : ∀ l ∈ t.aboveLines, '\n' ∉ l := by
  intro l hl
  rcases List.mem_append.mp hl with hl | hl
  · exact (t.preamble_lines l hl).1
  · rcases List.mem_cons.mp hl with rfl | hl
    · exact heading_oneLine (by decide) t.header_plain
    · obtain ⟨e, -, rfl⟩ := List.mem_map.mp hl
      exact entry_oneLine e

theorem sectionLines_oneLine : ∀ l ∈ t.sectionLines, '\n' ∉ l := by
  intro l hl
  rcases List.mem_cons.mp hl with rfl | hl
  · refine heading_oneLine (by decide) fun f hf => ?_
    obtain ⟨g, -, rfl⟩ := List.mem_map.mp hf
    exact g.plain
  · obtain ⟨e, -, rfl⟩ := List.mem_map.mp hl
    exact entry_oneLine e

theorem read_above : readFirewallRules env t.above = readLines env Rules.empty t.aboveLines := by
  rw [readFirewallRules, above, Text.lines_unlines t.aboveLines_oneLine]
  rfl

theorem read_text : readFirewallRules env t.text =
    readLines env (readFirewallRules env t.above) t.sectionLines := by
  have hlines : ∀ l ∈ t.aboveLines ++ t.sectionLines, '\n' ∉ l := by
    intro l hl
    exact (List.mem_append.mp hl).elim (t.aboveLines_oneLine l) (t.sectionLines_oneLine l)
  rw [read_above, ← readLines_append, readFirewallRules, text, Text.lines_unlines hlines]
  rfl

/-- Below the header its columns are in force, and nothing is open yet. -/
theorem read_header : ∃ s, InForce env (some (t.columns.map (·.text))) s ∧ s.portsOpen = [] ∧
    readFirewallRules env t.above = readLines env s (t.body.map Entry.text) := by
  obtain ⟨-, hports⟩ := @run_outside env t.preamble Rules.empty rfl
    fun l hl => (t.preamble_lines l hl).2
  obtain ⟨prefixes, hdrop, hread⟩ := @readLine_prefixRow env
    (readLines env Rules.empty t.preamble) t.title.text (t.columns.map (·.text))
    (fun f hf hc => (t.header_plain f hf _ hc).1 rfl) (by
      intro f hf
      obtain ⟨c, -, rfl⟩ := List.mem_map.mp hf
      exact c.ne_nil)
  refine ⟨{ readLines env Rules.empty t.preamble with inPrefix := true, prefixes := prefixes },
    ⟨rfl, ?_⟩, hports, ?_⟩
  · have hfull : (t.columns.map (·.text)).rdropWhile List.isEmpty = t.columns.map (·.text) := by
      rw [List.rdropWhile_eq_self_iff]
      intro hne hempty
      obtain ⟨c, -, hc⟩ := List.mem_map.mp (List.getLast_mem hne)
      rw [← hc] at hempty
      exact c.ne_nil (List.isEmpty_iff.mp hempty)
    show prefixes.drop 2 = _
    rw [hdrop, hfull]
  · rw [read_above, aboveLines, readLines_append]
    show readLines env (readLine env _ (t.header ++ ['\n'])) _ = _
    rw [header, hread]

/-- Below the heading of the last section, nothing more has been read. -/
theorem read_heading : ∃ s, s.inPrefix = false ∧ s.inProtocol = true ∧
    s.portsOpen = (readFirewallRules env t.above).portsOpen ∧
    s.protocolName = (readFirewallRules env t.above).protocolName ∧
    readFirewallRules env t.text = readLines env s (t.protocols.map Entry.text) := by
  refine ⟨{ readFirewallRules env t.above with inProtocol := true, inPrefix := false },
    rfl, rfl, rfl, rfl, ?_⟩
  rw [read_text]
  show readLines env (readLine env (readFirewallRules env t.above)
    (line ("Protocol".toList :: t.heading.map Field.text) ++ ['\n'])) _ = _
  rw [readLine_protocolRow]

/-- The condition on the lines above the section, on the rows of the table. -/
theorem sections_rows (h : t.aboveLines.Pairwise fun l m => "Protocol".toList <+: l → Skipped m) :
    SectionLast (records t.body) := by
  have hsub : ∀ es : List Entry, ((records es).map Record.text).Sublist (es.map Entry.text) := by
    intro es
    induction es with
    | nil => exact List.Sublist.slnil
    | cons e es ih =>
      cases e with
      | record r => exact ih.cons_cons r.text
      | comma rest oneLine => exact ih.cons _
  have hrows := List.pairwise_map.mp (List.Pairwise.sublist
    ((hsub t.body).trans ((List.sublist_cons_self _ _).trans (List.sublist_append_right _ _))) h)
  refine hrows.imp fun {r q} hrq hr => ?_
  have hq := hrq ((r.starts (by decide)).mpr hr)
  exact q.keyword_iff.mp (hq.resolve_left q.not_comma)

end Sheet

theorem names_paired {es : List Entry} :
    (∀ name port, (recordedPairs es).lookup name = some port ↔
      ∃ p ∈ records es, p.name.text = name ∧ p.second.text = port) ↔
    (records es).Pairwise fun p q => p.name.text = q.name.text → p.second.text = q.second.text := by
  have hmem : ∀ name port, (name, port) ∈ recordedPairs es ↔
      ∃ p ∈ records es, p.name.text = name ∧ p.second.text = port := by
    intro name port
    rw [recordedPairs, List.mem_reverse, List.mem_map]
    simp only [Prod.mk.injEq]
  simp only [← hmem]
  rw [Datum.lookup_eq_some_iff_mem, recordedPairs, List.pairwise_reverse, List.pairwise_map]
  refine List.Pairwise.iff fun p q => ?_
  exact ⟨fun h hkey => (h hkey.symm).symm, fun h hkey => (h hkey.symm).symm⟩

/-- Nothing above the section is recorded exactly if what follows a line that starts like it is
skipped. -/
theorem Sheet.above_apart_iff (t : Sheet) : (readFirewallRules env t.above).protocolName = [] ↔
    t.aboveLines.Pairwise fun l m => "Protocol".toList <+: l → Skipped m := by
  rw [t.read_above]
  exact @run_apart env t.aboveLines Rules.empty rfl

namespace ReadExactly

variable {t : Sheet}

/-- A protocol is recorded under its name, and nothing is under a keyword. -/
theorem protocols (h : ReadExactly env t) : ∀ p ∈ records t.protocols, ¬ Keyword p.name.text := by
  intro p hp
  obtain ⟨s, -, -, -, hnames, htext⟩ := @Sheet.read_heading env t
  have hkeys : ∀ kv ∈ (readFirewallRules env t.text).protocolName, ¬ Keyword kv.1 := by
    rw [htext]
    refine keys_plain t.protocols ?_
    rw [hnames, h.above_apart]
    exact fun _ hkv => by cases hkv
  have hlookup := (h.recorded p.name.text p.second.text).mpr ⟨p, hp, rfl, rfl⟩
  obtain ⟨l₁, l₂, hsplit, -⟩ := List.lookup_eq_some_iff.mp hlookup
  refine hkeys (p.name.text, p.second.text) ?_
  rw [hsplit]
  exact List.mem_append_right _ List.mem_cons_self

/-- What is opened is opened to a server that is not named like a keyword. -/
theorem opened_plain (h : ReadExactly env t) {server source protocol : Text} (hne : protocol ≠ [])
    (hallows : t.Allows env server source protocol) :
    ∃ x ∈ underHeaders (some (t.columns.map (·.text))) (records t.body),
      Opens env x ⟨server, source, protocol⟩ := by
  obtain ⟨s, hs, hnone, habove⟩ := @Sheet.read_header env t
  have hopen := (h.opened server source protocol hne).mpr hallows
  rw [h.section_apart, habove, mem_run hs, hnone] at hopen
  exact hopen.resolve_left List.not_mem_nil

/-- A row that says something is open has its server in `%ports_open`, where no keyword is. -/
theorem rows (h : ReadExactly env t) : ∀ r ∈ records t.body, r.name.text ≠ "ext".toList →
    Keyword r.name.text → ∀ x ∈ t.columns.zip r.rest, ∀ p ∈ x.2.text.splitOn '/', p = [] := by
  intro r hr hname hkey x hx p hp
  by_contra hne
  obtain ⟨y, -, hplain, hserver, -⟩ := h.opened_plain hne ⟨r, hr, hname, rfl, x, hx, rfl, hp⟩
  rw [← hostName_injective hserver] at hplain
  exact hplain hkey

/-- What is in a cell is opened to the name above it, so the sheet says so. -/
theorem headers (h : ReadExactly env t) : ∀ headers r, (some headers, r) ∈
      underHeaders (some (t.columns.map (·.text))) (records t.body) → ¬ Keyword r.name.text →
    ∀ (j : Nat) (cell : Field), r.rest[j]? = some cell → ∀ p ∈ cell.text.splitOn '/', p ≠ [] →
      ∃ source, headers[j]? = some source ∧ t.Names r.name.text source p := by
  intro headers r hx hkey j cell hj p hp hne
  obtain ⟨s, hs, hnone, habove⟩ := @Sheet.read_header env t
  have hopen : (⟨hostName env r.name.text, sourceAt env headers j, p⟩ : Opened) ∈
      (readFirewallRules env t.text).portsOpen := by
    rw [h.section_apart, habove, mem_run hs]
    exact Or.inr ⟨_, hx, hkey, rfl, headers, j, cell, rfl, hj, rfl, (mem_split hne).mpr hp⟩
  obtain ⟨q, hq, -, hserver, y, hy, hsource, hnamed⟩ := (h.opened _ _ p hne).mp hopen
  refine ⟨y.1.text, (sourceAt_iff y.1.ne_nil).mp hsource, q, hq, ?_, y, hy, rfl, hnamed⟩
  exact (hostName_injective hserver).symm

end ReadExactly

/-- A clear sheet is read as it stands. -/
theorem Sheet.Clear.allows_iff {t : Sheet} (h : t.Clear) {server source protocol : Text}
    (hne : protocol ≠ []) : (∃ x ∈ underHeaders (some (t.columns.map (·.text))) (records t.body),
      Opens env x ⟨server, source, protocol⟩) ↔ t.Allows env server source protocol := by
  constructor
  · rintro ⟨⟨_, r⟩, hx, hkey, hserver, headers, j, cell, rfl, hj, hsource, hp⟩
    obtain ⟨w, hw, q, hq, hname, y, hy, htext, hnamed⟩ :=
      h.headers headers r hx hkey j cell hj _ ((mem_split hne).mp hp) hne
    have hnext : q.name.text ≠ "ext".toList := by
      intro hext
      exact hkey (Or.inl (by rw [← hname, hext]))
    refine ⟨q, hq, hnext, by rw [hname]; exact hserver, y, hy, ?_, hnamed⟩
    rw [htext]
    exact hsource.trans ((sourceAt_iff (by rw [← htext]; exact y.1.ne_nil)).mpr hw)
  · rintro ⟨r, hr, hname, hserver, y, hy, hsource, hp⟩
    have hkey : ¬ Keyword r.name.text := fun hkey => hne (h.rows r hr hname hkey y hy _ hp)
    obtain ⟨j, hj⟩ := List.mem_iff_getElem?.mp hy
    obtain ⟨hcolumn, hcell⟩ := List.getElem?_zip_eq_some.mp hj
    obtain ⟨above, habove⟩ : ∃ above, (above, r) ∈ underHeaders (some (t.columns.map (·.text)))
        (records t.body) := exists_under hr
    cases above with
    | none =>
      exact absurd ((t.sections_rows h.sections).header_above (Option.some_ne_none _) habove) hkey
    | some above =>
      have hhere : above[j]? = some y.1.text := by
        rcases header_of_under habove with heq | ⟨q, hq, hprefix, heq⟩
        · rw [← Option.some.inj heq, List.getElem?_map, hcolumn]
          rfl
        · -- below a second header the cell would stand under the name of a column
          exfalso
          obtain ⟨w, hw, _, -, -, z, hz, htext, -⟩ :=
            h.headers above r habove hkey j y.2 hcell _ hp hne
          rw [heq, List.getElem?_map, Option.map_eq_some_iff] at hw
          obtain ⟨field, hfield, rfl⟩ := hw
          have hcol : '/' ∉ field.text := by
            rw [← htext]
            exact t.columns_whole _ (List.of_mem_zip hz).1
          have hblank := h.rows q hq (ne_ext (by decide) hprefix) (Or.inr (Or.inl hprefix))
            (y.1, field) (List.mem_iff_getElem?.mpr ⟨j, List.getElem?_zip_eq_some.mpr
              ⟨hcolumn, hfield⟩⟩) field.text (by
                rw [List.splitOn_eq_singleton hcol]
                exact List.mem_cons_self)
          exact z.1.ne_nil (htext.trans hblank)
      refine ⟨(some above, r), habove, hkey, hserver, above, j, y.2, rfl, hcell, ?_,
        (mem_split hne).mpr hp⟩
      rw [hsource]
      exact ((sourceAt_iff y.1.ne_nil).mpr hhere).symm

/-- **The script reads a sheet as it stands exactly when its names keep clear of the words that
the script looks for and no protocol has two ports.** -/
theorem readExactly_iff (env : Text) (t : Sheet) : ReadExactly env t ↔ t.Clear := by
  obtain ⟨s, hs, hnone, habove⟩ := @Sheet.read_header env t
  obtain ⟨s', hin, hpro, hports, hnames, htext⟩ := @Sheet.read_heading env t
  -- the section is read the same way in both directions
  have hsection : (∀ p ∈ records t.protocols, ¬ Keyword p.name.text) →
      (readFirewallRules env t.above).protocolName = [] →
      (readFirewallRules env t.text).portsOpen = (readFirewallRules env t.above).portsOpen ∧
        (readFirewallRules env t.text).protocolName = recordedPairs t.protocols := by
    intro hprotocols hnothing
    obtain ⟨hsame, hrecorded⟩ := @run_section env t.protocols s' hin hpro hprotocols
    rw [htext, hsame, hrecorded, hports, hnames, hnothing, List.append_nil]
    exact ⟨rfl, rfl⟩
  constructor
  · intro h
    refine ⟨h.rows, h.headers, t.above_apart_iff.mp h.above_apart, h.protocols, ?_⟩
    rw [← names_paired, ← (hsection h.protocols h.above_apart).2]
    exact h.recorded
  · intro h
    have hnothing := (@Sheet.above_apart_iff env t).mpr h.sections
    obtain ⟨hsame, hrecorded⟩ := hsection h.protocols hnothing
    refine ⟨?_, ?_, hnothing, hsame⟩
    · intro server source protocol hne
      rw [hsame, habove, mem_run hs, hnone, or_iff_right List.not_mem_nil, h.allows_iff hne]
    · rw [hrecorded]
      exact names_paired.mpr h.ports

/-! ## A server named like the External row -/

def externalDb : Record where
  name := ⟨⟨"external-db".toList, by decide⟩, by decide⟩
  second := ⟨[], by decide⟩
  rest := [⟨"SSH".toList, by decide⟩]

def externalSheet : Sheet where
  preamble := []
  title := ⟨[], by decide⟩
  columns := [⟨⟨"cs".toList, by decide⟩, by decide⟩]
  body :=
    [.record externalDb,
      .record ⟨⟨⟨"ext".toList, by decide⟩, by decide⟩, ⟨"External".toList, by decide⟩, []⟩,
      .comma ",".toList (by decide)]
  heading := [⟨"Port".toList, by decide⟩]
  protocols := [.record ⟨⟨⟨"SSH".toList, by decide⟩, by decide⟩, ⟨"22".toList, by decide⟩, []⟩]
  preamble_lines := by decide
  columns_whole := by decide

/-- The row of `external-db` opens `SSH` to `cs`, and the script has skipped it. -/
theorem external_row_lost : ¬ ReadExactly "dev".toList externalSheet := by
  intro h
  have hopen := (h.opened (hostName "dev".toList "external-db".toList)
    (hostName "dev".toList "cs".toList) "SSH".toList (by decide)).mpr
    ⟨externalDb, List.mem_cons_self, by decide, rfl, _, List.mem_cons_self, rfl, by decide⟩
  exact absurd hopen (by decide +kernel)

end Firewall
end TdsAdmin
