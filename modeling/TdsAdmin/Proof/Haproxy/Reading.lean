import TdsAdmin.Haproxy.Config
import TdsAdmin.Haproxy.Backends
import TdsAdmin.Lib.Fields

/-!
# How haproxy reads what is generated

A line of plain words is read as these words (`readArgs_words`), and each kind of line that is
generated does one thing to the section that it is in. What is read from nothing is read the same
below other sections (`readLines_below`), since nothing but a new section can come first.
-/

set_option autoImplicit false

namespace TdsAdmin
namespace Haproxy

/-! ## Words -/

/-- A character that stands for itself in a word. -/
def isPlain (c : Char) : Bool := c != '\\' && c != '#' && !isSpace c

def Plain (word : Text) : Prop := ∀ c ∈ word, isPlain c = true

/-- What comes back when it is written between blanks. -/
def isWord (word : Text) : Bool := !word.isEmpty && word.all isPlain

theorem isWord_iff {word : Text} : isWord word = true ↔ Plain word ∧ word ≠ [] := by
  rw [isWord, Bool.and_eq_true, Bool.not_eq_true', List.isEmpty_eq_false_iff, List.all_eq_true,
    and_comm]
  rfl

/-- The characters that a backslash changes. -/
def Escapes (c : Char) (line : Text) : Prop :=
  c = '\\' ∧ ∃ d ∈ [' ', '\\', '#', 'r', 'n', 't'], ∃ rest, line = d :: rest

theorem readArgs_cons {c : Char} {line : Text} (h : ¬ Escapes c line) (word : Text) :
    readArgs word (c :: line) =
      if c = '#' ∨ c = '\n' ∨ c = '\r' then endWord word
      else if isSpace c then endWord word ++ readArgs [] line
      else readArgs (word ++ [c]) line := by
  rw [readArgs]
  all_goals
    intro rest hc hline
    exact h ⟨hc, _, by simp, rest, hline⟩

theorem readArgs_plain {c : Char} (hc : isPlain c = true) (word line : Text) :
    readArgs word (c :: line) = readArgs (word ++ [c]) line := by
  have hslash : c ≠ '\\' := by
    intro h
    subst h
    cases hc
  have hend : ¬ (c = '#' ∨ c = '\n' ∨ c = '\r') := by
    intro h
    rcases h with rfl | rfl | rfl <;> cases hc
  have hspace : isSpace c = false := by
    simp [isPlain] at hc
    exact hc.2
  rw [readArgs_cons (fun h => hslash h.1), if_neg hend, hspace, if_neg Bool.false_ne_true]

theorem readArgs_append {word : Text} (h : Plain word) (line : Text) : ∀ before : Text,
    readArgs before (word ++ line) = readArgs (before ++ word) line := by
  induction word with
  | nil => simp
  | cons c word ih =>
    intro before
    rw [List.cons_append, readArgs_plain (h c List.mem_cons_self),
      ih fun d hd => h d (List.mem_cons_of_mem c hd), List.append_assoc, List.singleton_append]

theorem readArgs_space (word line : Text) :
    readArgs word (' ' :: line) = endWord word ++ readArgs [] line := by
  have hnot : ¬ Escapes ' ' line := fun h => absurd h.1 (by simp)
  rw [readArgs_cons hnot, if_neg (by simp), if_pos (by simp [isSpace, Markup.isSpace])]

theorem not_escapes_newline {c : Char} {line : Text} (h : ¬ Escapes c line) :
    ¬ Escapes c (line ++ ['\n']) := by
  intro ⟨hc, d, hd, rest, hline⟩
  cases line with
  | nil =>
    injection hline with hnewline
    subst hnewline
    simp at hd
  | cons e line =>
    injection hline with he
    exact h ⟨hc, d, hd, line, by rw [he]⟩

/-- The newline at the end of a line is not part of it. -/
theorem readArgs_newline (word line : Text) : readArgs word (line ++ ['\n']) =
    readArgs word line := by
  fun_induction readArgs word line with
  | case1 word => simp [readArgs]
  | case2 word line ih => simpa [readArgs] using ih
  | case3 word line ih => simpa [readArgs] using ih
  | case4 word line ih => simpa [readArgs] using ih
  | case5 word line ih => simpa [readArgs] using ih
  | case6 word line ih => simpa [readArgs] using ih
  | case7 word line ih => simpa [readArgs] using ih
  | case8 word c line h1 h2 h3 h4 h5 h6 hend =>
    have hnot : ¬ Escapes c line := by simp_all [Escapes]
    rw [List.cons_append, readArgs_cons (not_escapes_newline hnot), if_pos hend]
  | case9 word c line h1 h2 h3 h4 h5 h6 hend hspace ih =>
    have hnot : ¬ Escapes c line := by simp_all [Escapes]
    rw [List.cons_append, readArgs_cons (not_escapes_newline hnot), if_neg hend, if_pos hspace, ih]
  | case10 word c line h1 h2 h3 h4 h5 h6 hend hspace ih =>
    have hnot : ¬ Escapes c line := by simp_all [Escapes]
    rw [List.cons_append, readArgs_cons (not_escapes_newline hnot), if_neg hend, if_neg hspace, ih]

theorem readArgs_indent (n : Nat) (line : Text) :
    readArgs [] (indent n ++ line) = readArgs [] line := by
  induction n with
  | zero => rfl
  | succ n ih =>
    rw [indent, List.replicate_succ, List.cons_append, readArgs_space]
    exact ih

/-- Words with one blank between them. -/
def spaced (words : List Text) : Text := [' '].intercalate words

/-- **A line of plain words is read as these words.** -/
theorem readArgs_words {words : List Text} (h : ∀ w ∈ words, isWord w = true) (n : Nat) :
    readArgs [] (indent n ++ spaced words) = words := by
  rw [readArgs_indent]
  induction words with
  | nil => rfl
  | cons w words ih =>
    have hw := isWord_iff.mp (h w List.mem_cons_self)
    have hrest := ih fun v hv => h v (List.mem_cons_of_mem w hv)
    have hend : endWord w = [w] := if_neg hw.2
    cases words with
    | nil =>
      have hspaced : spaced [w] = w ++ [] := by simp [spaced]
      rw [hspaced, readArgs_append hw.1, List.nil_append, readArgs, hend]
    | cons v words =>
      have hspaced : spaced (w :: v :: words) = w ++ ' ' :: spaced (v :: words) := by
        simp [spaced]
      rw [hspaced, readArgs_append hw.1, List.nil_append, readArgs_space, hend, hrest,
        List.singleton_append]

theorem isWord_of_isName {name : Text} (h : isName name = true) : isWord name = true := by
  apply isWord_iff.mpr
  rw [isName, Bool.and_eq_true, Bool.not_eq_true', List.isEmpty_eq_false_iff] at h
  refine ⟨fun c hc => ?_, h.1⟩
  have hchar := List.all_eq_true.mp h.2 c hc
  have hnot : c ≠ '\\' ∧ c ≠ '#' ∧ isSpace c = false := by
    refine ⟨?_, ?_, ?_⟩
    · intro heq
      subst heq
      cases hchar
    · intro heq
      subst heq
      cases hchar
    · by_contra hspace
      simp only [isSpace, Markup.isSpace, Bool.not_eq_false, Bool.or_eq_true, beq_iff_eq] at hspace
      rcases hspace with ((((heq | heq) | heq) | heq) | heq) | heq <;> subst heq <;> cases hchar
  simp [isPlain, hnot]

theorem newline_not_mem {words : List Text} (h : ∀ w ∈ words, isWord w = true) (n : Nat) :
    '\n' ∉ indent n ++ spaced words := by
  intro hmem
  rcases List.mem_append.mp hmem with hmem | hmem
  · have hblank := List.eq_of_mem_replicate hmem
    cases hblank
  · rcases Fields.mem_intercalate hmem with heq | ⟨w, hw, hmem⟩
    · cases heq
    · have hplain := (isWord_iff.mp (h w hw)).1 '\n' hmem
      cases hplain

/-! ## Lines -/

section Lines

variable {net : Network}

theorem readLine_newline (sections : List Proxy) (line : Text) :
    readLine net sections (line ++ ['\n']) = readLine net sections line := by
  rw [readLine, readLine, readArgs_newline]

/-- A file is read line by line. -/
theorem readcfgfile_unlines {lines : List Text} (h : ∀ l ∈ lines, '\n' ∉ l) :
    readcfgfile net (Text.unlines lines) =
      if lines.all fits then (readLines net [] lines).map List.reverse else none := by
  have hlines : readLines net [] (lines.map (· ++ ['\n'])) = readLines net [] lines := by
    rw [readLines, readLines, List.foldlM_map]
    congr 1
    funext sections line
    exact readLine_newline sections line
  rw [readcfgfile, Text.lines_unlines h, hlines, List.all_map]
  simp only [Function.comp_def, Text.chomp_append]

theorem readLines_append (sections : List Proxy) (first second : List Text) :
    readLines net sections (first ++ second) =
      (readLines net sections first).bind fun read => readLines net read second := by
  rw [readLines, List.foldlM_append]
  rfl

/-- A line that is refused in every section is refused wherever it stands. -/
theorem readcfgfile_refused {line : Text} (hline : '\n' ∉ line)
    (h : ∀ sections, readLine net sections line = none) (above below : Text) :
    readcfgfile net (above ++ '\n' :: (line ++ '\n' :: below)) = none := by
  have hrest : ∀ read, readLines net read ((line ++ ['\n']) :: Text.lines below) = none := by
    intro read
    rw [readLines, List.foldlM_cons, readLine_newline, h]
    rfl
  rw [readcfgfile, Text.lines_break, Text.lines_line hline, readLines_append]
  split
  · cases readLines net [] (Text.lines (above ++ ['\n'])) with
    | none => rfl
    | some read => rw [Option.bind_some, hrest, Option.map_none]
  · rfl

/-- What is read from nothing is read the same below other sections. -/
theorem readLine_below {sections read : List Proxy} {line : Text}
    (h : readLine net sections line = some read) (above : List Proxy) :
    readLine net (sections ++ above) line = some (read ++ above) := by
  unfold readLine at h ⊢
  split at h
  · injection h with heq
    rw [heq]
  · rename_i keyword args hargs
    split at h
    · rename_i hkind
      rw [if_pos hkind]
      split at h
      · rename_i hname
        rw [if_pos hname]
        injection h with heq
        rw [← heq, List.cons_append]
      · cases h
    · rename_i hkind
      rw [if_neg hkind]
      split at h
      · rename_i hother
        rw [if_pos hother]
        injection h with heq
        rw [← heq, List.cons_append]
      · rename_i hother
        rw [if_neg hother]
        cases sections with
        | nil => cases h
        | cons p sections =>
          rw [Option.map_eq_some_iff] at h
          obtain ⟨p', hp, heq⟩ := h
          rw [List.cons_append]
          dsimp only
          rw [hp, Option.map_some, ← heq, List.cons_append]

theorem readLines_below {lines : List Text} : ∀ {sections read : List Proxy},
    readLines net sections lines = some read → ∀ above : List Proxy,
      readLines net (sections ++ above) lines = some (read ++ above) := by
  induction lines with
  | nil =>
    intro sections read h above
    injection h with heq
    rw [heq]
    rfl
  | cons line lines ih =>
    intro sections read h above
    rw [readLines, List.foldlM_cons] at h
    obtain ⟨between, hline, hrest⟩ := Option.bind_eq_some_iff.mp h
    rw [readLines, List.foldlM_cons, readLine_below hline above]
    exact ih hrest above

/-! ## Generated lines -/

theorem readLine_blank (sections : List Proxy) : readLine net sections [] = some sections := rfl

theorem readArgs_comment (n : Nat) (rest : Text) : readArgs [] (indent n ++ '#' :: rest) = [] := by
  rw [readArgs_indent]
  have hnot : ¬ Escapes '#' rest := fun h => absurd h.1 (by simp)
  rw [readArgs_cons hnot, if_pos (Or.inl rfl)]
  rfl

theorem readLine_comment (sections : List Proxy) (n : Nat) :
    readLine net sections (indent n ++ comment) = some sections := by
  have hcomment : comment
      = '#' :: " Autogenerated with haproxy_autoscale version 0.4.1".toList := by
    unfold comment
    rfl
  rw [readLine, hcomment, readArgs_comment]

/-- A line of words that begins no section is a statement. -/
theorem readLine_statement {keyword : Text} {args : List Text} {line : Text}
    (hargs : readArgs [] line = keyword :: args)
    (hkind : proxyKinds.contains keyword = false) (hother : otherSections.contains keyword = false)
    (p : Proxy) (above : List Proxy) :
    readLine net (p :: above) line = (parseStatement net p keyword args).map (· :: above) := by
  rw [readLine, hargs]
  dsimp only
  rw [hkind, if_neg Bool.false_ne_true, hother, if_neg Bool.false_ne_true]

end Lines

end Haproxy
end TdsAdmin
