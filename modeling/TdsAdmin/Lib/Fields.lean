import Mathlib.Data.List.DropRight
import TdsAdmin.Lib.Pattern

/-!
# Fields of a line

Ways to cut a line at a separator: Perl's `split`, at one character or at a run of them, the
shell's `read -a` and the shell's word splitting. They agree on the fields in the middle of a line
and differ at its end, where `split` drops every empty field and the shell at most one.

`Trimmed` is what the first two have in common: the fields, less some empty ones at the end. A
loop over the fields that does nothing for an empty one cannot see the difference.
-/

set_option autoImplicit false

namespace TdsAdmin
namespace Fields

/-! ## Cutting -/

/-- `split /c/, $line` -/
def split (sep : Char) (line : Text) : List Text := (line.splitOn sep).rdropWhile List.isEmpty

/-- One more character of the first field. -/
def push (c : Char) : List Text → List Text
  | [] => [[c]]
  | field :: fields => (c :: field) :: fields

/-- The fields of a line in which a backslash quotes the next character; one at the end joins the
line to nothing. -/
def escapedFields (sep : Char) : Text → List Text
  | [] => [[]]
  | ['\\'] => [[]]
  | '\\' :: c :: s => push c (escapedFields sep s)
  | c :: s => if c = sep then [] :: escapedFields sep s else push c (escapedFields sep s)

/-- A separator ends a field, so an empty field after the last one does not count. -/
def endFields (fields : List Text) : List Text :=
  if fields.getLast? = some [] then fields.dropLast else fields

/-- `IFS=c read -a array <<< "$line"`, for a separator that is not a blank. -/
def readArray (sep : Char) (line : Text) : List Text := endFields (escapedFields sep line)

/-- The words of an unquoted expansion when `IFS` is the one character `ifs`: blanks in a row
count once, and any other separator ends a field. -/
def words (ifs : Char) (value : Text) : List Text :=
  if ifs = ' ' ∨ ifs = '\t' ∨ ifs = '\n' then (value.splitOn ifs).filter (!·.isEmpty)
  else endFields (value.splitOn ifs)

/-- `split /p+/, $line`: runs of separators count once, except that a line which starts with one
has an empty field in front. -/
def splitRuns (p : Char → Bool) (line : Text) : List Text :=
  match line.splitOnP p with
  | [] => []
  | field :: fields => (field :: fields.filter (!·.isEmpty)).rdropWhile List.isEmpty

/-! ## `read` without `-r` -/

/-- The white space of `IFS` as the shell sets it, at which `awk` cuts as well. -/
def isIfs (c : Char) : Bool := c == ' ' || c == '\t' || c == '\n'

/-- A backslash goes and the character after it stays. -/
def unescape : Text → Text
  | [] => []
  | ['\\'] => []
  | '\\' :: c :: s => c :: unescape s
  | c :: s => c :: unescape s

/-- The word at the start of a line, as far as white space that no backslash quotes, and what is
left after it. -/
def takeWord : Text → Text × Text
  | [] => ([], [])
  | ['\\'] => ([], [])
  | '\\' :: c :: s => (c :: (takeWord s).1, (takeWord s).2)
  | c :: s => if isIfs c then ([], s) else (c :: (takeWord s).1, (takeWord s).2)

/-- `read` into `n` variables: a word for each, and the rest of the line for the last. -/
def readFields : Nat → Text → List Text
  | 0, _ => []
  | 1, s => [unescape ((s.dropWhile isIfs).rdropWhile isIfs)]
  | n + 2, s =>
      let word := takeWord (s.dropWhile isIfs)
      word.1 :: readFields (n + 1) word.2

/-- `cut -fn -d' '`: a line without a blank is printed whole. -/
def cutField (n : Nat) (line : Text) : Text :=
  if ' ' ∈ line then (line.splitOn ' ').getD (n - 1) [] else line

/-- The fields of a line in `awk`. -/
def awkFields (line : Text) : List Text := (line.splitOnP isIfs).filter (!·.isEmpty)

theorem cutField_between {n : Nat} {first second : Text} {rest : List Text}
    (h : ∀ field ∈ first :: second :: rest, ' ' ∉ field) :
    cutField n ([' '].intercalate (first :: second :: rest))
      = (first :: second :: rest).getD (n - 1) [] := by
  have hblank : ' ' ∈ [' '].intercalate (first :: second :: rest) := by
    rw [List.intercalate_cons_cons]
    simp
  rw [cutField, if_pos hblank, List.splitOn_intercalate ' ' h (List.cons_ne_nil _ _)]

theorem unescape_char {c : Char} (hc : c ≠ '\\') (s : Text) :
    unescape (c :: s) = c :: unescape s := by
  rw [unescape.eq_def]
  split
  · rename_i heq
    cases heq
  · rename_i heq
    exact absurd (List.cons.inj heq).1 hc
  · rename_i heq
    exact absurd (List.cons.inj heq).1 hc
  · rename_i heq
    obtain ⟨rfl, rfl⟩ := List.cons.inj heq
    rfl

theorem unescape_plain {s : Text} (h : '\\' ∉ s) : unescape s = s := by
  induction s with
  | nil => rfl
  | cons c s ih =>
    rw [unescape_char (List.ne_of_not_mem_cons h).symm, ih (List.not_mem_of_not_mem_cons h)]

theorem unescape_length (s : Text) : (unescape s).length ≤ s.length := by
  fun_induction unescape s with
  | case1 => exact Nat.le_refl _
  | case2 => exact Nat.zero_le _
  | case3 c s ih => exact Nat.succ_le_succ (Nat.le_succ_of_le ih)
  | case4 c s hone hmore ih => exact Nat.succ_le_succ ih

theorem mem_unescape {c : Char} {s : Text} (h : c ∈ unescape s) : c ∈ s := by
  fun_induction unescape s with
  | case1 => exact h
  | case2 => exact absurd h List.not_mem_nil
  | case3 d s ih =>
    refine List.mem_cons_of_mem _ ?_
    rcases List.mem_cons.mp h with rfl | h
    · exact List.mem_cons_self
    · exact List.mem_cons_of_mem d (ih h)
  | case4 d s hone hmore ih =>
    rcases List.mem_cons.mp h with rfl | h
    · exact List.mem_cons_self
    · exact List.mem_cons_of_mem d (ih h)

/-- The last character stays if it is none. -/
theorem unescape_append_char {c : Char} (hc : c ≠ '\\') (s : Text) :
    ∃ t, unescape (s ++ [c]) = t ++ [c] := by
  fun_induction unescape s with
  | case1 => exact ⟨[], unescape_char hc []⟩
  | case2 => exact ⟨[], rfl⟩
  | case3 d s ih =>
    obtain ⟨t, ht⟩ := ih
    exact ⟨d :: t, congrArg (d :: ·) ht⟩
  | case4 d s hone hmore ih =>
    obtain ⟨t, ht⟩ := ih
    have hd : d ≠ '\\' := by
      rintro rfl
      cases s with
      | nil => exact hone rfl rfl
      | cons e s => exact hmore e s rfl rfl
    exact ⟨d :: t, (unescape_char hd _).trans (congrArg (d :: ·) ht)⟩

/-! ## A value that is one word -/

theorem endFields_singleton {w : Text} (hne : w ≠ []) : endFields [w] = [w] := by
  rw [endFields, List.getLast?_singleton, if_neg]
  simpa using hne

theorem words_single {ifs : Char} {w : Text} (hne : w ≠ []) (h : ifs ∉ w) : words ifs w = [w] := by
  have hone : w.splitOn ifs = [w] := List.splitOn_eq_singleton h
  rw [words, hone]
  split
  · simp [hne]
  · exact endFields_singleton hne

/-! ## Lines put together from fields -/

/-- The fields, less some empty ones at the end. -/
def Trimmed (trimmed fields : List Text) : Prop :=
  ∃ k, fields = trimmed ++ List.replicate k []

theorem Trimmed.refl (fields : List Text) : Trimmed fields fields := ⟨0, by simp⟩

theorem trimmed_rdropWhile (fields : List Text) :
    Trimmed (fields.rdropWhile List.isEmpty) fields := by
  refine ⟨(fields.rtakeWhile List.isEmpty).length, ?_⟩
  have hempty : fields.rtakeWhile List.isEmpty
      = List.replicate (fields.rtakeWhile List.isEmpty).length [] := by
    refine List.eq_replicate_iff.mpr ⟨rfl, ?_⟩
    intro field hfield
    simpa using List.mem_rtakeWhile_imp hfield
  rw [← hempty]
  exact List.rdropWhile_append_rtakeWhile.symm

theorem trimmed_endFields (fields : List Text) : Trimmed (endFields fields) fields := by
  rw [endFields]
  split
  · rename_i hlast
    exact ⟨1, (List.dropLast_append_getLast? [] hlast).symm⟩
  · exact Trimmed.refl fields

theorem escapedFields_eq {sep : Char} : ∀ {line : Text}, '\\' ∉ line →
    escapedFields sep line = line.splitOn sep
  | [], _ => rfl
  | c :: s, h => by
    have hc : c ≠ '\\' := by
      rintro rfl
      exact h (by simp)
    have ih : escapedFields sep s = s.splitOn sep :=
      escapedFields_eq fun hs => h (List.mem_cons_of_mem c hs)
    have hstep : escapedFields sep (c :: s)
        = if c = sep then [] :: escapedFields sep s else push c (escapedFields sep s) := by
      rw [escapedFields.eq_def]
      split
      · rename_i heq
        cases heq
      · rename_i heq
        exact absurd (List.cons.inj heq).1 hc
      · rename_i heq
        exact absurd (List.cons.inj heq).1 hc
      · rename_i heq
        obtain ⟨rfl, rfl⟩ := List.cons.inj heq
        rfl
    rw [hstep, ih, List.splitOn_cons_eq_if_modifyHead]
    by_cases hsep : c = sep
    · simp [hsep]
    · cases hrest : s.splitOn sep with
      | nil => exact absurd hrest (List.splitOn_ne_nil _ _)
      | cons field fields => simp [hsep, push]

variable {sep : Char} {fields : List Text}

theorem split_trimmed (hne : fields ≠ []) (h : ∀ field ∈ fields, sep ∉ field) :
    Trimmed (split sep ([sep].intercalate fields)) fields := by
  rw [split, List.splitOn_intercalate sep h hne]
  exact trimmed_rdropWhile fields

theorem readArray_trimmed (hne : fields ≠ []) (h : ∀ field ∈ fields, sep ∉ field)
    (hback : '\\' ∉ [sep].intercalate fields) :
    Trimmed (readArray sep ([sep].intercalate fields)) fields := by
  rw [readArray, escapedFields_eq hback, List.splitOn_intercalate sep h hne]
  exact trimmed_endFields fields

/-- Nothing is lost of fields that are not empty. -/
theorem split_full (hne : fields ≠ []) (h : ∀ field ∈ fields, field ≠ [] ∧ sep ∉ field) :
    split sep ([sep].intercalate fields) = fields := by
  rw [split, List.splitOn_intercalate sep (fun field hf => (h field hf).2) hne,
    List.rdropWhile_eq_self_iff]
  intro hlast
  simpa using (h _ (List.getLast_mem hlast)).1

/-- What is in a line is a separator or in a field. -/
theorem mem_intercalate {sep c : Char} : ∀ {fields : List Text}, c ∈ [sep].intercalate fields →
    c = sep ∨ ∃ f ∈ fields, c ∈ f
  | [], h => by simp at h
  | [f], h => by simpa using Or.inr h
  | f :: g :: fields, h => by
    rw [List.intercalate_cons_cons, List.append_assoc, List.mem_append, List.mem_append,
      List.mem_singleton] at h
    rcases h with h | h | h
    · exact Or.inr ⟨f, by simp, h⟩
    · exact Or.inl h
    · rcases mem_intercalate h with h | ⟨e, he, h⟩
      · exact Or.inl h
      · exact Or.inr ⟨e, List.mem_cons_of_mem f he, h⟩

theorem intercalate_cons (sep : Char) (field : Text) (fields : List Text) :
    [sep].intercalate (field :: fields) = field ++ fields.flatMap (sep :: ·) := by
  induction fields generalizing field with
  | nil => simp
  | cons next fields ih =>
    rw [List.intercalate_cons_cons, ih, List.flatMap_cons]
    simp

/-- What does not hold the separator is in a line when it is in one of the fields. -/
theorem infix_intercalate {sep : Char} {needle : Text} (hsep : sep ∉ needle) :
    ∀ {fields : List Text}, fields ≠ [] →
      (needle <:+: [sep].intercalate fields ↔ ∃ f ∈ fields, needle <:+: f)
  | [], h => absurd rfl h
  | [f], _ => by simp
  | f :: g :: fields, _ => by
    rw [List.intercalate_cons_cons, List.append_assoc, List.singleton_append,
      Text.infix_across hsep, infix_intercalate hsep (List.cons_ne_nil g fields)]
    simp

/-- The lines of a file are its fields between newlines. -/
theorem split_unlines {ls : List Text} (h : ∀ l ∈ ls, l ≠ [] ∧ '\n' ∉ l) :
    split '\n' (Text.unlines ls) = ls := by
  have hcut : (Text.unlines ls).splitOn '\n' = ls ++ [[]] := by
    induction ls with
    | nil => rfl
    | cons l ls ih =>
      obtain ⟨hl, hls⟩ := List.forall_mem_cons.mp h
      rw [Text.unlines, List.flatMap_cons, List.append_assoc, List.singleton_append,
        List.splitOn_append_cons_self_of_not_mem hl.2]
      exact congrArg (l :: ·) (ih hls)
  rw [split, hcut, List.rdropWhile_concat_pos _ _ _ rfl, List.rdropWhile_eq_self_iff]
  intro hlast
  simpa using (h _ (List.getLast_mem hlast)).1

theorem splitOnP_intercalate {p : Char → Bool} (hsep : p sep = true) (hne : fields ≠ [])
    (h : ∀ field ∈ fields, ∀ c ∈ field, p c = false) :
    ([sep].intercalate fields).splitOnP p = fields := by
  induction fields with
  | nil => exact absurd rfl hne
  | cons field fields ih =>
    obtain ⟨hfield, hfields⟩ := List.forall_mem_cons.mp h
    cases fields with
    | nil =>
      rw [List.intercalate_singleton]
      exact List.splitOnP_eq_singleton hfield
    | cons next fields =>
      rw [List.intercalate_cons_cons, List.append_assoc, List.singleton_append,
        List.splitOnP_append_cons_of_forall_mem hfield sep hsep,
        ih (List.cons_ne_nil _ _) hfields]

theorem splitRuns_full {p : Char → Bool} (hsep : p sep = true) (hne : fields ≠ [])
    (h : ∀ field ∈ fields, field ≠ [] ∧ ∀ c ∈ field, p c = false) :
    splitRuns p ([sep].intercalate fields) = fields := by
  rw [splitRuns, splitOnP_intercalate hsep hne fun field hf => (h field hf).2]
  cases fields with
  | nil => exact absurd rfl hne
  | cons field fields =>
    have hkeep : fields.filter (!·.isEmpty) = fields := by
      refine List.filter_eq_self.mpr fun f hf => ?_
      simpa using (h f (by simp [hf])).1
    dsimp only
    rw [hkeep, List.rdropWhile_eq_self_iff]
    intro hlast
    simpa using (h _ (List.getLast_mem hlast)).1

/-! ## What trimming keeps -/

namespace Trimmed

variable {trimmed : List Text}

theorem head (h : Trimmed trimmed fields) {field : Text} {rest : List Text}
    (hf : fields = field :: rest) (hne : field ≠ []) : trimmed.head? = some field := by
  obtain ⟨k, hk⟩ := h
  cases trimmed with
  | nil =>
    rw [hf, List.nil_append] at hk
    have hmem : field ∈ List.replicate k ([] : Text) := by
      rw [← hk]
      simp
    exact absurd (List.eq_of_mem_replicate hmem) hne
  | cons t trimmed =>
    rw [hf] at hk
    exact congrArg some (List.cons.inj hk).1.symm

theorem drop (h : Trimmed trimmed fields) (n : Nat) : Trimmed (trimmed.drop n) (fields.drop n) := by
  obtain ⟨k, rfl⟩ := h
  exact ⟨k - (n - trimmed.length), by simp [List.drop_append, List.drop_replicate]⟩

theorem subset (h : Trimmed trimmed fields) : trimmed ⊆ fields := by
  obtain ⟨k, rfl⟩ := h
  exact List.subset_append_left _ _

/-- Fields of which none is empty are kept. -/
theorem eq_of_full (h : Trimmed trimmed fields) (hfull : ∀ field ∈ fields, field ≠ []) :
    trimmed = fields := by
  obtain ⟨k, rfl⟩ := h
  cases k with
  | zero => simp
  | succ k => exact absurd rfl (hfull [] (by simp))

end Trimmed

/-! ## Words of a line that is read -/

theorem dropWhile_word {w : Text} (h : ∀ c ∈ w, isIfs c = false) (hne : w ≠ []) (s : Text) :
    (w ++ s).dropWhile isIfs = w ++ s := by
  cases w with
  | nil => exact absurd rfl hne
  | cons c w =>
    rw [List.cons_append, List.dropWhile_cons_of_neg]
    rw [h c (by simp)]
    exact Bool.false_ne_true

theorem takeWord_char {c : Char} (hc : c ≠ '\\') (s : Text) :
    takeWord (c :: s) = if isIfs c then ([], s) else (c :: (takeWord s).1, (takeWord s).2) := by
  rw [takeWord.eq_def]
  split
  · rename_i heq
    cases heq
  · rename_i heq
    exact absurd (List.cons.inj heq).1 hc
  · rename_i heq
    exact absurd (List.cons.inj heq).1 hc
  · rename_i heq
    obtain ⟨rfl, rfl⟩ := List.cons.inj heq
    rfl

/-- A word that does not end in a backslash is read whole. -/
theorem takeWord_word {w s : Text} {b : Char} (h : ∀ c ∈ w, isIfs c = false)
    (hlast : w.getLast? ≠ some '\\') (hb : isIfs b = true) (hne : b ≠ '\\') :
    takeWord (w ++ b :: s) = (unescape w, s) := by
  fun_induction unescape w with
  | case1 => rw [List.nil_append, takeWord_char hne, if_pos hb]
  | case2 => exact absurd rfl hlast
  | case3 c w ih =>
    have hrest := ih (fun d hd => h d (by simp [hd])) fun heq => hlast (by
      rw [List.getLast?_cons, List.getLast?_cons, heq]
      rfl)
    show (c :: (takeWord (w ++ b :: s)).1, (takeWord (w ++ b :: s)).2) = _
    rw [hrest]
  | case4 c w hone hmore ih =>
    have hc : c ≠ '\\' := by
      rintro rfl
      cases w with
      | nil => exact hone rfl rfl
      | cons d w => exact hmore d w rfl rfl
    have hrest := ih (fun d hd => h d (by simp [hd])) fun heq => hlast (by
      rw [List.getLast?_cons, heq]
      rfl)
    rw [List.cons_append, takeWord_char hc, h c (by simp), hrest]
    rfl

/-- Three words with a blank between them. -/
theorem readFields_three {u v w : Text} (hu : ∀ c ∈ u, isIfs c = false)
    (hv : ∀ c ∈ v, isIfs c = false) (hw : ∀ c ∈ w, isIfs c = false) (hune : u ≠ []) (hvne : v ≠ [])
    (hwne : w ≠ []) (hulast : u.getLast? ≠ some '\\') (hvlast : v.getLast? ≠ some '\\') :
    readFields 3 (u ++ ' ' :: (v ++ ' ' :: w)) = [unescape u, unescape v, unescape w] := by
  have hlast : w.rdropWhile isIfs = w := by
    refine List.rdropWhile_eq_self_iff.mpr fun hne => ?_
    rw [hw _ (List.getLast_mem hne)]
    exact Bool.false_ne_true
  have hdrop := dropWhile_word hw hwne []
  rw [List.append_nil] at hdrop
  rw [readFields, dropWhile_word hu hune, takeWord_word hu hulast rfl (by decide), readFields,
    dropWhile_word hv hvne, takeWord_word hv hvlast rfl (by decide), readFields, hdrop, hlast]

/-! ## Words -/

/-- A character that separates nothing, in a table, in a path or in the shell. -/
def isWordChar (c : Char) : Bool :=
  !(c == ',' || c == '/' || c == '\\' || c == ' ' || c == '\t' || c == '\n')

/-- A name: not empty, and one piece however it is cut. -/
@[ext]
structure Word where
  text : Text
  isWord : text ≠ [] ∧ text.all isWordChar = true
  deriving DecidableEq

namespace Word

theorem ne_nil (w : Word) : w.text ≠ [] := w.isWord.1

theorem not_mem (w : Word) {c : Char} (hc : isWordChar c = false) : c ∉ w.text := by
  intro hmem
  have := List.all_eq_true.mp w.isWord.2 c hmem
  rw [hc] at this
  exact absurd this (by decide)

end Word

/-! ## Tokens -/

/-- A field of a line that is cut at white space: not empty, and without any. -/
structure Token where
  text : Text
  isToken : text ≠ [] ∧ text.all (!Pattern.isSpace ·) = true
  deriving DecidableEq

namespace Token

theorem ne_nil (t : Token) : t.text ≠ [] := t.isToken.1

theorem not_space (t : Token) : ∀ c ∈ t.text, Pattern.isSpace c = false := by
  intro c hc
  simpa using List.all_eq_true.mp t.isToken.2 c hc

theorem not_mem (t : Token) {c : Char} (hc : Pattern.isSpace c = true) : c ∉ t.text := by
  intro hmem
  rw [t.not_space c hmem] at hc
  cases hc

theorem not_ifs (t : Token) : ∀ c ∈ t.text, isIfs c = false := by
  intro c hc
  have hspace := t.not_space c hc
  simp only [Pattern.isSpace, Bool.or_eq_false_iff] at hspace
  simp only [isIfs, Bool.or_eq_false_iff]
  exact ⟨⟨hspace.1.1.1.1.1, hspace.1.1.1.1.2⟩, hspace.1.1.1.2⟩

end Token

end Fields
end TdsAdmin
