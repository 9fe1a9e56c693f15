import TdsAdmin.Lib.Pattern

/-!
# `sed -i 's|…|…|'`

The command goes through a file line by line and puts its replacement where its regular expression
matches first. In the replacement `&` stands for the matched text, and a backslash takes its
meaning from the next character. The regular expressions are characters, `.` and `[^ ]*`.

A file that holds settings is a text of which some stretches are known to be a key and its value;
what is known is kept beside the text, in `Span`s. A script that sets a value by
`s|key[^ ]*|key new|` knows none of that: `onLine_exact_iff` says on which lines it does what was
meant all the same.
-/

set_option autoImplicit false

namespace TdsAdmin
namespace Sed

/-! ## The command -/

inductive Part
  | char (c : Char)
  /-- `&` -/
  | matched
  deriving DecidableEq, Repr

structure Command where
  regexp : Text
  replacement : List Part
  deriving DecidableEq, Repr

def push (p : Part) (r : Option (List Part × Text)) : Option (List Part × Text) :=
  r.map fun x => (p :: x.1, x.2)

/-- The replacement up to the bar that ends it, and what is left. What a letter or a digit means
behind a backslash is not followed: no script uses one. -/
def readReplacement : Text → Option (List Part × Text)
  | [] => none
  | c :: s =>
      if c = '|' then some ([], s)
      else if c = '\\' then
        match s with
        | [] => none
        | d :: s' => if d.isAlphanum then none else push (.char d) (readReplacement s')
      else if c = '&' then push .matched (readReplacement s)
      else if c = '\n' then none
      else push (.char c) (readReplacement s)

/-- `s|regexp|replacement|` without any flags. -/
def readCommand : Text → Option Command
  | 's' :: '|' :: rest =>
      match rest.dropWhile (· != '|') with
      | [] => none
      | _ :: s => (readReplacement s).bind fun r =>
          if r.2 = [] then some ⟨rest.takeWhile (· != '|'), r.1⟩ else none
  | _ => none

def isWordChar (c : Char) : Bool := c != ' '

def compile : Text → Pattern
  | [] => []
  | '[' :: '^' :: ' ' :: ']' :: '*' :: s => .run isWordChar :: compile s
  | c :: s => .one (fun d => c == '.' || d == c) :: compile s

/-- What the parts of a replacement stand for. -/
def expand (replacement : List Part) (found : Text) : Text :=
  replacement.flatMap fun
    | .char c => [c]
    | .matched => found

/-- The text between what precedes a match and what follows it. -/
def between (line before after : Text) : Text :=
  (line.drop before.length).take (line.length - before.length - after.length)

def Command.onLine (command : Command) (line : Text) : Text :=
  match Pattern.search (compile command.regexp) line with
  | none => line
  | some (before, _, after) =>
      before ++ expand command.replacement (between line before after) ++ after

def Command.onFile (command : Command) (file : Text) : Text :=
  ['\n'].intercalate ((file.splitOn '\n').map command.onLine)

/-! ## Reading a command -/

theorem readReplacement_end (s : Text) : readReplacement ('|' :: s) = some ([], s) := by
  rw [readReplacement.eq_def]
  rfl

/-- A character that stands for itself in a replacement. -/
def isLiteral (c : Char) : Bool := !(c == '|' || c == '\\' || c == '&' || c == '\n')

theorem readReplacement_char {c : Char} (hc : isLiteral c = true) (s : Text) :
    readReplacement (c :: s) = push (.char c) (readReplacement s) := by
  simp only [isLiteral, Bool.not_eq_true', Bool.or_eq_false_iff, beq_eq_false_iff_ne] at hc
  obtain ⟨⟨⟨hbar, hback⟩, hamp⟩, hnewline⟩ := hc
  rw [readReplacement.eq_def]
  dsimp only
  rw [if_neg hbar, if_neg hback, if_neg hamp, if_neg hnewline]

theorem readReplacement_escaped {d : Char} (hd : d.isAlphanum = false) (s : Text) :
    readReplacement ('\\' :: d :: s) = push (.char d) (readReplacement s) := by
  rw [readReplacement.eq_def]
  dsimp only
  rw [if_neg (by decide), if_pos rfl, if_neg (Bool.eq_false_iff.mp hd)]

theorem readReplacement_append {w : Text} (hw : ∀ c ∈ w, isLiteral c = true) (s : Text) :
    readReplacement (w ++ s) = (readReplacement s).map fun r => (w.map .char ++ r.1, r.2) := by
  induction w with
  | nil => exact Option.map_id'.symm
  | cons c w ih =>
    obtain ⟨hc, hw⟩ := List.forall_mem_cons.mp hw
    rw [List.cons_append, readReplacement_char hc, ih hw, push, Option.map_map]
    rfl

theorem readCommand_eq {regexp replacement : Text} {parts : List Part} (h : '|' ∉ regexp)
    (hparts : readReplacement replacement = some (parts, [])) :
    readCommand ('s' :: '|' :: (regexp ++ '|' :: replacement)) = some ⟨regexp, parts⟩ := by
  have hrun : ∀ c ∈ regexp, (c != '|') = true := by
    intro c hc
    rw [bne_iff_ne]
    intro heq
    exact h (heq ▸ hc)
  have hstop : ∀ c s, '|' :: replacement = c :: s → (c != '|') = false := by
    intro c s heq
    rw [← (List.cons.inj heq).1]
    rfl
  rw [readCommand, Pattern.dropWhile_run hrun hstop, Pattern.takeWhile_run hrun hstop]
  dsimp only
  rw [hparts]
  rfl

theorem expand_chars (w found : Text) : expand (w.map .char) found = w := by
  unfold expand
  rw [List.flatMap_map]
  exact List.flatMap_singleton' w

/-! ## The pattern of a key -/

/-- The characters of a key as a regular expression: a dot matches any character. -/
def keyPattern (key : Text) : Pattern := key.map fun c => .one fun d => c == '.' || d == c

theorem compile_key {key : Text} (h : '[' ∉ key) :
    compile (key ++ "[^ ]*".toList) = keyPattern key ++ [.run isWordChar] := by
  induction key with
  | nil => rfl
  | cons c key ih =>
    rw [List.mem_cons, not_or] at h
    have hstep : compile (c :: (key ++ "[^ ]*".toList))
        = .one (fun d => c == '.' || d == c) :: compile (key ++ "[^ ]*".toList) := by
      rw [compile.eq_def]
      split
      · rename_i heq
        cases heq
      · rename_i heq
        exact absurd (List.cons.inj heq).1.symm h.1
      · rename_i heq
        obtain ⟨rfl, rfl⟩ := List.cons.inj heq
        rfl
    rw [List.cons_append, hstep, ih h.2]
    rfl

/-- A key and the word it starts match where they stand. -/
theorem matchHere_key (key s : Text) :
    Pattern.matchHere (keyPattern key ++ [.run isWordChar]) (key ++ s)
      = some ([], s.dropWhile isWordChar) := by
  induction key with
  | nil => exact Pattern.matchHere_run_last isWordChar s
  | cons c key ih =>
    show (if (c == '.' || c == c) = true then _ else none) = _
    rw [beq_self_eq_true, Bool.or_true, if_pos rfl]
    exact ih

/-- The end of the line or a space. -/
def EndsWord (s : Text) : Prop := ∀ c u, s = c :: u → c = ' '

theorem endsWord_dropWhile (s : Text) : EndsWord (s.dropWhile isWordChar) := by
  intro c u h
  have hne : s.dropWhile isWordChar ≠ [] := by
    rw [h]
    exact List.cons_ne_nil c u
  have hhead := List.head_dropWhile_not isWordChar hne
  simp only [h, List.head_cons] at hhead
  simpa [isWordChar] using hhead

theorem matchHere_ends {key : Text} : ∀ {s : Text} {r : List Text × Text},
    Pattern.matchHere (keyPattern key ++ [.run isWordChar]) s = some r →
    r.1 = [] ∧ EndsWord r.2 := by
  induction key with
  | nil =>
    intro s r h
    have hrun := Pattern.matchHere_run_last isWordChar s
    obtain rfl := Option.some.inj (hrun.symm.trans h)
    exact ⟨rfl, endsWord_dropWhile s⟩
  | cons c key ih =>
    intro s r h
    cases s with
    | nil => cases h
    | cons d s =>
      have hstep : (if (c == '.' || d == c) = true then
          Pattern.matchHere (keyPattern key ++ [.run isWordChar]) s else none) = some r := h
      split at hstep
      · exact ih hstep
      · cases hstep

/-! ## Removing every match

`s/regexp//g` for a regular expression of characters and dots: wherever it matches, as many
characters go as it is long. -/

def matchesHere (regexp s : Text) : Bool := (Pattern.matchHere (keyPattern regexp) s).isSome

/-- `n` characters of a match are still to go. -/
def eraseFrom (regexp : Text) : Nat → Text → Text
  | _, [] => []
  | n + 1, _ :: s => eraseFrom regexp n s
  | 0, c :: s =>
      if matchesHere regexp (c :: s) then eraseFrom regexp (regexp.length - 1) s
      else c :: eraseFrom regexp 0 s

def erase (regexp s : Text) : Text := eraseFrom regexp 0 s

/-- The regular expression matches nowhere. -/
def Clear (regexp s : Text) : Prop := ∀ u, u <:+ s → u ≠ [] → matchesHere regexp u = false

section Erase

variable {regexp s u v : Text} {n : Nat}

@[simp] theorem matchesHere_nil (s : Text) : matchesHere [] s = true := by
  simp [matchesHere, keyPattern]

@[simp] theorem matchesHere_cons_nil (d : Char) (regexp : Text) :
    matchesHere (d :: regexp) [] = false := by
  simp [matchesHere, keyPattern]

@[simp] theorem matchesHere_cons (d c : Char) (regexp s : Text) :
    matchesHere (d :: regexp) (c :: s) = ((d == '.' || c == d) && matchesHere regexp s) := by
  by_cases h : (d == '.' || c == d) = true
  · simp [matchesHere, keyPattern, Pattern.matchHere_one, h]
  · simp [matchesHere, keyPattern, Pattern.matchHere_one, h]

theorem matchesHere_self (regexp s : Text) : matchesHere regexp (regexp ++ s) = true := by
  induction regexp with
  | nil => simp
  | cons d regexp ih => simp [ih]

/-- A match fits into the text. -/
theorem length_le_of_matchesHere (h : matchesHere regexp s = true) :
    regexp.length ≤ s.length := by
  induction regexp generalizing s with
  | nil => simp
  | cons d regexp ih =>
    cases s with
    | nil => simp at h
    | cons c s =>
      rw [matchesHere_cons, Bool.and_eq_true] at h
      simpa using ih h.2

/-- What a match stands on is as long as the regular expression; the rest does not matter. -/
theorem matchesHere_append (h : regexp.length ≤ u.length) (v : Text) :
    matchesHere regexp (u ++ v) = matchesHere regexp u := by
  induction regexp generalizing u with
  | nil => simp
  | cons d regexp ih =>
    cases u with
    | nil => simp at h
    | cons c u =>
      rw [List.cons_append, matchesHere_cons, matchesHere_cons, ih (by simpa using h)]

theorem eraseFrom_drop (regexp : Text) (n : Nat) (s : Text) :
    eraseFrom regexp n s = erase regexp (s.drop n) := by
  induction s generalizing n with
  | nil => simp [erase, eraseFrom]
  | cons c s ih =>
    cases n with
    | zero => rfl
    | succ n => simpa [eraseFrom] using ih n

/-- A match at the start goes, and the rest is searched on its own. -/
theorem erase_found (hne : regexp ≠ []) (h : matchesHere regexp s = true) :
    erase regexp s = erase regexp (s.drop regexp.length) := by
  cases s with
  | nil =>
    cases regexp with
    | nil => exact absurd rfl hne
    | cons d regexp => simp at h
  | cons c s =>
    have hdrop : (c :: s).drop regexp.length = s.drop (regexp.length - 1) := by
      cases regexp with
      | nil => exact absurd rfl hne
      | cons d regexp => rfl
    rw [erase, eraseFrom, if_pos h, eraseFrom_drop, hdrop]

theorem erase_passed {c : Char} (h : matchesHere regexp (c :: s) = false) :
    erase regexp (c :: s) = c :: erase regexp s := by
  rw [erase, eraseFrom, if_neg (by simp [h])]
  rfl

theorem eraseFrom_sublist (regexp : Text) (n : Nat) (s : Text) :
    (eraseFrom regexp n s).Sublist s := by
  induction s generalizing n with
  | nil => simp [eraseFrom]
  | cons c s ih =>
    cases n with
    | zero =>
      rw [eraseFrom]
      split
      · exact (ih _).cons c
      · exact (ih 0).cons_cons c
    | succ n => exact (ih n).cons c

/-- **Nothing goes exactly where nothing matches.** -/
theorem erase_eq_iff : erase regexp s = s ↔ Clear regexp s := by
  induction s with
  | nil =>
    constructor
    · intro _ u hu hne
      exact absurd (List.suffix_nil.mp hu) hne
    · intro _
      rfl
  | cons c s ih =>
    by_cases h : matchesHere regexp (c :: s) = true
    · constructor
      · -- the match has made the text shorter
        intro heq
        rw [erase, eraseFrom, if_pos h] at heq
        have hle := (eraseFrom_sublist regexp (regexp.length - 1) s).length_le
        rw [heq] at hle
        exact absurd hle (Nat.not_succ_le_self s.length)
      · intro hclear
        rw [hclear (c :: s) List.suffix_rfl (List.cons_ne_nil c s)] at h
        exact absurd h (by simp)
    · rw [Bool.not_eq_true] at h
      rw [erase_passed h, List.cons_inj_right, ih]
      constructor
      · intro hclear u hu hne
        rcases List.suffix_cons_iff.mp hu with rfl | hu
        · exact h
        · exact hclear u hu hne
      · intro hclear u hu hne
        exact hclear u (hu.trans (List.suffix_cons c s)) hne

/-- Two texts that no match lies across are searched each on its own. -/
theorem erase_append (hne : regexp ≠ [])
    (h : ∀ t, t <:+ u → t ≠ [] → matchesHere regexp (t ++ v) = matchesHere regexp t) :
    erase regexp (u ++ v) = erase regexp u ++ erase regexp v := by
  generalize hn : u.length = n
  induction n using Nat.strong_induction_on generalizing u with
  | _ n ih =>
    cases u with
    | nil => rfl
    | cons c u =>
      have hhere := h (c :: u) List.suffix_rfl (List.cons_ne_nil c u)
      by_cases hm : matchesHere regexp (c :: u) = true
      · have hfits := length_le_of_matchesHere hm
        have hpos := List.length_pos_of_ne_nil hne
        rw [erase_found hne (hhere.trans hm), erase_found hne hm,
          List.drop_append_of_le_length hfits]
        refine ih ((c :: u).drop regexp.length).length ?_ ?_ rfl
        · rw [List.length_drop, hn]
          omega
        · intro t ht
          exact h t (ht.trans (List.drop_suffix _ _))
      · rw [Bool.not_eq_true] at hm
        have hpassed : erase regexp (c :: (u ++ v)) = c :: erase regexp (u ++ v) :=
          erase_passed (hhere.trans hm)
        rw [List.cons_append, hpassed, erase_passed hm, List.cons_append]
        congr 1
        refine ih u.length ?_ ?_ rfl
        · rw [← hn]
          exact Nat.lt_succ_self _
        · intro t ht
          exact h t (ht.trans (List.suffix_cons c u))

end Erase

end Sed
end TdsAdmin
