import TdsAdmin.Lib.Text

/-!
# Words of a shell command

How `/bin/sh` cuts a command string into words: the quoting rules of POSIX, with the blanks and
the operators that end a word. `readWord` reads one word and removes its quotes; it answers
`none` as soon as the text would be *expanded* — a `$` that starts a parameter or a backquote
outside single quotes — or when a quote is never closed, since the text is then no plain word.

A `$` that starts nothing stands for itself, which is what every shell does where POSIX leaves
it open. A word with a pattern character is kept as it is, as the shell keeps it when no file
matches.
-/

set_option autoImplicit false

namespace TdsAdmin
namespace Shell

inductive Mode where
  | plain
  | single
  | double
  deriving DecidableEq, Repr

def isBlank (c : Char) : Bool := c == ' ' || c == '\t'

/-- Characters that end a word outside quotes and separate or combine commands. -/
def isOperator (c : Char) : Bool :=
  c == '\n' || c == ';' || c == '&' || c == '|' || c == '<' || c == '>' || c == '(' || c == ')'

/-- A character after which a `$` is a parameter expansion or a command substitution. -/
def startsParameter (c : Char) : Bool :=
  c.isAlphanum || c == '_' || c == '@' || c == '*' || c == '#' || c == '?' || c == '$' ||
    c == '!' || c == '-' || c == '{' || c == '('

/-- What follows a `$` makes it an expansion. -/
def expands : Text → Bool
  | [] => false
  | c :: _ => startsParameter c

/-- Inside double quotes a backslash quotes these, and joins lines at a newline. -/
def isDoubleSpecial (c : Char) : Bool := c == '$' || c == '`' || c == '"' || c == '\\'

/-- One more character of the word. -/
def push (c : Char) (r : Option (Text × Text)) : Option (Text × Text) :=
  r.map fun w => (c :: w.1, w.2)

/-- The rest of the current word with its quotes removed, and what follows the word. -/
def readWord : Mode → Text → Option (Text × Text)
  | .plain, [] => some ([], [])
  | .single, [] => none
  | .double, [] => none
  | .plain, c :: s =>
      if c = '\\' then
        match s with
        | [] => some (['\\'], [])
        | d :: s' => if d = '\n' then readWord .plain s' else push d (readWord .plain s')
      else if c = '\'' then readWord .single s
      else if c = '"' then readWord .double s
      else if c = '`' then none
      else if c = '$' then if expands s then none else push '$' (readWord .plain s)
      else if isBlank c || isOperator c then some ([], c :: s)
      else push c (readWord .plain s)
  | .single, c :: s =>
      if c = '\'' then readWord .plain s else push c (readWord .single s)
  | .double, c :: s =>
      if c = '"' then readWord .plain s
      else if c = '\\' then
        match s with
        | [] => none
        | d :: s' =>
            if d = '\n' then readWord .double s'
            else if isDoubleSpecial d then push d (readWord .double s')
            else push '\\' (push d (readWord .double s'))
      else if c = '`' then none
      else if c = '$' then if expands s then none else push '$' (readWord .double s)
      else push c (readWord .double s)

def skipBlanks (s : Text) : Text := s.dropWhile isBlank

/-- The next word of the command, if the command goes on with a plain word. -/
def nextWord (s : Text) : Option (Text × Text) :=
  match skipBlanks s with
  | [] => none
  | c :: s' => if isOperator c || c == '#' then none else readWord .plain (c :: s')

/-- The next `n` words, and what follows them. -/
def takeWords : Nat → Text → Option (List Text × Text)
  | 0, s => some ([], s)
  | n + 1, s => (nextWord s).bind fun w =>
      (takeWords n w.2).map fun r => (w.1 :: r.1, r.2)

/-- The text is one simple command of these words and nothing else: no operator, no comment, no
second command, nothing in the background. -/
def IsCommand (s : Text) (words : List Text) : Prop :=
  ∃ rest, takeWords words.length s = some (words, rest) ∧ skipBlanks rest = []

/-! ## One character at a time -/

theorem readWord_plain (c : Char) (s : Text) : readWord .plain (c :: s) =
    if c = '\\' then
      match s with
      | [] => some (['\\'], [])
      | d :: s' => if d = '\n' then readWord .plain s' else push d (readWord .plain s')
    else if c = '\'' then readWord .single s
    else if c = '"' then readWord .double s
    else if c = '`' then none
    else if c = '$' then if expands s then none else push '$' (readWord .plain s)
    else if isBlank c || isOperator c then some ([], c :: s)
    else push c (readWord .plain s) := by
  rw [readWord.eq_def]
  cases s <;> rfl

theorem readWord_single (c : Char) (s : Text) : readWord .single (c :: s) =
    if c = '\'' then readWord .plain s else push c (readWord .single s) := by
  rw [readWord.eq_def]

theorem readWord_double (c : Char) (s : Text) : readWord .double (c :: s) =
    if c = '"' then readWord .plain s
    else if c = '\\' then
      match s with
      | [] => none
      | d :: s' =>
          if d = '\n' then readWord .double s'
          else if isDoubleSpecial d then push d (readWord .double s')
          else push '\\' (push d (readWord .double s'))
    else if c = '`' then none
    else if c = '$' then if expands s then none else push '$' (readWord .double s)
    else push c (readWord .double s) := by
  rw [readWord.eq_def]
  cases s <;> rfl

theorem readWord_single_push {c : Char} (hc : c ≠ '\'') (s : Text) :
    readWord .single (c :: s) = push c (readWord .single s) := by
  rw [readWord_single, if_neg hc]

theorem readWord_plain_open (s : Text) : readWord .plain ('"' :: s) = readWord .double s := by
  rw [readWord_plain, if_neg (by decide), if_neg (by decide), if_pos rfl]

theorem readWord_plain_escaped {d : Char} (hd : d ≠ '\n') (s : Text) :
    readWord .plain ('\\' :: d :: s) = push d (readWord .plain s) := by
  rw [readWord_plain, if_pos rfl]
  exact if_neg hd

theorem readWord_plain_joined (s : Text) :
    readWord .plain ('\\' :: '\n' :: s) = readWord .plain s := by
  rw [readWord_plain, if_pos rfl]
  exact if_pos rfl

theorem readWord_double_close (s : Text) : readWord .double ('"' :: s) = readWord .plain s := by
  rw [readWord_double, if_pos rfl]

theorem readWord_double_escaped {d : Char} (hd : isDoubleSpecial d = true) (s : Text) :
    readWord .double ('\\' :: d :: s) = push d (readWord .double s) := by
  have hn : d ≠ '\n' := by
    rintro rfl
    exact absurd hd (by decide)
  rw [readWord_double, if_neg (by decide), if_pos rfl]
  dsimp only
  rw [if_neg hn, if_pos hd]

theorem readWord_double_joined (s : Text) :
    readWord .double ('\\' :: '\n' :: s) = readWord .double s := by
  rw [readWord_double, if_neg (by decide), if_pos rfl]
  exact if_pos rfl

theorem readWord_double_push {c : Char} (hq : c ≠ '"') (hb : c ≠ '\\') (hg : c ≠ '`')
    (hd : c ≠ '$') (s : Text) : readWord .double (c :: s) = push c (readWord .double s) := by
  rw [readWord_double, if_neg hq, if_neg hb, if_neg hg, if_neg hd]

/-! ## Reading consumes -/

theorem push_eq_some {c : Char} {r : Option (Text × Text)} {w : Text × Text} :
    push c r = some w ↔ ∃ u, r = some (u, w.2) ∧ w.1 = c :: u := by
  cases r with
  | none => simp [push]
  | some v =>
    obtain ⟨a, b⟩ := v
    obtain ⟨x, y⟩ := w
    simp only [push, Option.map_some, Option.some.injEq, Prod.mk.injEq]
    constructor
    · rintro ⟨rfl, rfl⟩
      exact ⟨a, ⟨rfl, rfl⟩, rfl⟩
    · rintro ⟨u, ⟨rfl, rfl⟩, rfl⟩
      exact ⟨rfl, rfl⟩

/-- What one step of the reader does: the word ends, or some characters are taken, a part of them is
given to the word, and the reader goes on behind them. Opening a quote gives nothing, and closing it
neither. -/
theorem readWord_step {m : Mode} {c : Char} {s w r : Text}
    (h : readWord m (c :: s) = some (w, r)) :
    (m = .plain ∧ w.length + r.length ≤ (c :: s).length ∧ r <:+ c :: s) ∨
      ∃ (m' : Mode) (taken given s' u : Text), c :: s = taken ++ s' ∧ taken ≠ [] ∧
        w = given ++ u ∧ readWord m' s' = some (u, r) ∧
        given.length + (if m = .plain then 0 else 1) ≤
          taken.length + (if m' = .plain then 0 else 1) := by
  have hpush : ∀ {m' : Mode} {d : Char}, push d (readWord m' s) = some (w, r) →
      ∃ u, w = [d] ++ u ∧ readWord m' s = some (u, r) := by
    intro m' d hm
    obtain ⟨u, hu, hw⟩ := push_eq_some.mp hm
    exact ⟨u, hw, hu⟩
  have hne : [c] ≠ [] := List.cons_ne_nil _ _
  cases m with
  | single =>
    right
    rw [readWord_single] at h
    split_ifs at h
    · exact ⟨.plain, [c], [], s, w, rfl, hne, rfl, h, by simp⟩
    · obtain ⟨u, hw, hu⟩ := hpush h
      exact ⟨.single, [c], [c], s, u, rfl, hne, hw, hu, Nat.le_refl _⟩
  | plain =>
    rw [readWord_plain] at h
    split_ifs at h
    · cases s with
      | nil =>
        cases h
        exact Or.inl ⟨rfl, Nat.le_refl 1, List.nil_suffix⟩
      | cons d s =>
        right
        have htwo : [c, d] ≠ [] := List.cons_ne_nil _ _
        dsimp only at h
        split_ifs at h
        · exact ⟨.plain, [c, d], [], s, w, rfl, htwo, rfl, h, by simp⟩
        · obtain ⟨u, hu, hw⟩ := push_eq_some.mp h
          exact ⟨.plain, [c, d], [d], s, u, rfl, htwo, hw, hu, by simp⟩
    · exact Or.inr ⟨.single, [c], [], s, w, rfl, hne, rfl, h, by simp⟩
    · exact Or.inr ⟨.double, [c], [], s, w, rfl, hne, rfl, h, by simp⟩
    · obtain ⟨u, hw, hu⟩ := hpush h
      exact Or.inr ⟨.plain, [c], ['$'], s, u, rfl, hne, hw, hu, Nat.le_refl 1⟩
    · cases h
      exact Or.inl ⟨rfl, Nat.le_of_eq (Nat.zero_add _), List.suffix_refl _⟩
    · obtain ⟨u, hw, hu⟩ := hpush h
      exact Or.inr ⟨.plain, [c], [c], s, u, rfl, hne, hw, hu, Nat.le_refl _⟩
  | double =>
    right
    rw [readWord_double] at h
    split_ifs at h
    · exact ⟨.plain, [c], [], s, w, rfl, hne, rfl, h, by simp⟩
    · cases s with
      | nil => cases h
      | cons d s =>
        have htwo : [c, d] ≠ [] := List.cons_ne_nil _ _
        dsimp only at h
        split_ifs at h with hbackslash
        · exact ⟨.double, [c, d], [], s, w, rfl, htwo, rfl, h, by simp⟩
        · obtain ⟨u, hu, hw⟩ := push_eq_some.mp h
          exact ⟨.double, [c, d], [d], s, u, rfl, htwo, hw, hu, by simp⟩
        · obtain ⟨v, hv, hw⟩ := push_eq_some.mp h
          obtain ⟨u, hu, hv⟩ := push_eq_some.mp hv
          simp only at hw hv
          subst hv hw
          exact ⟨.double, [c, d], ['\\', d], s, u, rfl, htwo, rfl, hu, Nat.le_refl _⟩
    · obtain ⟨u, hw, hu⟩ := hpush h
      exact ⟨.double, [c], ['$'], s, u, rfl, hne, hw, hu, Nat.le_refl _⟩
    · obtain ⟨u, hw, hu⟩ := hpush h
      exact ⟨.double, [c], [c], s, u, rfl, hne, hw, hu, Nat.le_refl _⟩

/-- At the end of the text only a word without an open quote ends. -/
theorem readWord_nil {m : Mode} {w r : Text} (h : readWord m [] = some (w, r)) :
    m = .plain ∧ w = [] ∧ r = [] := by
  cases m with
  | plain =>
    cases h
    exact ⟨rfl, rfl, rfl⟩
  | single => cases h
  | double => cases h

/-- The characters of a word and what is left are no more than what was there, and a quote that
was open has been closed. -/
theorem readWord_length {s : Text} {m : Mode} {w r : Text} (h : readWord m s = some (w, r)) :
    w.length + r.length + (if m = .plain then 0 else 1) ≤ s.length := by
  induction hn : s.length using Nat.strong_induction_on generalizing s m w with | _ n ih =>
  subst hn
  cases s with
  | nil =>
    obtain ⟨rfl, rfl, rfl⟩ := readWord_nil h
    exact Nat.le_refl 0
  | cons c s =>
    rcases readWord_step h with ⟨rfl, hlength, -⟩ | ⟨m', taken, given, s', u, hs, hne, rfl, hu, hle⟩
    · exact hlength
    · have hlength := congrArg List.length hs
      have htaken := List.length_pos_iff.mpr hne
      rw [List.length_append] at hlength
      have hrest := ih s'.length (by omega) hu rfl
      rw [hlength, List.length_append]
      omega

/-- What is left after a word is the end of what was there. -/
theorem readWord_suffix {s : Text} {m : Mode} {w r : Text} (h : readWord m s = some (w, r)) :
    r <:+ s := by
  induction hn : s.length using Nat.strong_induction_on generalizing s m w with | _ n ih =>
  subst hn
  cases s with
  | nil =>
    obtain ⟨-, -, rfl⟩ := readWord_nil h
    exact List.suffix_refl _
  | cons c s =>
    rcases readWord_step h with ⟨-, -, hr⟩ | ⟨m', taken, given, s', u, hs, hne, -, hu, -⟩
    · exact hr
    · have hlength := congrArg List.length hs
      have htaken := List.length_pos_iff.mpr hne
      rw [List.length_append] at hlength
      have hrest := ih s'.length (by omega) hu rfl
      rw [hs]
      exact hrest.trans (List.suffix_append taken s')

/-! ## Words without quoting -/

/-- A character that stands for itself outside quotes. -/
def isOrdinary (c : Char) : Bool :=
  !(c == '\\' || c == '\'' || c == '"' || c == '`' || c == '$' || isBlank c || isOperator c)

/-- Where an unquoted word ends: at the end of the text, at a blank or at an operator. -/
def EndsWord : Text → Prop
  | [] => True
  | c :: _ => (isBlank c || isOperator c) = true

theorem isOrdinary_cases {c : Char} (h : isOrdinary c = true) :
    c ≠ '\\' ∧ c ≠ '\'' ∧ c ≠ '"' ∧ c ≠ '`' ∧ c ≠ '$' ∧ (isBlank c || isOperator c) = false := by
  simp only [isOrdinary, Bool.not_eq_true', Bool.or_eq_false_iff, beq_eq_false_iff_ne] at h
  obtain ⟨⟨⟨⟨⟨⟨h1, h2⟩, h3⟩, h4⟩, h5⟩, h6⟩, h7⟩ := h
  exact ⟨h1, h2, h3, h4, h5, by rw [h6, h7]; rfl⟩

theorem readWord_ends {s : Text} (h : EndsWord s) : readWord .plain s = some ([], s) := by
  cases s with
  | nil => rfl
  | cons c s =>
    have hall : ∀ c, (isBlank c || isOperator c) = true →
        c ≠ '\\' ∧ c ≠ '\'' ∧ c ≠ '"' ∧ c ≠ '`' ∧ c ≠ '$' := by
      intro c hc
      refine ⟨?_, ?_, ?_, ?_, ?_⟩ <;> rintro rfl <;> exact absurd hc (by decide)
    obtain ⟨h1, h2, h3, h4, h5⟩ := hall c h
    have hend : (isBlank c || isOperator c) = true := h
    rw [readWord_plain, if_neg h1, if_neg h2, if_neg h3, if_neg h4, if_neg h5, if_pos hend]

/-- A text that stands for itself outside quotes, whatever follows it: ordinary characters, and a
`$` in front of one with which nothing starts. -/
def bare : Text → Bool
  | [] => true
  | c :: v => (isOrdinary c || (c == '$' && !v.isEmpty && !expands v)) && bare v

theorem bare_cons {c : Char} {v : Text} : bare (c :: v) = true ↔
    (isOrdinary c = true ∨ c = '$' ∧ v ≠ [] ∧ expands v = false) ∧ bare v = true := by
  simp [bare, and_assoc]

theorem bare_cases : ∀ {v : Text}, bare v = true → ∀ c ∈ v, isOrdinary c = true ∨ c = '$'
  | [], _, c, hc => absurd hc List.not_mem_nil
  | d :: v, h, c, hc => by
    obtain ⟨hd, hv⟩ := bare_cons.mp h
    rcases List.mem_cons.mp hc with rfl | hc
    · exact hd.imp_right And.left
    · exact bare_cases hv c hc

theorem not_mem_of_bare {v : Text} (h : bare v = true) {c : Char} (hc : isOrdinary c = false)
    (hdollar : c ≠ '$') : c ∉ v := by
  intro hmem
  rcases bare_cases h c hmem with hordinary | heq
  · rw [hc] at hordinary
    cases hordinary
  · exact hdollar heq

theorem readWord_bare (s : Text) : ∀ {v : Text}, bare v = true →
    readWord .plain (v ++ s) = (readWord .plain s).map fun r => (v ++ r.1, r.2)
  | [], _ => Option.map_id'.symm
  | c :: v, h => by
    obtain ⟨hc, hv⟩ := bare_cons.mp h
    have hrest : push c (readWord .plain (v ++ s)) =
        (readWord .plain s).map fun r => (c :: v ++ r.1, r.2) := by
      rw [readWord_bare s hv, push, Option.map_map]
      rfl
    rcases hc with hc | ⟨rfl, hne, hexpands⟩
    · obtain ⟨h1, h2, h3, h4, h5, h6⟩ := isOrdinary_cases hc
      rw [List.cons_append, readWord_plain, if_neg h1, if_neg h2, if_neg h3, if_neg h4, if_neg h5,
        if_neg (Bool.eq_false_iff.mp h6), hrest]
    · -- what follows the `$` is what followed it in the text
      have hexpands' : expands (v ++ s) = false := by
        cases v with
        | nil => exact absurd rfl hne
        | cons d v => exact hexpands
      rw [List.cons_append, readWord_plain, if_neg (by decide), if_neg (by decide),
        if_neg (by decide), if_neg (by decide), if_pos rfl, hexpands',
        if_neg Bool.false_ne_true, hrest]

/-- Between single quotes everything comes off. -/
theorem readWord_single_append (s : Text) : ∀ {w : Text}, '\'' ∉ w →
    readWord .plain ('\'' :: (w ++ '\'' :: s))
      = (readWord .plain s).map fun r => (w ++ r.1, r.2) := by
  intro w hw
  have hinside : readWord .single (w ++ '\'' :: s)
      = (readWord .plain s).map fun r => (w ++ r.1, r.2) := by
    induction w with
    | nil =>
      rw [List.nil_append, readWord_single, if_pos rfl]
      exact Option.map_id'.symm
    | cons c w ih =>
      rw [List.mem_cons, not_or] at hw
      rw [List.cons_append, readWord_single_push (Ne.symm hw.1), ih hw.2, push, Option.map_map]
      rfl
  rw [readWord_plain, if_neg (by decide), if_pos rfl, hinside]

theorem readWord_ordinary {s : Text} (hs : EndsWord s) : ∀ {w : Text},
    (∀ c ∈ w, isOrdinary c = true) → readWord .plain (w ++ s) = some (w, s)
  | [], _ => readWord_ends hs
  | c :: w, hw => by
    obtain ⟨h1, h2, h3, h4, h5, h6⟩ := isOrdinary_cases (hw c (by simp))
    rw [List.cons_append, readWord_plain, if_neg h1, if_neg h2, if_neg h3, if_neg h4, if_neg h5,
      if_neg (by simp [h6]), readWord_ordinary hs fun d hd => hw d (by simp [hd])]
    rfl

/-- An unquoted word comes off whole, up to the blank that follows it. -/
theorem takeWords_literal {n : Nat} {w s : Text} (hne : w ≠ [])
    (hw : ∀ c ∈ w, isOrdinary c = true) (hash : w.head? ≠ some '#') (hs : EndsWord s) :
    takeWords (n + 1) (w ++ s) = (takeWords n s).map fun r => (w :: r.1, r.2) := by
  cases w with
  | nil => exact absurd rfl hne
  | cons c w =>
    obtain ⟨-, -, -, -, -, h6⟩ := isOrdinary_cases (hw c (by simp))
    rw [Bool.or_eq_false_iff] at h6
    have hc : c ≠ '#' := fun h => hash (by simp [h])
    have hskip : skipBlanks (c :: w ++ s) = c :: (w ++ s) := by
      simp [skipBlanks, h6.1]
    have hread := readWord_ordinary hs hw
    have hnext : nextWord (c :: w ++ s) = some (c :: w, s) := by
      rw [nextWord, hskip]
      dsimp only
      rw [if_neg (by simp [h6.2, hc])]
      exact hread
    rw [takeWords, hnext, Option.bind_some]

theorem takeWords_blank {n : Nat} {s : Text} :
    takeWords (n + 1) (' ' :: s) = takeWords (n + 1) s := by
  have hskip : skipBlanks (' ' :: s) = skipBlanks s := rfl
  simp only [takeWords, nextWord, hskip]

/-- A word whose reading removes nothing had nothing to remove, and no operator in it. -/
theorem readWord_exact : ∀ {s r : Text}, readWord .plain s = some (s, r) →
    ∀ c ∈ s, isOperator c = false
  | [], _, _, _, hc => by simp at hc
  | c :: s, r, h, d, hd => by
    rw [readWord_plain] at h
    split_ifs at h with h1 h2 h3 h4 h5 h6 h7
    · cases s with
      | nil =>
        simp only [h1, List.mem_singleton] at hd
        subst hd
        rfl
      | cons e s =>
        dsimp only at h
        split_ifs at h
        · have := readWord_length h
          simp at this
          omega
        · obtain ⟨u, hu, hcu⟩ := push_eq_some.mp h
          obtain ⟨-, rfl⟩ := List.cons.inj hcu
          have := readWord_length hu
          simp at this
          omega
    · have := readWord_length h
      simp at this
      omega
    · have := readWord_length h
      simp at this
      omega
    · obtain ⟨u, hu, hcu⟩ := push_eq_some.mp h
      obtain ⟨-, rfl⟩ := List.cons.inj hcu
      rcases List.mem_cons.mp hd with rfl | hd
      · rw [h5]; rfl
      · exact readWord_exact hu d hd
    · simp at h
    · obtain ⟨u, hu, hcu⟩ := push_eq_some.mp h
      obtain ⟨-, rfl⟩ := List.cons.inj hcu
      rcases List.mem_cons.mp hd with rfl | hd
      · rw [Bool.or_eq_true, not_or] at h7
        simpa using h7.2
      · exact readWord_exact hu d hd

/-! ## Words of literal text -/

/-- A word that can be written as it is. -/
def isLiteral (w : Text) : Bool := !w.isEmpty && w.all isOrdinary && w.head? != some '#'

/-- Literal words, each followed by a blank, come off one by one. -/
theorem takeWords_literals {n : Nat} {s : Text} : ∀ {ws : List Text},
    ws.all isLiteral = true → takeWords (ws.length + (n + 1)) (ws.flatMap (· ++ [' ']) ++ s)
      = (takeWords (n + 1) s).map fun r => (ws ++ r.1, r.2)
  | [], _ => by simp
  | w :: ws, h => by
    simp only [List.all_cons, Bool.and_eq_true] at h
    obtain ⟨hw, hws⟩ := h
    simp only [isLiteral, Bool.and_eq_true, Bool.not_eq_true', List.isEmpty_eq_false_iff,
      List.all_eq_true, bne_iff_ne] at hw
    have hlen : (w :: ws).length + (n + 1) = ws.length + (n + 1) + 1 := by
      rw [List.length_cons]; omega
    rw [hlen, List.flatMap_cons, List.append_assoc, List.append_assoc,
      takeWords_literal hw.1.1 hw.1.2 hw.2 (by exact rfl), List.singleton_append,
      ← Nat.add_assoc, takeWords_blank, Nat.add_assoc, takeWords_literals hws, Option.map_map]
    rfl

/-! ## Text inside double quotes -/

/-- A text that the shell leaves alone between double quotes: nothing in it quotes, joins,
expands or substitutes. -/
def Quotable (v : Text) : Prop :=
  (∀ c ∈ v, c ≠ '"' ∧ c ≠ '\\' ∧ c ≠ '\n' ∧ c ≠ '`') ∧
    ∀ before after, v = before ++ '$' :: after → expands after = false

theorem quotable_nil : Quotable [] := ⟨by simp, by simp⟩

theorem quotable_cons {c : Char} {v : Text} : Quotable (c :: v) ↔
    (c ≠ '"' ∧ c ≠ '\\' ∧ c ≠ '\n' ∧ c ≠ '`') ∧ (c = '$' → expands v = false) ∧ Quotable v := by
  constructor
  · rintro ⟨hall, hdollar⟩
    refine ⟨hall c (by simp), fun hc => hdollar [] v (by simp [hc]),
      fun d hd => hall d (by simp [hd]), fun a b hab => hdollar (c :: a) b (by simp [hab])⟩
  · rintro ⟨hc, hd, hall, hdollar⟩
    refine ⟨fun d hd' => ?_, fun a b hab => ?_⟩
    · rcases List.mem_cons.mp hd' with rfl | hd'
      · exact hc
      · exact hall d hd'
    · cases a with
      | nil =>
        simp only [List.nil_append, List.cons.injEq] at hab
        exact hab.2 ▸ hd hab.1
      | cons e a =>
        simp only [List.cons_append, List.cons.injEq] at hab
        exact hdollar a b hab.2

instance decidableQuotable : (v : Text) → Decidable (Quotable v)
  | [] => isTrue quotable_nil
  | _ :: v =>
      haveI := decidableQuotable v
      decidable_of_iff _ quotable_cons.symm

theorem readWord_quotable {s : Text} (hs : EndsWord s) {v : Text} (hv : Quotable v) :
    readWord .double (v ++ '"' :: s) = some (v, s) := by
  induction v with
  | nil =>
    rw [List.nil_append, readWord_double_close]
    exact readWord_ends hs
  | cons c v ih =>
    obtain ⟨⟨hq, hb, -, hg⟩, hdollar, hv⟩ := quotable_cons.mp hv
    have hrest : push c (readWord .double (v ++ '"' :: s)) = some (c :: v, s) := by
      rw [ih hv]
      rfl
    by_cases hd : c = '$'
    · -- what follows the `$` is what followed it in the value, or the closing quote
      have hexp : expands (v ++ '"' :: s) = false := by
        cases v with
        | nil => rfl
        | cons d v => exact hdollar hd
      rw [List.cons_append, readWord_double, if_neg hq, if_neg hb, if_neg hg, if_pos hd, hexp,
        if_neg Bool.false_ne_true, ← hd, hrest]
    · rw [List.cons_append, readWord_double_push hq hb hg hd, hrest]

theorem takeWords_quoted {n : Nat} {v s : Text} (hv : Quotable v) (hs : EndsWord s) :
    takeWords (n + 1) ('"' :: (v ++ '"' :: s)) = (takeWords n s).map fun r => (v :: r.1, r.2) := by
  have hnext : nextWord ('"' :: (v ++ '"' :: s)) = some (v, s) := by
    rw [← readWord_quotable hs hv, ← readWord_plain_open]
    rfl
  rw [takeWords, hnext, Option.bind_some]

/-! ## Commands put together from words -/

/-- A character that stands for itself between double quotes, whatever follows it. -/
def isInert (c : Char) : Bool := c != '"' && c != '\\' && c != '\n' && c != '`' && c != '$'

theorem quotable_of_inert {v : Text} (h : v.all isInert = true) : Quotable v := by
  induction v with
  | nil => exact quotable_nil
  | cons c v ih =>
    simp only [List.all_cons, Bool.and_eq_true] at h
    obtain ⟨hc, hv⟩ := h
    simp only [isInert, Bool.and_eq_true, bne_iff_ne] at hc
    obtain ⟨⟨⟨⟨hq, hb⟩, hn⟩, hg⟩, hd⟩ := hc
    exact quotable_cons.mpr ⟨⟨hq, hb, hn, hg⟩, fun hdollar => absurd hdollar hd, ih hv⟩

/-- A word of a command string: as it is, or between double quotes. -/
inductive Piece where
  | literal (w : Text)
  | quoted (v : Text)

namespace Piece

def word : Piece → Text
  | literal w => w
  | quoted v => v

def text : Piece → Text
  | literal w => w
  | quoted v => '"' :: (v ++ ['"'])

/-- The piece is written the way its word needs. -/
def Fits : Piece → Prop
  | literal w => isLiteral w = true
  | quoted v => Quotable v

theorem takeWords_text {n : Nat} {s : Text} (hs : EndsWord s) {p : Piece} (hp : p.Fits) :
    takeWords (n + 1) (p.text ++ s) = (takeWords n s).map fun r => (p.word :: r.1, r.2) := by
  cases p with
  | literal w =>
    simp only [Fits, isLiteral, Bool.and_eq_true, Bool.not_eq_true', List.isEmpty_eq_false_iff,
      List.all_eq_true, bne_iff_ne] at hp
    exact takeWords_literal hp.1.1 hp.1.2 hp.2 hs
  | quoted v =>
    have htext : (quoted v).text ++ s = '"' :: (v ++ '"' :: s) := by simp [text]
    rw [htext]
    exact takeWords_quoted hp hs

end Piece

/-- The pieces with a blank between them. -/
def commandText (pieces : List Piece) : Text := [' '].intercalate (pieces.map Piece.text)

theorem takeWords_commandText : ∀ {pieces : List Piece}, (∀ p ∈ pieces, p.Fits) →
    takeWords pieces.length (commandText pieces) = some (pieces.map Piece.word, [])
  | [], _ => rfl
  | [p], h => by
    have htext : commandText [p] = p.text ++ [] := by simp [commandText]
    have hend : EndsWord [] := trivial
    rw [htext, List.length_singleton, Piece.takeWords_text hend (h p (by simp))]
    rfl
  | p :: q :: pieces, h => by
    have ih := takeWords_commandText fun r (hr : r ∈ q :: pieces) => h r (by simp [hr])
    have htext : commandText (p :: q :: pieces) = p.text ++ ' ' :: commandText (q :: pieces) := by
      simp [commandText, List.intercalate_cons_cons]
    rw [htext, List.length_cons, Piece.takeWords_text (by exact rfl) (h p (by simp)),
      List.length_cons, takeWords_blank, ← List.length_cons, ih]
    rfl

theorem commandText_cons (p : Piece) {pieces : List Piece} (h : pieces ≠ []) :
    commandText (p :: pieces) = p.text ++ ' ' :: commandText pieces := by
  cases pieces with
  | nil => exact absurd rfl h
  | cons q pieces => simp [commandText, List.intercalate_cons_cons]

@[simp] theorem commandText_singleton (p : Piece) : commandText [p] = p.text := by
  simp [commandText]

/-- Literal words in front come with a blank each. -/
theorem commandText_literals {pieces : List Piece} (h : pieces ≠ []) : ∀ ws : List Text,
    commandText (ws.map .literal ++ pieces) = ws.flatMap (· ++ [' ']) ++ commandText pieces
  | [] => rfl
  | w :: ws => by
    have ih := commandText_literals h ws
    have hne : ws.map Piece.literal ++ pieces ≠ [] := by simp [h]
    rw [List.map_cons, List.cons_append, commandText_cons _ hne, ih]
    simp [Piece.text]

theorem fits_literals {ws : List Text} {pieces : List Piece} (hws : ws.all isLiteral = true)
    (h : ∀ p ∈ pieces, p.Fits) : ∀ p ∈ ws.map Piece.literal ++ pieces, p.Fits := by
  intro p hp
  rcases List.mem_append.mp hp with hp | hp
  · obtain ⟨w, hw, rfl⟩ := List.mem_map.mp hp
    exact List.all_eq_true.mp hws w hw
  · exact h p hp

/-- **Fitting pieces with blanks between them are one command of their words.** -/
theorem isCommand_commandText {pieces : List Piece} (h : ∀ p ∈ pieces, p.Fits) :
    IsCommand (commandText pieces) (pieces.map Piece.word) :=
  ⟨[], by rw [List.length_map, takeWords_commandText h], rfl⟩

/-- A blank in front changes nothing. -/
theorem IsCommand.blank {s : Text} {w : Text} {words : List Text} (h : IsCommand s (w :: words)) :
    IsCommand (' ' :: s) (w :: words) := by
  obtain ⟨rest, htake, hrest⟩ := h
  rw [List.length_cons] at htake
  exact ⟨rest, by rw [List.length_cons, takeWords_blank, htake], hrest⟩

/-! ## A word that comes back exactly -/

theorem nextWord_eq_some {s : Text} {w : Text × Text} (h : nextWord s = some w) :
    readWord .plain (skipBlanks s) = some w := by
  rw [nextWord] at h
  split at h
  · cases h
  · rename_i c s' hskip
    split at h
    · cases h
    · rw [hskip, h]

/-- **After a quoted word, an unquoted one comes back exactly only if no operator is in it.** The
quoted word may have ended anywhere, but if it came back exactly there are too few characters
left for the next one to be anything but what was written. -/
theorem operator_free {v u rest : Text}
    (h : takeWords 2 ('"' :: (v ++ '"' :: ' ' :: u)) = some ([v, u], rest)) :
    ∀ c ∈ u, isOperator c = false := by
  obtain ⟨w, hw, hword⟩ := Option.bind_eq_some_iff.mp h
  obtain ⟨r, hr, hpair⟩ := Option.map_eq_some_iff.mp hword
  obtain ⟨w', hw', hword'⟩ := Option.bind_eq_some_iff.mp hr
  obtain ⟨r', -, hpair'⟩ := Option.map_eq_some_iff.mp hword'
  have hv : w.1 = v ∧ r.1 = [u] := by simpa using congrArg Prod.fst hpair
  have hu : w'.1 = u := by
    have := congrArg Prod.fst hpair'
    simp only [hv.2, List.cons.injEq] at this
    exact this.1
  have hfirst : readWord .double (v ++ '"' :: ' ' :: u) = some (v, w.2) := by
    have hquote := nextWord_eq_some hw
    rw [show w = (v, w.2) from Prod.ext hv.1 rfl] at hquote
    rw [← readWord_plain_open]
    exact hquote
  have hsecond : readWord .plain (skipBlanks w.2) = some (u, w'.2) := by
    rw [← hu]
    exact nextWord_eq_some hw'
  have hlen : w.2.length ≤ u.length + 1 := by
    have := readWord_length hfirst
    simp at this
    omega
  have hleft : w.2 <:+ ' ' :: u := by
    have htail : ' ' :: u <:+ v ++ '"' :: ' ' :: u :=
      (List.suffix_cons '"' (' ' :: u)).trans (List.suffix_append _ _)
    exact List.suffix_of_suffix_length_le (readWord_suffix hfirst) htail (by simpa using hlen)
  have hskip : skipBlanks w.2 <:+ u := by
    rcases List.suffix_cons_iff.mp hleft with hall | hsome
    · have hblank : skipBlanks (' ' :: u) = skipBlanks u := rfl
      rw [hall, hblank]
      exact List.dropWhile_suffix _
    · exact (List.dropWhile_suffix _).trans hsome
  have hwhole : skipBlanks w.2 = u := by
    have := readWord_length hsecond
    exact hskip.eq_of_length (Nat.le_antisymm hskip.length_le (by omega))
  rw [hwhole] at hsecond
  exact readWord_exact hsecond

end Shell
end TdsAdmin
