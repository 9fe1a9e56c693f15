import TdsAdmin.Lib.Pattern

/-!
# JSON texts that are read

A reader of JSON in its strict form: no zero in front of a number, no control character in a
string, nothing behind the last element. `readValue` and its companions recurse on fuel; `parse`
gives them the length of the text, of which every step takes at least a character.

What is proved is how a text that is put together around a string of unknown content can be read.
A string never gets longer when its escapes are read (`readString_bound`), so it comes back as it
was written only if there is nothing in it to escape.
-/

set_option autoImplicit false

namespace TdsAdmin
namespace Json

/-- A number is kept as it is written. -/
inductive Doc
  | null
  | bool (b : Bool)
  | number (literal : Text)
  | string (s : Text)
  | array (elements : List Doc)
  | object (members : List (Text × Doc))

/-! ## Strings -/

def hexValue (c : Char) : Option Nat :=
  if c.isDigit then some (c.toNat - 48)
  else if 'a' ≤ c ∧ c ≤ 'f' then some (c.toNat - 87)
  else if 'A' ≤ c ∧ c ≤ 'F' then some (c.toNat - 55)
  else none

/-- The code unit of an escape other than `\u`. -/
def escapedUnit (c : Char) : Option Nat :=
  if c = '"' ∨ c = '\\' ∨ c = '/' then some c.toNat
  else if c = 'b' then some 8
  else if c = 'f' then some 12
  else if c = 'n' then some 10
  else if c = 'r' then some 13
  else if c = 't' then some 9
  else none

/-- Where a reader is in a string: in the middle of an escape, or not. -/
inductive Mode
  | plain
  | escape
  | hex (left : Nat) (value : Nat)

/-- The code units of a string as far as its closing quote, and what follows it. -/
def readUnits : Mode → Text → Option (List Nat × Text)
  | _, [] => none
  | .plain, c :: s =>
      if c = '"' then some ([], s)
      else if c = '\\' then readUnits .escape s
      else if c.toNat < 32 then none
      else (readUnits .plain s).map fun r => (c.toNat :: r.1, r.2)
  | .escape, c :: s =>
      if c = 'u' then readUnits (.hex 4 0) s
      else (escapedUnit c).bind fun u => (readUnits .plain s).map fun r => (u :: r.1, r.2)
  | .hex left value, c :: s =>
      (hexValue c).bind fun d =>
        if left ≤ 1 then (readUnits .plain s).map fun r => ((value * 16 + d) :: r.1, r.2)
        else readUnits (.hex (left - 1) (value * 16 + d)) s

/-- The character of a code unit; half of a pair is none. -/
def unitChar (u : Nat) : Char := if u.isValidChar then Char.ofNat u else '\ufffd'

/-- Two code units may be one character. -/
def fromUnits : List Nat → Text
  | [] => []
  | [u] => [unitChar u]
  | u :: v :: us =>
      if 0xD800 ≤ u ∧ u < 0xDC00 ∧ 0xDC00 ≤ v ∧ v < 0xE000 then
        Char.ofNat (0x10000 + (u - 0xD800) * 0x400 + (v - 0xDC00)) :: fromUnits us
      else unitChar u :: fromUnits (v :: us)

def readString (s : Text) : Option (Text × Text) :=
  (readUnits .plain s).map fun r => (fromUnits r.1, r.2)

/-! ## Numbers -/

def readSign (signs : Text) : Text → Text × Text
  | [] => ([], [])
  | c :: s => if c ∈ signs then ([c], s) else ([], c :: s)

/-- Digits, one at least. -/
def readDigits (s : Text) : Option (Text × Text) :=
  if s.takeWhile Text.isDigit = [] then none
  else some (s.takeWhile Text.isDigit, s.dropWhile Text.isDigit)

/-- A zero in front stands alone. -/
def PlainNumber (digits : Text) : Prop := digits.head? = some '0' → digits = ['0']

instance (digits : Text) : Decidable (PlainNumber digits) :=
  inferInstanceAs (Decidable (_ → _))

def readInteger (s : Text) : Option (Text × Text) :=
  (readDigits s).bind fun r => if PlainNumber r.1 then some r else none

def readFraction : Text → Option (Text × Text)
  | [] => some ([], [])
  | c :: s => if c = '.' then (readDigits s).map fun r => ('.' :: r.1, r.2) else some ([], c :: s)

def readExponent : Text → Option (Text × Text)
  | [] => some ([], [])
  | c :: s =>
      if c = 'e' ∨ c = 'E' then
        let sign := readSign ['+', '-'] s
        (readDigits sign.2).map fun r => (c :: (sign.1 ++ r.1), r.2)
      else some ([], c :: s)

def readNumber (s : Text) : Option (Text × Text) :=
  let sign := readSign ['-'] s
  (readInteger sign.2).bind fun i => (readFraction i.2).bind fun f =>
    (readExponent f.2).map fun e => (sign.1 ++ i.1 ++ f.1 ++ e.1, e.2)

/-! ## Values -/

/-- The white space of JSON. -/
def isBlank (c : Char) : Bool := c == ' ' || c == '\t' || c == '\n' || c == '\r'

def skip (s : Text) : Text := s.dropWhile isBlank

/-- The next character has to be this one. -/
def expect (c : Char) (s : Text) : Option Text :=
  match skip s with
  | [] => none
  | d :: s => if d = c then some s else none

/-- The name of a member with its colon. -/
def readKey (s : Text) : Option (Text × Text) :=
  (expect '"' s).bind fun s => (readString s).bind fun k =>
    (expect ':' k.2).map fun s => (k.1, s)

/-- What stands behind an element: a comma, or the end. -/
def readEnd (close : Char) (s : Text) : Option (Bool × Text) :=
  match skip s with
  | [] => none
  | c :: s => if c = ',' then some (true, s) else if c = close then some (false, s) else none

def literals : List (Text × Doc) :=
  [("true".toList, .bool true), ("false".toList, .bool false), ("null".toList, .null)]

/-- `true`, `false`, `null` or a number. -/
def readAtom (s : Text) : Option (Doc × Text) :=
  match literals.find? fun l => l.1.isPrefixOf s with
  | some l => some (l.2, s.drop l.1.length)
  | none => (readNumber s).map fun r => (.number r.1, r.2)

mutual

def readValue : Nat → Text → Option (Doc × Text)
  | 0, _ => none
  | n + 1, s =>
      match skip s with
      | [] => none
      | c :: s =>
          if c = '"' then (readString s).map fun r => (.string r.1, r.2)
          else if c = '\x7b' then
            match expect '\x7d' s with
            | some s => some (.object [], s)
            | none => (readMembers n s).map fun r => (.object r.1, r.2)
          else if c = '[' then
            match expect ']' s with
            | some s => some (.array [], s)
            | none => (readElements n s).map fun r => (.array r.1, r.2)
          else readAtom (c :: s)

def readMembers : Nat → Text → Option (List (Text × Doc) × Text)
  | 0, _ => none
  | n + 1, s =>
      (readKey s).bind fun k => (readValue n k.2).bind fun v => (readEnd '\x7d' v.2).bind fun e =>
        if e.1 then (readMembers n e.2).map fun ms => ((k.1, v.1) :: ms.1, ms.2)
        else some ([(k.1, v.1)], e.2)

def readElements : Nat → Text → Option (List Doc × Text)
  | 0, _ => none
  | n + 1, s =>
      (readValue n s).bind fun v => (readEnd ']' v.2).bind fun e =>
        if e.1 then (readElements n e.2).map fun vs => (v.1 :: vs.1, vs.2)
        else some ([v.1], e.2)

end

/-- A text that is one value. -/
def parse (s : Text) : Option Doc :=
  (readValue (s.length + 1) s).bind fun r => if skip r.2 = [] then some r.1 else none

/-! ## Reading a string of unknown content -/

/-- A character that stands for itself in a string. -/
def isPlain (c : Char) : Bool := c != '"' && c != '\\' && !decide (c.toNat < 32)

theorem isPlain_iff {c : Char} : isPlain c = true ↔ c ≠ '"' ∧ c ≠ '\\' ∧ ¬ c.toNat < 32 := by
  unfold isPlain
  rw [Bool.and_eq_true, Bool.and_eq_true, bne_iff_ne, bne_iff_ne, Bool.not_eq_true',
    decide_eq_false_iff_not, and_assoc]

theorem readUnits_plain {c : Char} (h : isPlain c = true) (s : Text) :
    readUnits .plain (c :: s) = (readUnits .plain s).map fun r => (c.toNat :: r.1, r.2) := by
  obtain ⟨hquote, hback, hcontrol⟩ := isPlain_iff.mp h
  rw [readUnits, if_neg hquote, if_neg hback, if_neg hcontrol]

theorem readUnits_word {w : Text} (h : ∀ c ∈ w, isPlain c = true) (s : Text) :
    readUnits .plain (w ++ '"' :: s) = some (w.map Char.toNat, s) := by
  induction w with
  | nil => rw [List.nil_append, readUnits, if_pos rfl, List.map_nil]
  | cons c w ih =>
    rw [List.cons_append, readUnits_plain (h c List.mem_cons_self),
      ih fun d hd => h d (List.mem_cons_of_mem c hd)]
    rfl

/-- No character is half of a pair. -/
theorem unitChar_toNat (c : Char) : unitChar c.toNat = c := by
  have hvalid : c.toNat.isValidChar := c.valid
  rw [unitChar, if_pos hvalid, Char.ofNat_toNat]

theorem fromUnits_map (w : Text) : fromUnits (w.map Char.toNat) = w := by
  induction w with
  | nil => rfl
  | cons c w ih =>
    cases w with
    | nil =>
      show [unitChar c.toNat] = _
      rw [unitChar_toNat]
    | cons d w =>
      rw [List.map_cons, List.map_cons, fromUnits, if_neg, unitChar_toNat]
      · exact congrArg (c :: ·) ih
      · intro hpair
        have hvalid : c.toNat.isValidChar := c.valid
        unfold Nat.isValidChar at hvalid
        omega

theorem readString_word {w : Text} (h : ∀ c ∈ w, isPlain c = true) (s : Text) :
    readString (w ++ '"' :: s) = some (w, s) := by
  unfold readString
  rw [readUnits_word h, Option.map_some, fromUnits_map]

theorem fromUnits_length (us : List Nat) : (fromUnits us).length ≤ us.length := by
  fun_induction fromUnits us with
  | case1 => exact Nat.le_refl _
  | case2 u => exact Nat.le_refl _
  | case3 u v us hpair ih =>
    rw [List.length_cons, List.length_cons, List.length_cons]
    omega
  | case4 u v us hpair ih =>
    rw [List.length_cons, List.length_cons]
    exact Nat.succ_le_succ ih

/-- Reading never makes a string longer. Behind the quote stands something that cannot go on as a
string, so a quote that is escaped does not help. -/
theorem readUnits_length {s : Text} (hstop : readUnits .plain s = none) : ∀ {w : Text} {mode : Mode}
    {us : List Nat} {r : Text}, readUnits mode (w ++ '"' :: s) = some (us, r) →
    us.length ≤ w.length := by
  have hmore : ∀ {w : Text} {u : Nat} {us : List Nat} {r : Text},
      ((readUnits .plain w).map fun r => (u :: r.1, r.2)) = some (us, r) →
      ∃ vs, us = u :: vs ∧ readUnits .plain w = some (vs, r) := by
    intro w u us r h
    obtain ⟨⟨vs, t⟩, hrest, heq⟩ := Option.map_eq_some_iff.mp h
    cases heq
    exact ⟨vs, rfl, hrest⟩
  intro w
  induction w with
  | nil =>
    intro mode us r h
    cases mode with
    | plain =>
      rw [List.nil_append, readUnits, if_pos rfl] at h
      cases h
      exact Nat.le_refl _
    | escape =>
      rw [List.nil_append, readUnits, if_neg (by decide), hstop] at h
      cases h
    | hex left value => cases h
  | cons c w ih =>
    intro mode us r h
    rw [List.cons_append] at h
    cases mode with
    | plain =>
      rw [readUnits] at h
      split at h
      · cases h
        exact Nat.zero_le _
      split at h
      · exact Nat.le_succ_of_le (ih h)
      split at h
      · cases h
      · obtain ⟨vs, rfl, hrest⟩ := hmore h
        exact Nat.succ_le_succ (ih hrest)
    | escape =>
      rw [readUnits] at h
      split at h
      · exact Nat.le_succ_of_le (ih h)
      · obtain ⟨u, -, h⟩ := Option.bind_eq_some_iff.mp h
        obtain ⟨vs, rfl, hrest⟩ := hmore h
        exact Nat.succ_le_succ (ih hrest)
    | hex left value =>
      rw [readUnits] at h
      obtain ⟨d, -, h⟩ := Option.bind_eq_some_iff.mp h
      split at h
      · obtain ⟨vs, rfl, hrest⟩ := hmore h
        exact Nat.succ_le_succ (ih hrest)
      · exact Nat.le_succ_of_le (ih h)

/-- It keeps its length only where there is nothing to read. -/
theorem readUnits_full {s : Text} (hstop : readUnits .plain s = none) {w : Text} {us : List Nat}
    {r : Text} (h : readUnits .plain (w ++ '"' :: s) = some (us, r)) (hlen : w.length ≤ us.length) :
    ∀ c ∈ w, isPlain c = true := by
  induction w generalizing us with
  | nil => exact fun c hc => absurd hc List.not_mem_nil
  | cons c w ih =>
    rw [List.cons_append, readUnits] at h
    by_cases hquote : c = '"'
    · -- the string ends inside the word
      rw [if_pos hquote] at h
      cases h
      exact absurd hlen (Nat.not_succ_le_zero _)
    rw [if_neg hquote] at h
    by_cases hback : c = '\\'
    · rw [if_pos hback] at h
      exact absurd (Nat.le_trans hlen (readUnits_length hstop h)) (Nat.not_succ_le_self _)
    rw [if_neg hback] at h
    by_cases hcontrol : c.toNat < 32
    · rw [if_pos hcontrol] at h
      cases h
    rw [if_neg hcontrol] at h
    obtain ⟨⟨vs, t⟩, hrest, heq⟩ := Option.map_eq_some_iff.mp h
    cases heq
    intro d hd
    rcases List.mem_cons.mp hd with rfl | hd
    · exact isPlain_iff.mpr ⟨hquote, hback, hcontrol⟩
    · exact ih hrest (Nat.le_of_succ_le_succ hlen) d hd

/-- **A string that comes back no shorter than it was written has nothing in it to escape.** -/
theorem readString_bound {w v s r : Text} (hstop : readUnits .plain s = none)
    (hlen : w.length ≤ v.length) (h : readString (w ++ '"' :: s) = some (v, r)) :
    ∀ c ∈ w, isPlain c = true := by
  obtain ⟨⟨us, t⟩, hunits, heq⟩ := Option.map_eq_some_iff.mp h
  cases heq
  exact readUnits_full hstop hunits (Nat.le_trans hlen (fromUnits_length us))

/-! ## Reading an object of known shape -/

theorem skip_char {c : Char} (h : isBlank c = false) (s : Text) : skip (c :: s) = c :: s :=
  List.dropWhile_cons_of_neg (by rw [h]; exact Bool.false_ne_true)

theorem skip_blank {c : Char} (h : isBlank c = true) (s : Text) : skip (c :: s) = skip s :=
  List.dropWhile_cons_of_pos h

theorem isBlank_digit {c : Char} (h : Text.isDigit c = true) : isBlank c = false := by
  refine Bool.eq_false_iff.mpr fun hblank => ?_
  simp only [isBlank, Bool.or_eq_true, beq_iff_eq] at hblank
  rcases hblank with ((rfl | rfl) | rfl) | rfl
  · exact absurd h (by decide)
  · exact absurd h (by decide)
  · exact absurd h (by decide)
  · exact absurd h (by decide)

theorem readKey_word {k s t : Text} (hk : ∀ c ∈ k, isPlain c = true)
    (hs : skip s = '"' :: (k ++ '"' :: ':' :: t)) : readKey s = some (k, t) := by
  unfold readKey expect
  rw [hs]
  show (readString (k ++ '"' :: ':' :: t)).bind _ = _
  rw [readString_word hk]
  rfl

variable {n : Nat} {s t u v w r : Text}

/-- A string that stands where a value is expected. -/
theorem string_value_iff (hs : skip s = '"' :: (w ++ '"' :: t)) (hstop : readUnits .plain t = none)
    (hlen : (∀ c ∈ w, isPlain c = true) ∨ w.length ≤ v.length) :
    readValue (n + 1) s = some (.string v, r) ↔ (∀ c ∈ w, isPlain c = true) ∧ v = w ∧ r = t := by
  have hvalue : readValue (n + 1) s =
      (readString (w ++ '"' :: t)).map fun x => (.string x.1, x.2) := by
    rw [readValue, hs]
    rfl
  rw [hvalue]
  constructor
  · intro h
    obtain ⟨⟨v', r'⟩, hread, heq⟩ := Option.map_eq_some_iff.mp h
    cases heq
    have hplain : ∀ c ∈ w, isPlain c = true :=
      hlen.elim id fun hlen => readString_bound hstop hlen hread
    rw [readString_word hplain] at hread
    cases hread
    exact ⟨hplain, rfl, rfl⟩
  · intro ⟨hplain, hv, hr⟩
    rw [readString_word hplain, hv, hr]
    rfl

/-- Digits that stand there, in front of a character that is no part of a number. -/
theorem number_value_iff {d : Char} (hs : skip s = w ++ d :: t) (hne : w ≠ [])
    (hw : ∀ c ∈ w, Text.isDigit c = true) (hd : Text.isDigit d = false)
    (hother : d ∉ ['.', 'e', 'E']) :
    readValue (n + 1) s = some (.number v, r) ↔ PlainNumber w ∧ v = w ∧ r = d :: t := by
  have htake : (w ++ d :: t).takeWhile Text.isDigit = w :=
    Pattern.takeWhile_run hw (Text.head_cons hd)
  have hdrop : (w ++ d :: t).dropWhile Text.isDigit = d :: t :=
    Pattern.dropWhile_run hw (Text.head_cons hd)
  have hdigits : readDigits (w ++ d :: t) = some (w, d :: t) := by
    unfold readDigits
    rw [htake, hdrop, if_neg hne]
  simp only [List.mem_cons, List.not_mem_nil, or_false, not_or] at hother
  have hfraction : readFraction (d :: t) = some ([], d :: t) := if_neg hother.1
  have hexponent : readExponent (d :: t) = some ([], d :: t) :=
    if_neg (not_or.mpr ⟨hother.2.1, hother.2.2⟩)
  have hnumber : readNumber (w ++ d :: t) =
      if PlainNumber w then some (w, d :: t) else none := by
    have hsign : readSign ['-'] (w ++ d :: t) = ([], w ++ d :: t) := by
      obtain ⟨c, w, rfl⟩ := List.exists_cons_of_ne_nil hne
      refine if_neg fun hc => ?_
      have hdigit := hw c List.mem_cons_self
      rw [List.mem_singleton.mp hc] at hdigit
      exact absurd hdigit (by decide)
    unfold readNumber readInteger
    rw [hsign]
    dsimp only
    rw [hdigits, Option.bind_some]
    by_cases hplain : PlainNumber w
    · rw [if_pos hplain, Option.bind_some, hfraction, Option.bind_some, hexponent]
      show some (([] ++ w ++ []) ++ [], d :: t) = _
      rw [List.append_nil, List.append_nil]
      rfl
    · rw [if_neg hplain]
      rfl
  have hvalue : readValue (n + 1) s =
      (readNumber (w ++ d :: t)).map fun x => (.number x.1, x.2) := by
    rw [readValue, hs]
    obtain ⟨c, w, rfl⟩ := List.exists_cons_of_ne_nil hne
    have hdigit := hw c List.mem_cons_self
    have hc : ∀ e : Char, Text.isDigit e = false → c ≠ e := by
      intro e he heq
      rw [heq, he] at hdigit
      cases hdigit
    rw [List.cons_append]
    dsimp only
    rw [if_neg (hc '"' rfl), if_neg (hc '\x7b' rfl), if_neg (hc '[' rfl)]
    have hatom : literals.find? (fun l => l.1.isPrefixOf (c :: (w ++ d :: t))) = none := by
      refine List.find?_eq_none.mpr fun l hl hprefix => ?_
      have hhead := List.isPrefixOf_iff_prefix.mp hprefix
      simp only [literals, List.mem_cons, List.not_mem_nil, or_false] at hl
      rcases hl with rfl | rfl | rfl
      · exact hc 't' rfl (List.cons_prefix_cons.mp hhead).1.symm
      · exact hc 'f' rfl (List.cons_prefix_cons.mp hhead).1.symm
      · exact hc 'n' rfl (List.cons_prefix_cons.mp hhead).1.symm
    rw [readAtom, hatom]
  rw [hvalue, hnumber]
  by_cases hplain : PlainNumber w
  · rw [if_pos hplain]
    constructor
    · intro h
      cases h
      exact ⟨hplain, rfl, rfl⟩
    · intro ⟨_, hv, hr⟩
      rw [hv, hr]
      rfl
  · rw [if_neg hplain]
    constructor
    · intro h
      cases h
    · intro h
      exact absurd h.1 hplain

theorem object_value_iff {ms : List (Text × Doc)} (hs : skip s = '\x7b' :: t)
    (hmore : expect '\x7d' t = none) :
    readValue (n + 1) s = some (.object ms, r) ↔ readMembers n t = some (ms, r) := by
  have hvalue : readValue (n + 1) s = (readMembers n t).map fun x => (.object x.1, x.2) := by
    rw [readValue, hs]
    dsimp only
    rw [if_neg (by decide), if_pos rfl, hmore]
  rw [hvalue]
  constructor
  · intro h
    obtain ⟨⟨ms', r'⟩, hread, heq⟩ := Option.map_eq_some_iff.mp h
    cases heq
    exact hread
  · intro h
    rw [h]
    rfl

theorem array_value_iff {vs : List Doc} (hs : skip s = '[' :: t) (hmore : expect ']' t = none) :
    readValue (n + 1) s = some (.array vs, r) ↔ readElements n t = some (vs, r) := by
  have hvalue : readValue (n + 1) s = (readElements n t).map fun x => (.array x.1, x.2) := by
    rw [readValue, hs]
    dsimp only
    rw [if_neg (by decide), if_neg (by decide), if_pos rfl, hmore]
  rw [hvalue]
  constructor
  · intro h
    obtain ⟨⟨ms', r'⟩, hread, heq⟩ := Option.map_eq_some_iff.mp h
    cases heq
    exact hread
  · intro h
    rw [h]
    rfl

theorem empty_array (hs : skip s = '[' :: t) (hend : expect ']' t = some u) :
    readValue (n + 1) s = some (.array [], u) := by
  rw [readValue, hs]
  dsimp only
  rw [if_neg (by decide), if_neg (by decide), if_pos rfl, hend]

theorem readMembers_ne_nil : ¬ readMembers n s = some ([], r) := by
  intro h
  cases n with
  | zero => cases h
  | succ n =>
    rw [readMembers] at h
    obtain ⟨k, -, h⟩ := Option.bind_eq_some_iff.mp h
    obtain ⟨v, -, h⟩ := Option.bind_eq_some_iff.mp h
    obtain ⟨e, -, h⟩ := Option.bind_eq_some_iff.mp h
    split at h
    · obtain ⟨ms, -, heq⟩ := Option.map_eq_some_iff.mp h
      cases heq
    · cases h

/-- A member with others behind it. -/
theorem member_iff {m : Text × Doc} {ms : List (Text × Doc)} {d : Doc}
    (hkey : readKey s = some (w, t)) :
    readMembers (n + 1) s = some ((w, d) :: m :: ms, r) ↔ ∃ u v, readValue n t = some (d, u) ∧
      readEnd '\x7d' u = some (true, v) ∧ readMembers n v = some (m :: ms, r) := by
  rw [readMembers, hkey, Option.bind_some]
  constructor
  · intro h
    obtain ⟨⟨d', u⟩, hvalue, h⟩ := Option.bind_eq_some_iff.mp h
    obtain ⟨⟨more, v⟩, hend, h⟩ := Option.bind_eq_some_iff.mp h
    cases more with
    | true =>
      obtain ⟨⟨ms', r'⟩, hmembers, heq⟩ := Option.map_eq_some_iff.mp h
      cases heq
      exact ⟨u, v, hvalue, hend, hmembers⟩
    | false => cases h
  · intro ⟨u, v, hvalue, hend, hmembers⟩
    show (readValue n t).bind _ = _
    rw [hvalue, Option.bind_some, hend, Option.bind_some, if_pos rfl, hmembers]
    rfl

/-- The last member. -/
theorem lastMember_iff {d : Doc} (hkey : readKey s = some (w, t)) :
    readMembers (n + 1) s = some ([(w, d)], r) ↔
      ∃ u, readValue n t = some (d, u) ∧ readEnd '\x7d' u = some (false, r) := by
  rw [readMembers, hkey, Option.bind_some]
  constructor
  · intro h
    obtain ⟨⟨d', u⟩, hvalue, h⟩ := Option.bind_eq_some_iff.mp h
    obtain ⟨⟨more, v⟩, hend, h⟩ := Option.bind_eq_some_iff.mp h
    cases more with
    | true =>
      obtain ⟨⟨ms, r'⟩, hmembers, heq⟩ := Option.map_eq_some_iff.mp h
      cases heq
      exact absurd hmembers readMembers_ne_nil
    | false =>
      cases h
      exact ⟨u, hvalue, hend⟩
  · intro ⟨u, hvalue, hend⟩
    show (readValue n t).bind _ = _
    rw [hvalue, Option.bind_some, hend]
    rfl

theorem readElements_ne_nil : ¬ readElements n s = some ([], r) := by
  intro h
  cases n with
  | zero => cases h
  | succ n =>
    rw [readElements] at h
    obtain ⟨v, -, h⟩ := Option.bind_eq_some_iff.mp h
    obtain ⟨e, -, h⟩ := Option.bind_eq_some_iff.mp h
    split at h
    · obtain ⟨ms, -, heq⟩ := Option.map_eq_some_iff.mp h
      cases heq
    · cases h

/-- An element with others behind it. -/
theorem element_iff {d e : Doc} {ds : List Doc} :
    readElements (n + 1) s = some (d :: e :: ds, r) ↔ ∃ u v, readValue n s = some (d, u) ∧
      readEnd ']' u = some (true, v) ∧ readElements n v = some (e :: ds, r) := by
  rw [readElements]
  constructor
  · intro h
    obtain ⟨⟨d', u⟩, hvalue, h⟩ := Option.bind_eq_some_iff.mp h
    obtain ⟨⟨more, v⟩, hend, h⟩ := Option.bind_eq_some_iff.mp h
    cases more with
    | true =>
      obtain ⟨⟨ds', r'⟩, helements, heq⟩ := Option.map_eq_some_iff.mp h
      cases heq
      exact ⟨u, v, hvalue, hend, helements⟩
    | false => cases h
  · intro ⟨u, v, hvalue, hend, helements⟩
    rw [hvalue, Option.bind_some, hend, Option.bind_some, if_pos rfl, helements]
    rfl

/-- The last element. -/
theorem lastElement_iff {d : Doc} : readElements (n + 1) s = some ([d], r) ↔
    ∃ u, readValue n s = some (d, u) ∧ readEnd ']' u = some (false, r) := by
  rw [readElements]
  constructor
  · intro h
    obtain ⟨⟨d', u⟩, hvalue, h⟩ := Option.bind_eq_some_iff.mp h
    obtain ⟨⟨more, v⟩, hend, h⟩ := Option.bind_eq_some_iff.mp h
    cases more with
    | true =>
      obtain ⟨⟨ds, r'⟩, helements, heq⟩ := Option.map_eq_some_iff.mp h
      cases heq
      exact absurd helements readElements_ne_nil
    | false =>
      cases h
      exact ⟨u, hvalue, hend⟩
  · intro ⟨u, hvalue, hend⟩
    rw [hvalue, Option.bind_some, hend]
    rfl

/-- A member that is a string, with others behind it. -/
theorem stringMember_iff {k : Text} {m : Text × Doc} {ms : List (Text × Doc)} {x y : Text}
    (hkey : readKey s = some (k, x)) (hs : skip x = '"' :: (w ++ '"' :: t))
    (hstop : readUnits .plain t = none)
    (hlen : (∀ c ∈ w, isPlain c = true) ∨ w.length ≤ v.length)
    (hend : readEnd '\x7d' t = some (true, y)) :
    readMembers (n + 2) s = some ((k, .string v) :: m :: ms, r) ↔
      (∀ c ∈ w, isPlain c = true) ∧ v = w ∧ readMembers (n + 1) y = some (m :: ms, r) := by
  rw [member_iff hkey]
  constructor
  · intro ⟨u, z, hvalue, hmore, hmembers⟩
    obtain ⟨hplain, hv, rfl⟩ := (string_value_iff hs hstop hlen).mp hvalue
    cases hend.symm.trans hmore
    exact ⟨hplain, hv, hmembers⟩
  · intro ⟨hplain, hv, hmembers⟩
    exact ⟨t, y, (string_value_iff hs hstop hlen).mpr ⟨hplain, hv, rfl⟩, hend, hmembers⟩

end Json
end TdsAdmin
