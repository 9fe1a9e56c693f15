import Mathlib.Data.List.Basic
import Mathlib.Data.List.Infix

/-!
# Text as a list of characters

The scripts modelled in this development do one thing with their input: they cut text up and
put it together again. `Text` is the list of the characters, and the functions here are the
ones Perl and the shell have built in — a literal pattern found anywhere in a line
(`Text.has`), the lines of a file with their newline (`Text.lines`), the first occurrence of a
word replaced (`Text.replaceFirst`), a number printed in decimal (`Text.decimal`).

Two facts carry most of the later arguments. `infix_across`: a needle that lacks a character
cannot straddle it. `lines_flatten`: reading a file by lines loses nothing.
-/

set_option autoImplicit false

namespace TdsAdmin

abbrev Text := List Char

namespace Text

/-- The characters of a literal. With `rfl` for the hypothesis a literal is taken apart at once,
instead of byte by byte. -/
theorem toList_eq {s : String} {cs : Text} (h : s = String.ofList cs) : s.toList = cs := by
  subst h
  exact String.toList_ofList

/-- What was checked character by character holds of every character. -/
theorem forall_of_all {p : Char → Bool} {b : Bool} {s : Text}
    (h : (s.all fun c => p c == b) = true) : ∀ c ∈ s, p c = b := by
  intro c hc
  exact eq_of_beq (List.all_eq_true.mp h c hc)

/-- What holds of a character, for the head of a text that starts with it. -/
theorem head_cons {p : Char → Prop} {d : Char} {s : Text} (hd : p d) :
    ∀ c w, d :: s = c :: w → p c := by
  intro c w h
  obtain ⟨rfl, -⟩ := List.cons.inj h
  exact hd

/-! ## A literal needle -/

/-- `/needle/` for a needle without metacharacters: the needle occurs somewhere. -/
def has (needle : Text) : Text → Bool
  | [] => needle.isEmpty
  | c :: s => needle.isPrefixOf (c :: s) || has needle s

/-- What follows the first place where the needle occurs. -/
def after (needle : Text) : Text → Text
  | [] => []
  | c :: s =>
      if needle.isPrefixOf (c :: s) then (c :: s).drop needle.length else after needle s

theorem has_iff {needle : Text} : ∀ {s : Text}, has needle s = true ↔ needle <:+: s
  | [] => by simp [has]
  | c :: s => by
    rw [has, Bool.or_eq_true, List.isPrefixOf_iff_prefix, has_iff, List.infix_cons_iff]

theorem has_eq_false {needle s : Text} : has needle s = false ↔ ¬ needle <:+: s := by
  rw [← has_iff, Bool.not_eq_true]

/-- A needle that lacks `c` lies on one side of every `c`. -/
theorem infix_across {needle u v : Text} {c : Char} (hc : c ∉ needle) :
    needle <:+: u ++ c :: v ↔ needle <:+: u ∨ needle <:+: v := by
  constructor
  · intro h
    rcases List.infix_append_iff.mp h with hu | hv | ⟨a, b, rfl, ha, hb⟩
    · exact Or.inl hu
    · rcases List.infix_cons_iff.mp hv with hp | hi
      · obtain ⟨t, ht⟩ := hp
        cases needle with
        | nil => exact Or.inl (List.nil_infix)
        | cons d needle =>
          simp only [List.cons_append, List.cons.injEq] at ht
          exact absurd (by simp [ht.1]) hc
      · exact Or.inr hi
    · cases b with
      | nil => rw [List.append_nil]; exact Or.inl ha.isInfix
      | cons d b =>
        obtain ⟨t, ht⟩ := hb
        simp only [List.cons_append, List.cons.injEq] at ht
        exact absurd (by simp [ht.1]) hc
  · rintro (h | h)
    · exact h.trans (List.prefix_append _ _).isInfix
    · exact h.trans (List.infix_cons_iff.mpr (Or.inr (List.infix_rfl))) |>.trans
        (List.suffix_append _ _).isInfix

/-- A needle that starts with the only `d` of a text is in it only there. -/
theorem infix_at_head {d : Char} {needle u v : Text} (hu : d ∉ u) (hv : d ∉ v) :
    d :: needle <:+: u ++ d :: v ↔ needle <+: v := by
  constructor
  · rintro ⟨x, y, h⟩
    rw [List.append_assoc, List.cons_append] at h
    obtain ⟨-, -, rfl⟩ := (List.append_cons_inj_of_notMem hu hv).mp h.symm
    exact List.prefix_append needle y
  · rintro ⟨y, rfl⟩
    exact ⟨u, y, by rw [List.append_assoc, List.cons_append]⟩

/-- A text is cut in one way at the first place of a character. -/
theorem cut_inj {c : Char} {u v s t : Text} (hu : c ∉ u) (hv : c ∉ v)
    (h : u ++ c :: s = v ++ c :: t) : u = v ∧ s = t := by
  induction u generalizing v with
  | nil =>
    cases v with
    | nil => exact ⟨rfl, (List.cons.inj h).2⟩
    | cons d v => exact absurd (List.cons.inj h).1 (List.ne_of_not_mem_cons hv)
  | cons d u ih =>
    cases v with
    | nil => exact absurd (List.cons.inj h).1.symm (List.ne_of_not_mem_cons hu)
    | cons e v =>
      obtain ⟨rfl, hrest⟩ := List.cons.inj h
      obtain ⟨rfl, hs⟩ :=
        ih (List.not_mem_of_not_mem_cons hu) (List.not_mem_of_not_mem_cons hv) hrest
      exact ⟨rfl, hs⟩

/-- A needle whose first character does not occur is not there. -/
theorem not_infix_of_head {d : Char} {needle s : Text} (h : d ∉ s) : ¬ d :: needle <:+: s :=
  fun hi => h (hi.subset (by simp))

/-! ## Lines

`while( <FILE> )` hands out the lines with their newline; only the last one may lack it. -/

def lines : Text → List Text
  | [] => []
  | c :: s =>
      if c = '\n' then ['\n'] :: lines s
      else match lines s with
        | [] => [[c]]
        | l :: ls => (c :: l) :: ls

@[simp] theorem lines_nil : lines [] = [] := rfl

/-- Reading by lines loses nothing. -/
theorem lines_flatten : ∀ s : Text, (lines s).flatten = s
  | [] => rfl
  | c :: s => by
    have ih := lines_flatten s
    rw [lines]
    by_cases hc : c = '\n'
    · simp [hc, ih]
    · rw [if_neg hc]
      cases hl : lines s with
      | nil => rw [hl] at ih; simpa using ih
      | cons l ls => rw [hl] at ih; simpa using ih

/-- `chomp`: the newline at the end, if there is one. -/
def chomp (line : Text) : Text := if line.getLast? = some '\n' then line.dropLast else line

theorem chomp_append (l : Text) : chomp (l ++ ['\n']) = l := by
  rw [chomp, List.getLast?_append, if_pos (by simp), List.dropLast_concat]

/-- A file of these lines, each with its newline. -/
def unlines (ls : List Text) : Text := ls.flatMap (· ++ ['\n'])

theorem lines_line {l : Text} (h : '\n' ∉ l) (s : Text) :
    lines (l ++ '\n' :: s) = (l ++ ['\n']) :: lines s := by
  induction l with
  | nil => rw [List.nil_append, lines, if_pos rfl, List.nil_append]
  | cons c l ih =>
    have hc : c ≠ '\n' := by
      rintro rfl
      exact h (by simp)
    have hl : '\n' ∉ l := fun hl => h (List.mem_cons_of_mem c hl)
    rw [List.cons_append, lines, if_neg hc, ih hl, List.cons_append]

theorem lines_ne_nil {s : Text} (h : s ≠ []) : lines s ≠ [] := by
  intro hnil
  have hflat := lines_flatten s
  rw [hnil] at hflat
  exact h hflat.symm

/-- The lines of a text that is cut behind a newline. -/
theorem lines_break (u s : Text) : lines (u ++ '\n' :: s) = lines (u ++ ['\n']) ++ lines s := by
  induction u with
  | nil => exact lines_line List.not_mem_nil s
  | cons c u ih =>
    rw [List.cons_append, List.cons_append, lines, lines, ih]
    split
    · rfl
    · cases hlines : lines (u ++ ['\n']) with
      | nil => exact absurd hlines (lines_ne_nil (by simp))
      | cons l ls => rfl

/-- The last line may lack its newline. -/
theorem lines_last {l : Text} (h : '\n' ∉ l) (hne : l ≠ []) : lines l = [l] := by
  induction l with
  | nil => exact absurd rfl hne
  | cons c l ih =>
    have hc : c ≠ '\n' := (List.ne_of_not_mem_cons h).symm
    rw [lines, if_neg hc]
    cases l with
    | nil => rfl
    | cons d l => rw [ih (List.not_mem_of_not_mem_cons h) (List.cons_ne_nil d l)]

/-- Lines come off the front of a text. -/
theorem lines_unlines_append {ls : List Text} (h : ∀ l ∈ ls, '\n' ∉ l) (s : Text) :
    lines (unlines ls ++ s) = ls.map (· ++ ['\n']) ++ lines s := by
  induction ls with
  | nil => rfl
  | cons l ls ih =>
    have htext : unlines (l :: ls) ++ s = l ++ '\n' :: (unlines ls ++ s) := by simp [unlines]
    rw [htext, lines_line (h l (by simp)), ih fun m hm => h m (List.mem_cons_of_mem l hm)]
    rfl

/-- **Lines that were written come back.** -/
theorem lines_unlines {ls : List Text} (h : ∀ l ∈ ls, '\n' ∉ l) :
    lines (unlines ls) = ls.map (· ++ ['\n']) := by
  have hlines := lines_unlines_append h []
  rw [List.append_nil, lines_nil, List.append_nil] at hlines
  exact hlines

/-! ## Replacement -/

/-- `s/needle/word/` for a literal needle: the leftmost occurrence only. -/
def replaceFirst (needle word : Text) : Text → Text
  | [] => []
  | c :: s =>
      if needle.isPrefixOf (c :: s) then word ++ (c :: s).drop needle.length
      else c :: replaceFirst needle word s

section Replace

variable {needle word u v : Text}

/-- Where the needle is found the rest of the text stays. -/
theorem replaceFirst_found (hne : needle ≠ []) (h : needle <:+: u) (v : Text) :
    replaceFirst needle word (u ++ v) = replaceFirst needle word u ++ v := by
  induction u with
  | nil => exact absurd (List.infix_nil.mp h) hne
  | cons c u ih =>
    rw [List.cons_append, replaceFirst, replaceFirst]
    by_cases hhere : needle <+: c :: u
    · have hlonger : needle <+: c :: (u ++ v) := hhere.trans (List.prefix_append (c :: u) v)
      rw [if_pos (List.isPrefixOf_iff_prefix.mpr hhere),
        if_pos (List.isPrefixOf_iff_prefix.mpr hlonger), ← List.cons_append,
        List.drop_append_of_le_length hhere.length_le, List.append_assoc]
    · have hlater : needle <:+: u := (List.infix_cons_iff.mp h).resolve_left hhere
      have hshort : needle.length ≤ (c :: u).length :=
        Nat.le_trans hlater.length_le (Nat.le_succ _)
      have hlonger : ¬ needle <+: c :: (u ++ v) := fun hp =>
        hhere (List.prefix_of_prefix_length_le hp (List.prefix_append (c :: u) v) hshort)
      rw [if_neg (mt List.isPrefixOf_iff_prefix.mp hhere),
        if_neg (mt List.isPrefixOf_iff_prefix.mp hlonger), ih hlater, List.cons_append]

/-- A text without the needle is passed over if the needle cannot reach over its end. -/
theorem replaceFirst_passed (h : ¬ needle <:+: u) (hv : ∀ c w, v = c :: w → c ∉ needle) :
    replaceFirst needle word (u ++ v) = u ++ replaceFirst needle word v := by
  induction u with
  | nil => rfl
  | cons c u ih =>
    have hhere : ¬ needle <+: c :: (u ++ v) := by
      intro hp
      rcases List.prefix_or_prefix_of_prefix hp (List.prefix_append (c :: u) v) with hin | hout
      · exact h hin.isInfix
      · obtain ⟨x, rfl⟩ := hout
        cases x with
        | nil => exact h (by rw [List.append_nil])
        | cons d x =>
          obtain ⟨w, hw⟩ := hp
          rw [← List.cons_append, List.append_assoc] at hw
          exact hv d _ (List.append_cancel_left hw).symm (by simp)
    rw [List.cons_append, replaceFirst, if_neg (mt List.isPrefixOf_iff_prefix.mp hhere),
      ih fun hu => h (hu.trans (List.suffix_cons c u).isInfix), List.cons_append]

/-- So is a text of characters that are not in the needle. -/
theorem replaceFirst_skip (hne : needle ≠ []) (hu : ∀ c ∈ u, c ∉ needle) :
    replaceFirst needle word (u ++ v) = u ++ replaceFirst needle word v := by
  induction u with
  | nil => rfl
  | cons c u ih =>
    have hhere : ¬ needle <+: c :: (u ++ v) := by
      intro hp
      obtain ⟨d, needle, rfl⟩ := List.exists_cons_of_ne_nil hne
      rw [List.cons_prefix_cons] at hp
      exact hu c List.mem_cons_self (hp.1 ▸ List.mem_cons_self)
    rw [List.cons_append, replaceFirst, if_neg (mt List.isPrefixOf_iff_prefix.mp hhere),
      ih fun d hd => hu d (List.mem_cons_of_mem c hd), List.cons_append]

theorem mem_replaceFirst {c : Char} (h : c ∈ replaceFirst needle word u) : c ∈ word ∨ c ∈ u := by
  induction u with
  | nil => exact Or.inr h
  | cons d u ih =>
    rw [replaceFirst] at h
    split at h
    · rcases List.mem_append.mp h with h | h
      · exact Or.inl h
      · exact Or.inr (List.mem_of_mem_drop h)
    · rcases List.mem_cons.mp h with rfl | h
      · exact Or.inr List.mem_cons_self
      · exact (ih h).imp id (List.mem_cons_of_mem d)

theorem replaceFirst_ne_nil (hword : word ≠ []) (hu : u ≠ []) :
    replaceFirst needle word u ≠ [] := by
  cases u with
  | nil => exact hu
  | cons c u =>
    rw [replaceFirst]
    split
    · exact List.append_ne_nil_of_left_ne_nil hword _
    · exact List.cons_ne_nil _ _

end Replace

/-- `lc`: the scripts read bytes, so only the letters of ASCII have a lower case. -/
def lower (s : Text) : Text := s.map Char.toLower

/-! ## Decimal numerals -/

/-- `\d`, on the digits the scripts write themselves. -/
def isDigit (c : Char) : Bool := c.isDigit

def digit (n : Nat) : Char := Char.ofNat (48 + n % 10)

/-- The digits of `n` with enough fuel for all of them; `decimal` supplies it. -/
def decimalFuel : Nat → Nat → Text
  | 0, _ => []
  | fuel + 1, n => (if n < 10 then [] else decimalFuel fuel (n / 10)) ++ [digit n]

/-- A number interpolated into a string. -/
def decimal (n : Nat) : Text := decimalFuel (n + 1) n

/-- A digit string used as a number. -/
def ofDecimal (s : Text) : Nat := s.foldl (fun a c => 10 * a + (c.toNat - 48)) 0

theorem digit_toNat (n : Nat) : (digit n).toNat = 48 + n % 10 := by
  have h : ∀ d, d < 10 → (Char.ofNat (48 + d)).toNat = 48 + d := by decide
  exact h (n % 10) (Nat.mod_lt n (by decide))

theorem digit_isDigit (n : Nat) : isDigit (digit n) = true := by
  have h : ∀ d, d < 10 → isDigit (Char.ofNat (48 + d)) = true := by decide
  exact h (n % 10) (Nat.mod_lt n (by decide))

theorem ofDecimal_append_digit (s : Text) (n : Nat) :
    ofDecimal (s ++ [digit n]) = 10 * ofDecimal s + n % 10 := by
  simp [ofDecimal, digit_toNat]

theorem ofDecimal_decimalFuel : ∀ (fuel n : Nat), n < fuel → ofDecimal (decimalFuel fuel n) = n
  | 0, n, h => absurd h (by omega)
  | fuel + 1, n, h => by
    rw [decimalFuel, ofDecimal_append_digit]
    by_cases hn : n < 10
    · simp only [hn, ↓reduceIte, ofDecimal, List.foldl_nil]; omega
    · rw [if_neg hn, ofDecimal_decimalFuel fuel (n / 10) (by omega)]; omega

/-- What is printed in decimal reads back as the same number. -/
@[simp] theorem ofDecimal_decimal (n : Nat) : ofDecimal (decimal n) = n :=
  ofDecimal_decimalFuel (n + 1) n (Nat.lt_succ_self n)

theorem decimalFuel_digits : ∀ (fuel n : Nat), ∀ c ∈ decimalFuel fuel n, isDigit c = true
  | 0, _, c, h => by simp [decimalFuel] at h
  | fuel + 1, n, c, h => by
    rw [decimalFuel, List.mem_append, List.mem_singleton] at h
    rcases h with h | rfl
    · by_cases hn : n < 10
      · simp [hn] at h
      · rw [if_neg hn] at h
        exact decimalFuel_digits fuel (n / 10) c h
    · exact digit_isDigit n

theorem decimal_digits (n : Nat) : ∀ c ∈ decimal n, isDigit c = true :=
  decimalFuel_digits (n + 1) n

theorem decimal_ne_nil (n : Nat) : decimal n ≠ [] := by
  simp [decimal, decimalFuel]

end Text

end TdsAdmin
