import Mathlib.Data.List.Lex
import Mathlib.Data.Char
import TdsAdmin.Lib.Text

/-!
# Names that are counted up

Perl's `++` on a text of letters and then digits turns its last character like the last wheel of an
odometer: a digit, a capital or a small letter goes on to the next of its kind, and after `9`, `Z`
or `z` it is back at the first and takes the wheel before it along. When all wheels have gone round
a new one is put in front. Any other text is read as a number, and the next number is printed:
`a1b2` is followed by `1`. How numbers are read and printed is not looked into (`Numeric`).

`reading` is the number that an odometer shows, and `span` how many numbers it can show. As long as
it does not go round the next text shows the next number (`reading_increment`) and comes later in
the order of texts (`lt_increment`).
-/

set_option autoImplicit false

namespace TdsAdmin
namespace Odometer

/-! ## Wheels -/

inductive Wheel where
  | digit
  | capital
  | small
  deriving DecidableEq, Repr

namespace Wheel

def size : Wheel → Nat
  | digit => 10
  | capital => 26
  | small => 26

def first : Wheel → Char
  | digit => '0'
  | capital => 'A'
  | small => 'a'

/-- The `k`th character of the wheel. -/
def char (w : Wheel) (k : Nat) : Char := Char.ofNat (w.first.toNat + k)

end Wheel

/-- The wheel that a character is on, and its place there. -/
def place (c : Char) : Option (Wheel × Nat) :=
  if 48 ≤ c.toNat ∧ c.toNat < 58 then some (.digit, c.toNat - 48)
  else if 65 ≤ c.toNat ∧ c.toNat < 91 then some (.capital, c.toNat - 65)
  else if 97 ≤ c.toNat ∧ c.toNat < 123 then some (.small, c.toNat - 97)
  else none

theorem place_char {w : Wheel} {k : Nat} (h : k < w.size) : place (w.char k) = some (w, k) := by
  have hall : ∀ w : Wheel, ∀ k < w.size, place (w.char k) = some (w, k) := by
    intro w
    cases w <;> decide
  exact hall w k h

theorem char_lt {w : Wheel} {k l : Nat} (hkl : k < l) (hl : l < w.size) :
    w.char k < w.char l := by
  have hall : ∀ w : Wheel, ∀ k < w.size, (w.char k).toNat = w.first.toNat + k := by
    intro w
    cases w <;> decide
  have hnat : (w.char k).toNat < (w.char l).toNat := by
    rw [hall w k (hkl.trans hl), hall w l hl]
    exact Nat.add_lt_add_left hkl _
  exact hnat

theorem place_lt {c : Char} {w : Wheel} {k : Nat} (h : place c = some (w, k)) : k < w.size := by
  unfold place at h
  split at h
  · cases h
    simp only [Wheel.size]
    omega
  · split at h
    · cases h
      simp only [Wheel.size]
      omega
    · split at h
      · cases h
        simp only [Wheel.size]
        omega
      · cases h

/-- A character is known by its place. -/
theorem eq_char {c : Char} {w : Wheel} {k : Nat} (h : place c = some (w, k)) : c = w.char k := by
  have hback : ∀ n, n ≤ c.toNat → Char.ofNat (n + (c.toNat - n)) = c := by
    intro n hn
    rw [Nat.add_sub_cancel' hn, Char.ofNat_toNat]
  unfold place at h
  split at h
  · rename_i hc
    cases h
    exact (hback 48 hc.1).symm
  · split at h
    · rename_i hc
      cases h
      exact (hback 65 hc.1).symm
    · split at h
      · rename_i hc
        cases h
        exact (hback 97 hc.1).symm
      · cases h

/-! ## Turning -/

/-- The next character of the wheel, and whether it has gone round. -/
def turn (c : Char) : Char × Bool :=
  match place c with
  | none => (c, false)
  | some (w, k) => if k + 1 < w.size then (w.char (k + 1), false) else (w.char 0, true)

/-- The wheels from the last one on; the flag says that all of them have gone round. -/
def advance : Text → Text × Bool
  | [] => ([], true)
  | c :: s => match advance s with
      | (t, false) => (c :: t, false)
      | (t, true) => ((turn c).1 :: t, (turn c).2)

/-- What is put in front when all wheels have gone round. -/
def grow : Text → Text
  | [] => []
  | '0' :: s => '1' :: '0' :: s
  | c :: s => c :: c :: s

/-- The wheel of every character. -/
def kinds (s : Text) : List (Option Wheel) := s.map fun c => (place c).map Prod.fst

/-- `/^[a-zA-Z]*[0-9]*\z/` -/
def isCounter (s : Text) : Bool :=
  ((kinds s).dropWhile fun w => w == some .capital || w == some .small).all (· == some .digit)

/-- A number is printed with these: `1e+30`, `-0.5`, `Inf`, `NaN`. -/
def isNumberChar (c : Char) : Bool := c.isDigit || ".+-eInfNa".toList.contains c

/-- What is printed after a text that is read as a number. -/
structure Numeric where
  next : Text → Text
  chars : ∀ s, (next s).all isNumberChar = true

/-- `$s++` -/
def increment (numeric : Numeric) (s : Text) : Text :=
  if s ≠ [] ∧ isCounter s then
    match advance s with
    | (t, false) => t
    | (t, true) => grow t
  else numeric.next s

/-! ## What it shows -/

/-- Every character is on a wheel. -/
def Wheels (s : Text) : Prop := ∀ c ∈ s, (place c).isSome = true

def span : Text → Nat
  | [] => 1
  | c :: s => ((place c).elim 1 fun p => p.1.size) * span s

def reading : Text → Nat
  | [] => 0
  | c :: s => ((place c).elim 0 fun p => p.2) * span s + reading s

theorem Wheels.tail {c : Char} {s : Text} (h : Wheels (c :: s)) : Wheels s :=
  fun d hd => h d (List.mem_cons_of_mem c hd)

theorem Wheels.head {c : Char} {s : Text} (h : Wheels (c :: s)) : ∃ w k, place c = some (w, k) := by
  obtain ⟨⟨w, k⟩, hp⟩ := Option.isSome_iff_exists.mp (h c List.mem_cons_self)
  exact ⟨w, k, hp⟩

theorem kinds_cons (c : Char) (s : Text) :
    kinds (c :: s) = (place c).map Prod.fst :: kinds s := rfl

theorem length_of_kinds {s t : Text} (h : kinds s = kinds t) : s.length = t.length := by
  simpa [kinds] using congrArg List.length h

/-- How much an odometer can show depends on the kinds of its wheels only. -/
theorem span_of_kinds : ∀ {s t : Text}, kinds s = kinds t → span s = span t
  | [], [], _ => rfl
  | [], _ :: _, h => by simp [kinds] at h
  | _ :: _, [], h => by simp [kinds] at h
  | c :: s, d :: t, h => by
    rw [kinds_cons, kinds_cons] at h
    obtain ⟨hhead, htail⟩ := List.cons.inj h
    have hsize : (place c).elim 1 (fun p => p.1.size) = (place d).elim 1 fun p => p.1.size := by
      -- both are on one kind of wheel, or neither is on any
      cases hc : place c <;> cases hd : place d <;> simp_all
    rw [span, span, hsize, span_of_kinds htail]

theorem wheels_iff {s : Text} : Wheels s ↔ none ∉ kinds s := by
  simp [Wheels, kinds, Option.isSome_iff_ne_none]

/-- Letters and digits are on wheels. -/
theorem wheels_of_isCounter {s : Text} (h : isCounter s = true) : Wheels s := by
  rw [wheels_iff]
  intro hnone
  rw [← List.takeWhile_append_dropWhile (l := kinds s)
    (p := fun w => w == some .capital || w == some .small)] at hnone
  rcases List.mem_append.mp hnone with hletter | hdigit
  · have := List.all_eq_true.mp List.all_takeWhile _ hletter
    simp at this
  · have := List.all_eq_true.mp h _ hdigit
    simp at this

variable {s : Text}

/-- What the wheels show after one turn, and that they are still the same wheels. -/
theorem advance_spec (h : Wheels s) :
    kinds (advance s).1 = kinds s ∧
      if (advance s).2 then reading s + 1 = span s ∧ reading (advance s).1 = 0
      else reading (advance s).1 = reading s + 1 ∧ s < (advance s).1 := by
  induction s with
  | nil => simp [advance, reading, span, kinds]
  | cons c s ih =>
    obtain ⟨w, k, hp⟩ := h.head
    obtain ⟨hkinds, hread⟩ := ih h.tail
    have hk : k < w.size := place_lt hp
    have hspan := span_of_kinds hkinds
    rcases hadv : advance s with ⟨t, carry⟩
    rw [hadv] at hkinds hread hspan
    cases carry with
    | false =>
      -- the wheels behind have not gone round
      simp only [Bool.false_eq_true, ↓reduceIte] at hread
      simp only [advance, hadv, Bool.false_eq_true, ↓reduceIte]
      refine ⟨by rw [kinds_cons, kinds_cons, hkinds], ?_, ?_⟩
      · simp only [reading, hspan, hread.1]
        omega
      · exact List.cons_lt_cons_iff.mpr (Or.inr ⟨rfl, hread.2⟩)
    | true =>
      simp only [↓reduceIte] at hread
      simp only [advance, hadv, turn, hp]
      by_cases hnext : k + 1 < w.size
      · -- this wheel takes the carry
        have hpn := place_char hnext
        simp only [if_pos hnext, Bool.false_eq_true, ↓reduceIte]
        refine ⟨by simp [kinds_cons, hp, hpn, hkinds], ?_, ?_⟩
        · simp only [reading, hp, hpn, hspan, hread.2, Option.elim_some, Nat.succ_mul]
          omega
        · refine List.cons_lt_cons_iff.mpr (Or.inl ?_)
          rw [eq_char hp]
          exact char_lt (Nat.lt_succ_self k) hnext
      · -- and goes round itself
        have hp0 := place_char (w := w) (k := 0) (by omega)
        have hlast : k + 1 = w.size := by omega
        simp only [if_neg hnext, ↓reduceIte]
        refine ⟨by simp [kinds_cons, hp, hp0, hkinds], ?_, ?_⟩
        · simp only [reading, span, hp, Option.elim_some]
          rw [← hlast, Nat.succ_mul]
          omega
        · simp only [reading, hp0, Option.elim_some, Nat.zero_mul, Nat.zero_add]
          exact hread.2

theorem wheels_advance (h : Wheels s) : Wheels (advance s).1 := by
  rw [wheels_iff, (advance_spec h).1, ← wheels_iff]
  exact h

theorem wheels_grow (h : Wheels s) : Wheels (grow s) := by
  unfold grow
  split
  · exact h
  · exact List.forall_mem_cons.mpr ⟨by decide, h⟩
  · exact List.forall_mem_cons.mpr ⟨h _ List.mem_cons_self, h⟩

/-- The next text is one of letters and digits, or a number. -/
theorem wheels_or_number (numeric : Numeric) (s : Text) :
    Wheels (increment numeric s) ∨ (increment numeric s).all isNumberChar = true := by
  unfold increment
  split
  · rename_i hcounter
    have hwheels := wheels_advance (wheels_of_isCounter hcounter.2)
    left
    split
    · rename_i heq
      rwa [heq] at hwheels
    · rename_i heq
      rw [heq] at hwheels
      exact wheels_grow hwheels
  · exact Or.inr (numeric.chars s)

/-- An odometer that still can go on. -/
theorem increment_eq (numeric : Numeric) (h : isCounter s = true)
    (hroom : reading s + 1 < span s) :
    advance s = (increment numeric s, false) := by
  have hread := (advance_spec (wheels_of_isCounter h)).2
  have hne : s ≠ [] := by
    intro hnil
    subst hnil
    simp [reading, span] at hroom
  rcases hadv : advance s with ⟨t, carry⟩
  cases carry with
  | false => simp [increment, hadv, hne, h]
  | true =>
    simp only [hadv, ↓reduceIte] at hread
    omega

/-- **The next text shows the next number, on the same wheels.** -/
theorem reading_increment (numeric : Numeric) (h : isCounter s = true)
    (hroom : reading s + 1 < span s) :
    reading (increment numeric s) = reading s + 1 ∧ kinds (increment numeric s) = kinds s := by
  obtain ⟨hkinds, hread⟩ := advance_spec (wheels_of_isCounter h)
  rw [increment_eq numeric h hroom] at hkinds hread
  simp only [Bool.false_eq_true, ↓reduceIte] at hread
  exact ⟨hread.1, hkinds⟩

/-- **It comes later.** -/
theorem lt_increment (numeric : Numeric) (h : isCounter s = true)
    (hroom : reading s + 1 < span s) :
    s < increment numeric s := by
  have hread := (advance_spec (wheels_of_isCounter h)).2
  rw [increment_eq numeric h hroom] at hread
  simp only [Bool.false_eq_true, ↓reduceIte] at hread
  exact hread.2

example : isCounter "app009".toList = true ∧ (advance "app009".toList).1 = "app010".toList ∧
    isCounter "a1b2c3".toList = false := by decide

end Odometer
end TdsAdmin
