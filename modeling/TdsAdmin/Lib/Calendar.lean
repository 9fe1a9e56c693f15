import Mathlib.Data.Nat.Basic
import Mathlib.Logic.Function.Iterate

/-!
# The Gregorian calendar

A `Date` is a day that exists: its month and its day of the month are in range, as a field.
`nextDay` is the calendar — it is the only place where months end and leap days are inserted —
and `dayNumber` is the count of days that arithmetic on dates goes through. `dayNumber_nextDay`
connects the two: one day later is one more, over every month, year and leap-day boundary. So
`Within k d e`, "`e` is reached from `d` in at most `k` days", is a bound on a difference.
-/

set_option autoImplicit false

namespace TdsAdmin

def isLeapYear (y : Nat) : Bool := (y % 4 == 0 && y % 100 != 0) || y % 400 == 0

def daysInYear (y : Nat) : Nat := if isLeapYear y then 366 else 365

def daysInMonth (y m : Nat) : Nat :=
  if m = 2 then if isLeapYear y then 29 else 28
  else if m = 4 ∨ m = 6 ∨ m = 9 ∨ m = 11 then 30
  else 31

@[ext] structure Date where
  year : Nat
  month : Nat
  day : Nat
  year_pos : 1 ≤ year
  month_ok : 1 ≤ month ∧ month ≤ 12
  day_ok : 1 ≤ day ∧ day ≤ daysInMonth year month

/-- Days in the years before. -/
def daysBeforeYear (y : Nat) : Nat :=
  365 * (y - 1) + (y - 1) / 4 - (y - 1) / 100 + (y - 1) / 400

/-- Days of the year in the months before. -/
def daysBeforeMonth (y : Nat) : Nat → Nat
  | 0 => 0
  | 1 => 0
  | m + 2 => daysBeforeMonth y (m + 1) + daysInMonth y (m + 1)

theorem daysInMonth_pos (y m : Nat) : 1 ≤ daysInMonth y m := by
  unfold daysInMonth
  split_ifs <;> omega

/-- The three corrections, one at a time: each counts one more exactly at its multiples. -/
theorem daysBeforeYear_succ {y : Nat} (h : 1 ≤ y) :
    daysBeforeYear (y + 1) = daysBeforeYear y + daysInYear y := by
  obtain ⟨n, rfl⟩ : ∃ n, y = n + 1 := ⟨y - 1, by omega⟩
  have hleap : isLeapYear (n + 1) = true ↔ (4 ∣ n + 1 ∧ ¬ 100 ∣ n + 1) ∨ 400 ∣ n + 1 := by
    simp [isLeapYear, Nat.dvd_iff_mod_eq_zero]
  have h4 : 100 ∣ n + 1 → 4 ∣ n + 1 := Nat.dvd_trans (by decide)
  have h100 : 400 ∣ n + 1 → 100 ∣ n + 1 := Nat.dvd_trans (by decide)
  have hle : n / 100 ≤ n / 4 := Nat.div_le_div_left (by decide) (by decide)
  simp only [daysBeforeYear, daysInYear, hleap, Nat.add_sub_cancel, Nat.succ_div]
  generalize n / 4 = a at *
  generalize n / 100 = b at *
  generalize n / 400 = c at *
  by_cases d400 : 400 ∣ n + 1
  · simp only [d400, h100 d400, h4 (h100 d400), if_true, or_true]
    omega
  · by_cases d100 : 100 ∣ n + 1
    · simp only [d400, d100, h4 d100, if_true, if_false, not_true_eq_false, and_false, or_false]
      omega
    · by_cases d4 : 4 ∣ n + 1
      · simp only [d400, d100, d4, if_true, if_false, not_false_eq_true, and_self, or_false]
        omega
      · simp only [d400, d100, d4, if_false, false_and, or_false]
        omega

theorem daysBeforeMonth_succ (y : Nat) {m : Nat} (h : 1 ≤ m) :
    daysBeforeMonth y (m + 1) = daysBeforeMonth y m + daysInMonth y m := by
  obtain ⟨k, rfl⟩ : ∃ k, m = k + 1 := ⟨m - 1, by omega⟩
  rfl

theorem daysBeforeMonth_year (y : Nat) : daysBeforeMonth y 13 = daysInYear y := by
  unfold daysInYear
  cases h : isLeapYear y <;> simp [daysBeforeMonth, daysInMonth, h]

theorem daysBeforeYear_le {y z : Nat} (hy : 1 ≤ y) (h : y ≤ z) :
    daysBeforeYear y ≤ daysBeforeYear z := by
  induction z, h using Nat.le_induction with
  | base => exact Nat.le_refl _
  | succ z hz ih =>
    rw [daysBeforeYear_succ (by omega)]
    omega

theorem daysBeforeMonth_le (y : Nat) {m n : Nat} (hm : 1 ≤ m) (h : m ≤ n) :
    daysBeforeMonth y m ≤ daysBeforeMonth y n := by
  induction n, h using Nat.le_induction with
  | base => exact Nat.le_refl _
  | succ n hn ih =>
    rw [daysBeforeMonth_succ y (by omega)]
    omega

namespace Date

/-- The number of the day, counted from the first day of the year 1. -/
def dayNumber (d : Date) : Nat :=
  daysBeforeYear d.year + daysBeforeMonth d.year d.month + d.day

/-- The date of these numbers, if there is one. -/
def ofNumbers (year month day : Nat) : Option Date :=
  if h : 1 ≤ year ∧ (1 ≤ month ∧ month ≤ 12) ∧ 1 ≤ day ∧ day ≤ daysInMonth year month then
    some ⟨year, month, day, h.1, h.2.1, h.2.2⟩
  else none

theorem ofNumbers_self (d : Date) : ofNumbers d.year d.month d.day = some d :=
  dif_pos ⟨d.year_pos, d.month_ok, d.day_ok⟩

def nextDay (d : Date) : Date :=
  if hd : d.day < daysInMonth d.year d.month then
    ⟨d.year, d.month, d.day + 1, d.year_pos, d.month_ok, by omega, hd⟩
  else if hm : d.month < 12 then
    ⟨d.year, d.month + 1, 1, d.year_pos, ⟨by omega, hm⟩, Nat.le_refl 1, daysInMonth_pos _ _⟩
  else
    ⟨d.year + 1, 1, 1, by omega, ⟨Nat.le_refl 1, by omega⟩, Nat.le_refl 1, daysInMonth_pos _ _⟩

/-- One day later is one more. -/
theorem dayNumber_nextDay (d : Date) : d.nextDay.dayNumber = d.dayNumber + 1 := by
  obtain ⟨hd1, hd2⟩ := d.day_ok
  obtain ⟨hm1, hm2⟩ := d.month_ok
  have hmonth := daysBeforeMonth_succ d.year hm1
  unfold nextDay
  split_ifs with hd hm
  · simp only [dayNumber]
    omega
  · simp only [dayNumber]
    omega
  · have h12 : d.month = 12 := by omega
    have hyear := daysBeforeYear_succ d.year_pos
    have h13 := daysBeforeMonth_year d.year
    have h1 : daysBeforeMonth (d.year + 1) 1 = 0 := rfl
    have hsucc : daysBeforeMonth d.year 13
        = daysBeforeMonth d.year 12 + daysInMonth d.year 12 := rfl
    rw [h12] at hd hd2
    simp only [dayNumber, h12]
    omega

theorem dayNumber_iterate (n : Nat) (d : Date) :
    (nextDay^[n] d).dayNumber = d.dayNumber + n := by
  induction n with
  | zero => rfl
  | succ n ih => rw [Function.iterate_succ_apply', dayNumber_nextDay, ih, Nat.add_assoc]

/-! ## The order of the days -/

instance : LT Date where
  lt d e := d.year < e.year ∨
    d.year = e.year ∧ (d.month < e.month ∨ d.month = e.month ∧ d.day < e.day)

instance : LE Date where
  le d e := ¬ e < d

theorem dayNumber_le_year (d : Date) : d.dayNumber ≤ daysBeforeYear (d.year + 1) := by
  have hmonth := daysBeforeMonth_succ d.year d.month_ok.1
  have hle := daysBeforeMonth_le d.year (m := d.month + 1) (n := 13) (by omega)
    (by have := d.month_ok.2; omega)
  have hyear := daysBeforeYear_succ d.year_pos
  have h13 := daysBeforeMonth_year d.year
  have := d.day_ok.2
  simp only [dayNumber]
  omega

theorem dayNumber_lt {d e : Date} (h : d < e) : d.dayNumber < e.dayNumber := by
  have hday := d.day_ok
  have hday' := e.day_ok
  rcases h with hy | ⟨hy, hm | ⟨hm, hd⟩⟩
  · have h1 := d.dayNumber_le_year
    have h2 := daysBeforeYear_le (y := d.year + 1) (z := e.year) (by omega) hy
    simp only [dayNumber] at h1 ⊢
    omega
  · have h1 := daysBeforeMonth_succ d.year d.month_ok.1
    have h2 := daysBeforeMonth_le d.year (m := d.month + 1) (n := e.month) (by omega) hm
    simp only [dayNumber, ← hy]
    omega
  · simp only [dayNumber, ← hy, ← hm]
    omega

theorem lt_trichotomy (d e : Date) : d < e ∨ d = e ∨ e < d := by
  rcases Nat.lt_trichotomy d.year e.year with hy | hy | hy
  · exact Or.inl (Or.inl hy)
  · rcases Nat.lt_trichotomy d.month e.month with hm | hm | hm
    · exact Or.inl (Or.inr ⟨hy, Or.inl hm⟩)
    · rcases Nat.lt_trichotomy d.day e.day with hd | hd | hd
      · exact Or.inl (Or.inr ⟨hy, Or.inr ⟨hm, hd⟩⟩)
      · exact Or.inr (Or.inl (Date.ext hy hm hd))
      · exact Or.inr (Or.inr (Or.inr ⟨hy.symm, Or.inr ⟨hm.symm, hd⟩⟩))
    · exact Or.inr (Or.inr (Or.inr ⟨hy.symm, Or.inl hm⟩))
  · exact Or.inr (Or.inr (Or.inl hy))

theorem dayNumber_injective {d e : Date} (h : d.dayNumber = e.dayNumber) : d = e := by
  rcases lt_trichotomy d e with hlt | heq | hgt
  · exact absurd (dayNumber_lt hlt) (by omega)
  · exact heq
  · exact absurd (dayNumber_lt hgt) (by omega)

theorem dayNumber_le {d e : Date} (h : d ≤ e) : d.dayNumber ≤ e.dayNumber := by
  rcases lt_trichotomy d e with hlt | heq | hgt
  · exact Nat.le_of_lt (dayNumber_lt hlt)
  · exact Nat.le_of_eq (congrArg dayNumber heq)
  · exact absurd hgt h

theorem le_refl (d : Date) : d ≤ d := fun h => absurd (dayNumber_lt h) (Nat.lt_irrefl _)

/-! ## Windows -/

/-- `e` is `d` or one of the `k` days after it. -/
def Within (k : Nat) (d e : Date) : Prop := ∃ n ≤ k, nextDay^[n] d = e

instance (d e : Date) : Decidable (d = e) :=
  decidable_of_iff (d.year = e.year ∧ d.month = e.month ∧ d.day = e.day)
    ⟨fun h => Date.ext h.1 h.2.1 h.2.2, fun h => h ▸ ⟨rfl, rfl, rfl⟩⟩

instance (k : Nat) (d e : Date) : Decidable (Within k d e) := by
  unfold Within
  infer_instance

theorem within_iff {k : Nat} {d e : Date} (h : d ≤ e) :
    Within k d e ↔ e.dayNumber - d.dayNumber ≤ k := by
  have hle := dayNumber_le h
  constructor
  · rintro ⟨n, hn, rfl⟩
    rw [dayNumber_iterate]
    omega
  · intro hk
    refine ⟨e.dayNumber - d.dayNumber, hk, dayNumber_injective ?_⟩
    rw [dayNumber_iterate]
    omega

/-- The number of days from the first date to the second. -/
def deltaDays (d e : Date) : Int := (e.dayNumber : Int) - d.dayNumber

end Date

end TdsAdmin
