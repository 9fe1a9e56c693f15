import Mathlib.Data.List.Basic

/-!
# The first element that satisfies a test

A loop that waits for a line cuts the list at the first one it was waiting for. `Split p l` is
that cut, with the facts that make it the first as its fields, so that a definition can go on
from `split.after` without saying again where it starts.
-/

set_option autoImplicit false

namespace TdsAdmin

variable {α : Type}

structure Split (p : α → Bool) (l : List α) where
  before : List α
  item : α
  after : List α
  eq : l = before ++ item :: after
  before_not : ∀ x ∈ before, p x = false
  item_is : p item = true

namespace Split

variable {p : α → Bool} {l : List α}

def here {x : α} (h : p x = true) (l : List α) : Split p (x :: l) where
  before := []
  item := x
  after := l
  eq := rfl
  before_not := by simp
  item_is := h

def later {x : α} (h : p x = false) (s : Split p l) : Split p (x :: l) where
  before := x :: s.before
  item := s.item
  after := s.after
  eq := by rw [List.cons_append, ← s.eq]
  before_not := by
    intro y hy
    rcases List.mem_cons.mp hy with rfl | hy
    · exact h
    · exact s.before_not y hy
  item_is := s.item_is

/-- Either nothing satisfies the test or there is a first element that does. -/
theorem none_or_split (p : α → Bool) : ∀ l : List α,
    (∀ x ∈ l, p x = false) ∨ Nonempty (Split p l)
  | [] => Or.inl (by simp)
  | x :: l => by
    cases hx : p x with
    | true => exact Or.inr ⟨here hx l⟩
    | false =>
      rcases none_or_split p l with h | ⟨⟨s⟩⟩
      · refine Or.inl fun y hy => ?_
        rcases List.mem_cons.mp hy with rfl | hy
        · exact hx
        · exact h y hy
      · exact Or.inr ⟨later hx s⟩

theorem item_mem (s : Split p l) : s.item ∈ l :=
  (congrArg (s.item ∈ ·) s.eq).mpr (by simp)

theorem after_mem (s : Split p l) {x : α} (h : x ∈ s.after) : x ∈ l :=
  (congrArg (x ∈ ·) s.eq).mpr (by simp [h])

/-- An element that is not the one looked for is passed over, and the rest of the cut is one of
the rest of the list. -/
theorem pass {x : α} (s : Split p (x :: l)) (hx : p x = false) :
    ∃ r : Split p l, s.before = x :: r.before ∧ s.item = r.item ∧ s.after = r.after := by
  have heq := s.eq
  cases hb : s.before with
  | nil =>
    rw [hb, List.nil_append] at heq
    rw [(List.cons.inj heq).1, s.item_is] at hx
    exact absurd hx (by simp)
  | cons y b =>
    rw [hb, List.cons_append] at heq
    obtain ⟨rfl, hl⟩ := List.cons.inj heq
    exact ⟨⟨b, s.item, s.after, hl, fun z hz => s.before_not z (by simp [hb, hz]), s.item_is⟩,
      rfl, rfl, rfl⟩

end Split

/-! ## By position -/

/-- The position of the first element from `start` on that satisfies the test. If there is none it
is not a position of the list. -/
def firstFrom (p : α → Bool) (start : Nat) (l : List α) : Nat := start + (l.drop start).findIdx p

section Position

variable {p : α → Bool} {start : Nat} {l : List α} {x : α}

theorem le_firstFrom : start ≤ firstFrom p start l := Nat.le_add_right _ _

theorem of_firstFrom (h : l[firstFrom p start l]? = some x) : p x = true := by
  rw [firstFrom, ← List.getElem?_drop] at h
  exact List.findIdx_of_getElem?_eq_some h

theorem of_lt_firstFrom {i : Nat} (hstart : start ≤ i) (hi : i < firstFrom p start l)
    (h : l[i]? = some x) : p x = false := by
  obtain ⟨k, rfl⟩ := Nat.exists_eq_add_of_le hstart
  rw [← List.getElem?_drop] at h
  obtain ⟨hk, rfl⟩ := List.getElem?_eq_some_iff.mp h
  exact List.not_of_lt_findIdx (Nat.lt_of_add_lt_add_left hi)

end Position

end TdsAdmin
