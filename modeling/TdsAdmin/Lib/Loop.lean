import Mathlib.Data.List.Sort
import Mathlib.Data.List.Dedup

/-!
# Loops over the keys of a hash

`foreach $key (sort keys %hash)` goes through the keys in the order of their characters, each
once. `sortKeys` is that list, and `each` such a loop when its body prints something and changes a
variable that outlives it. Two loops inside one another are one loop over the pairs
(`each_nested`), in the order of the pairs (`pairs_ordered`).
-/

set_option autoImplicit false

namespace TdsAdmin
namespace Loop

/-! ## Keys in order -/

section Keys

variable {α : Type} [LinearOrder α]

/-- `sort keys` of a hash into which these keys were put. -/
def sortKeys (keys : List α) : List α := keys.dedup.insertionSort (· ≤ ·)

@[simp] theorem mem_sortKeys {a : α} {keys : List α} : a ∈ sortKeys keys ↔ a ∈ keys := by
  rw [sortKeys, List.mem_insertionSort, List.mem_dedup]

theorem sortKeys_ordered (keys : List α) : (sortKeys keys).Pairwise (· < ·) := by
  have hsorted : (sortKeys keys).Pairwise (· ≤ ·) := List.sortedLE_insertionSort.pairwise
  have hnodup : (sortKeys keys).Nodup :=
    (List.perm_insertionSort (· ≤ ·) keys.dedup).nodup_iff.mpr (List.nodup_dedup keys)
  exact (hsorted.and hnodup).imp fun h => lt_of_le_of_ne h.1 h.2

/-- In a list in order, to come before is to be less. -/
theorem pairwise_iff_lt {R : α → α → Prop} {l : List α} (h : l.Pairwise (· < ·)) :
    l.Pairwise R ↔ ∀ a ∈ l, ∀ b ∈ l, a < b → R a b := by
  induction l with
  | nil => simp
  | cons c l ih =>
    obtain ⟨hc, hl⟩ := List.pairwise_cons.mp h
    rw [List.pairwise_cons, ih hl]
    constructor
    · rintro ⟨hhead, htail⟩ a ha b hb hab
      rcases List.mem_cons.mp ha with rfl | ha'
      · rcases List.mem_cons.mp hb with rfl | hb'
        · exact absurd hab (lt_irrefl _)
        · exact hhead b hb'
      · rcases List.mem_cons.mp hb with rfl | hb'
        · exact absurd hab (lt_asymm (hc a ha'))
        · exact htail a ha' b hb' hab
    · intro hall
      refine ⟨fun b hb => hall c (by simp) b (by simp [hb]) (hc b hb), fun a ha b hb => ?_⟩
      exact hall a (by simp [ha]) b (by simp [hb])

end Keys

/-! ## A loop that prints -/

section Each

variable {α β σ ω : Type}

/-- What the loop prints, and the state after it. -/
def each (body : σ → α → List ω × σ) : σ → List α → List ω × σ
  | s, [] => ([], s)
  | s, a :: as =>
      ((body s a).1 ++ (each body (body s a).2 as).1, (each body (body s a).2 as).2)

@[simp] theorem each_nil (body : σ → α → List ω × σ) (s : σ) : each body s [] = ([], s) := rfl

theorem each_append (body : σ → α → List ω × σ) : ∀ (s : σ) (as bs : List α),
    each body s (as ++ bs) = ((each body s as).1 ++ (each body (each body s as).2 bs).1,
      (each body (each body s as).2 bs).2)
  | _, [], _ => rfl
  | s, a :: as, bs => by
    rw [List.cons_append, each, each_append body _ as bs, each, List.append_assoc]

/-- A loop inside a loop. -/
theorem each_nested (body : α → σ → β → List ω × σ) (inner : α → List β) :
    ∀ (s : σ) (as : List α), each (fun s a => each (body a) s (inner a)) s as
      = each (fun s x => body x.1 s x.2) s (as.flatMap fun a => (inner a).map (Prod.mk a))
  | _, [] => rfl
  | s, a :: as => by
    have hinner : ∀ (s : σ) (bs : List β), each (body a) s bs
        = each (fun s (x : α × β) => body x.1 s x.2) s (bs.map (Prod.mk a)) := by
      intro s bs
      induction bs generalizing s with
      | nil => rfl
      | cons b bs ih => rw [List.map_cons, each, each, ih]
    rw [List.flatMap_cons, each_append, each, each_nested body inner _ as, hinner]

/-- What every step of a loop keeps, the loop keeps. -/
theorem each_keeps {body : σ → α → List ω × σ} {P : σ → Prop}
    (h : ∀ s a, P s → P (body s a).2) {s : σ} {as : List α} (hs : P s) :
    P (each body s as).2 := by
  induction as generalizing s with
  | nil => exact hs
  | cons a as ih => exact ih (h s a hs)

end Each

/-! ## Pairs in order -/

/-- The order in which two loops, each over sorted keys, come to their pairs. -/
def Before {α β : Type} [LT α] [LT β] (x y : α × β) : Prop := x.1 < y.1 ∨ x.1 = y.1 ∧ x.2 < y.2

theorem pairs_ordered {α β : Type} [LinearOrder α] [LinearOrder β] {as : List α}
    {inner : α → List β} (has : as.Pairwise (· < ·)) (hinner : ∀ a, (inner a).Pairwise (· < ·)) :
    (as.flatMap fun a => (inner a).map (Prod.mk a)).Pairwise Before := by
  refine List.pairwise_flatMap.mpr ⟨?_, ?_⟩
  · intro a _
    refine List.pairwise_map.mpr ((hinner a).imp fun h => ?_)
    exact Or.inr ⟨rfl, h⟩
  · refine has.imp fun {a b} hab x hx y hy => ?_
    obtain ⟨_, -, rfl⟩ := List.mem_map.mp hx
    obtain ⟨_, -, rfl⟩ := List.mem_map.mp hy
    exact Or.inl hab

end Loop
end TdsAdmin
