import Mathlib.Data.List.Basic

/-!
# Hosts in groups

A collection of named groups, each with hosts and with other groups as its children. A group that
has only ever been given hosts is kept as a list, and becomes a record with two entries when it is
given a child; which of the two it is makes no difference to what is in it.

An `Entry` is one step. What a list of them leaves in a group depends on what was there and on
nothing else: `hosts_run` for the hosts, `children_run` for the children. Both are folds of steps
that either add something or start afresh (`Adds`), and such a fold, done twice, leaves what it
leaves when it is done once.
-/

set_option autoImplicit false

namespace TdsAdmin
namespace Grouping

variable {κ η α ε : Type}

/-! ## Steps that add or start afresh -/

/-- A list is added to, or what was in it does not matter. -/
def Adds (f : List α → List α) : Prop :=
  (∀ l, f l = f []) ∨ ∀ l x, x ∈ f l ↔ x ∈ l ∨ x ∈ f []

theorem Adds.id : Adds fun l : List α => l := Or.inr fun l x => by simp

theorem Adds.comp {f g : List α → List α} (hf : Adds f) (hg : Adds g) :
    Adds fun l => g (f l) := by
  rcases hf with hf | hf
  · left
    intro l
    dsimp only
    rw [hf l]
  · rcases hg with hg | hg
    · left
      intro l
      dsimp only
      rw [hg (f l), hg (f [])]
    · right
      intro l x
      dsimp only
      rw [hg (f l), hg (f []), hf l x, or_assoc]

theorem Adds.foldl {step : List α → ε → List α} (h : ∀ e, Adds fun l => step l e)
    (entries : List ε) : Adds fun l => entries.foldl step l := by
  induction entries with
  | nil => exact Adds.id
  | cons e entries ih => exact (h e).comp ih

theorem Adds.twice {f : List α → List α} (h : Adds f) (x : α) : x ∈ f (f []) ↔ x ∈ f [] := by
  rcases h with h | h
  · rw [h (f [])]
  · rw [h (f []) x, or_self]

/-! ## Groups -/

inductive Group (κ η : Type) where
  | list (hosts : List η)
  /-- Either entry may not be there. -/
  | dict (hosts : Option (List η)) (children : Option (List κ))
  deriving DecidableEq

def Group.hosts : Group κ η → List η
  | .list hosts => hosts
  | .dict hosts _ => hosts.getD []

def Group.children : Group κ η → List κ
  | .list _ => []
  | .dict _ children => children.getD []

abbrev Groups (κ η : Type) := κ → Option (Group κ η)

namespace Groups

def hosts (g : Groups κ η) (key : κ) : List η := ((g key).map Group.hosts).getD []

def children (g : Groups κ η) (key : κ) : List κ := ((g key).map Group.children).getD []

/-- A host is in a group or in one of those below it. -/
inductive Member (g : Groups κ η) : κ → η → Prop where
  | here {key : κ} {host : η} (h : host ∈ g.hosts key) : Member g key host
  | inside {key child : κ} {host : η} (h : child ∈ g.children key) (hchild : Member g child host) :
      Member g key host

section Steps

variable [DecidableEq κ]

def set (g : Groups κ η) (key : κ) (group : Group κ η) : Groups κ η :=
  fun other => if other = key then some group else g other

/-- A host is put into a group. -/
def push (g : Groups κ η) (key : κ) (element : η) : Groups κ η :=
  match g key with
  | none => g.set key (.list [element])
  | some (.list hosts) => g.set key (.list (hosts ++ [element]))
  | some (.dict hosts children) => g.set key (.dict (some (hosts.getD [] ++ [element])) children)

/-- A child is recorded once. -/
def withChild (children : List κ) (element : κ) : List κ :=
  if element ∈ children then children else children ++ [element]

/-- A group is made a child of another one. -/
def pushGroup (g : Groups κ η) (key : κ) (element : κ) : Groups κ η :=
  match g key with
  | none => g.set key (.dict none (some (withChild [] element)))
  | some (.list hosts) => g.set key (.dict (some hosts) (some (withChild [] element)))
  | some (.dict hosts children) =>
      g.set key (.dict hosts (some (withChild (children.getD []) element)))

variable {g : Groups κ η} {key other : κ}

theorem hosts_set (group : Group κ η) : (g.set key group).hosts other =
    if other = key then group.hosts else g.hosts other := by
  unfold hosts set
  split <;> rfl

theorem children_set (group : Group κ η) : (g.set key group).children other =
    if other = key then group.children else g.children other := by
  unfold children set
  split <;> rfl

theorem isSome_set (group : Group κ η) : ((g.set key group) other).isSome ↔
    (g other).isSome ∨ other = key := by
  unfold set
  split
  · rename_i h
    simp [h]
  · rename_i h
    simp [h]

/-- What `push` writes. -/
theorem push_eq_set (key : κ) (element : η) (g : Groups κ η) : ∃ group, g.push key element =
    g.set key group ∧ group.hosts = g.hosts key ++ [element] ∧ group.children = g.children key := by
  unfold push
  split
  · rename_i h
    exact ⟨_, rfl, by simp [hosts, h, Group.hosts], by simp [children, h, Group.children]⟩
  · rename_i h
    exact ⟨_, rfl, by simp [hosts, h, Group.hosts], by simp [children, h, Group.children]⟩
  · rename_i h
    exact ⟨_, rfl, by simp [hosts, h, Group.hosts], by simp [children, h, Group.children]⟩

/-- What `pushGroup` writes. -/
theorem pushGroup_eq_set (key element : κ) (g : Groups κ η) : ∃ group, g.pushGroup key element =
    g.set key group ∧ group.hosts = g.hosts key ∧
      group.children = withChild (g.children key) element := by
  unfold pushGroup
  split
  · rename_i h
    exact ⟨_, rfl, by simp [hosts, h, Group.hosts], by simp [children, h, Group.children]⟩
  · rename_i h
    exact ⟨_, rfl, by simp [hosts, h, Group.hosts], by simp [children, h, Group.children]⟩
  · rename_i h
    exact ⟨_, rfl, by simp [hosts, h, Group.hosts], by simp [children, h, Group.children]⟩

theorem mem_withChild {children : List κ} {element child : κ} :
    child ∈ withChild children element ↔ child ∈ children ∨ child = element := by
  unfold withChild
  split
  · rename_i h
    apply Iff.intro Or.inl
    intro hor
    cases hor with
    | inl hchild => exact hchild
    | inr heq => exact heq ▸ h
  · simp

end Steps
end Groups

/-! ## Many steps -/

inductive Entry (κ η : Type) where
  | push (key : κ) (element : η)
  | pushGroup (key : κ) (element : κ)
  /-- The group is made one of a single host, whatever it was. -/
  | only (key : κ) (element : η)
  deriving DecidableEq

/-- The group that a step is about. -/
def Entry.key : Entry κ η → κ
  | .push key _ => key
  | .pushGroup key _ => key
  | .only key _ => key

section Runs

variable [DecidableEq κ]

/-- What a step does to the hosts of a group. -/
def Entry.onHosts (key : κ) (hosts : List η) : Entry κ η → List η
  | .push k element => if key = k then hosts ++ [element] else hosts
  | .pushGroup _ _ => hosts
  | .only k element => if key = k then [element] else hosts

/-- What a step does to the children of a group. -/
def Entry.onChildren (key : κ) (children : List κ) : Entry κ η → List κ
  | .push _ _ => children
  | .pushGroup k element => if key = k then Groups.withChild children element else children
  | .only k _ => if key = k then [] else children

/-- What a step puts into a group. -/
def Entry.into (key : κ) : Entry κ η → Option η
  | .push k element => if key = k then some element else none
  | .pushGroup _ _ => none
  | .only k element => if key = k then some element else none

theorem Entry.adds_onHosts (key : κ) (e : Entry κ η) : Adds fun l => Entry.onHosts key l e := by
  cases e with
  | push k element =>
    right
    intro l x
    by_cases h : key = k <;> simp [Entry.onHosts, h]
  | pushGroup k element => exact Adds.id
  | only k element =>
    by_cases h : key = k
    · left
      intro l
      simp [Entry.onHosts, h]
    · right
      intro l x
      simp [Entry.onHosts, h]

theorem Entry.adds_onChildren (key : κ) (e : Entry κ η) :
    Adds fun l => Entry.onChildren key l e := by
  cases e with
  | push k element => exact Adds.id
  | pushGroup k element =>
    right
    intro l x
    by_cases h : key = k <;> simp [Entry.onChildren, h, Groups.mem_withChild]
  | only k element =>
    by_cases h : key = k
    · left
      intro l
      simp [Entry.onChildren, h]
    · right
      intro l x
      simp [Entry.onChildren, h]

namespace Groups

def add (g : Groups κ η) : Entry κ η → Groups κ η
  | .push key element => g.push key element
  | .pushGroup key element => g.pushGroup key element
  | .only key element => g.set key (.list [element])

def run (g : Groups κ η) (entries : List (Entry κ η)) : Groups κ η := entries.foldl add g

variable {g : Groups κ η} {key : κ}

theorem run_cons (e : Entry κ η) (entries : List (Entry κ η)) :
    g.run (e :: entries) = (g.add e).run entries := rfl

theorem run_append (first second : List (Entry κ η)) :
    g.run (first ++ second) = (g.run first).run second := List.foldl_append

theorem hosts_add (e : Entry κ η) : (g.add e).hosts key = Entry.onHosts key (g.hosts key) e := by
  cases e with
  | push k element =>
    obtain ⟨group, heq, hhosts, -⟩ := push_eq_set k element g
    rw [add, heq, hosts_set, hhosts, Entry.onHosts]
    split
    · rename_i h
      rw [h]
    · rfl
  | pushGroup k element =>
    obtain ⟨group, heq, hhosts, -⟩ := pushGroup_eq_set k element g
    rw [add, heq, hosts_set, hhosts, Entry.onHosts]
    split
    · rename_i h
      rw [h]
    · rfl
  | only k element =>
    rw [add, hosts_set]
    rfl

theorem children_add (e : Entry κ η) :
    (g.add e).children key = Entry.onChildren key (g.children key) e := by
  cases e with
  | push k element =>
    obtain ⟨group, heq, -, hchildren⟩ := push_eq_set k element g
    rw [add, heq, children_set, hchildren, Entry.onChildren]
    split
    · rename_i h
      rw [h]
    · rfl
  | pushGroup k element =>
    obtain ⟨group, heq, -, hchildren⟩ := pushGroup_eq_set k element g
    rw [add, heq, children_set, hchildren, Entry.onChildren]
    split
    · rename_i h
      rw [h]
    · rfl
  | only k element =>
    rw [add, children_set]
    rfl

theorem isSome_add (e : Entry κ η) : ((g.add e) key).isSome ↔ (g key).isSome ∨ key = e.key := by
  cases e with
  | push k element =>
    obtain ⟨group, heq, -⟩ := push_eq_set k element g
    rw [add, heq, isSome_set]
    rfl
  | pushGroup k element =>
    obtain ⟨group, heq, -⟩ := pushGroup_eq_set k element g
    rw [add, heq, isSome_set]
    rfl
  | only k element => exact isSome_set _

/-- **The hosts of a group are known by its hosts before.** -/
theorem hosts_run (entries : List (Entry κ η)) (g : Groups κ η) :
    (g.run entries).hosts key = entries.foldl (Entry.onHosts key) (g.hosts key) := by
  induction entries generalizing g with
  | nil => rfl
  | cons e entries ih => rw [run_cons, ih, hosts_add, List.foldl_cons]

/-- **The children of a group are known by its children before.** -/
theorem children_run (entries : List (Entry κ η)) (g : Groups κ η) :
    (g.run entries).children key = entries.foldl (Entry.onChildren key) (g.children key) := by
  induction entries generalizing g with
  | nil => rfl
  | cons e entries ih => rw [run_cons, ih, children_add, List.foldl_cons]

theorem isSome_run (entries : List (Entry κ η)) (g : Groups κ η) :
    ((g.run entries) key).isSome ↔ (g key).isSome ∨ ∃ e ∈ entries, key = e.key := by
  induction entries generalizing g with
  | nil => simp [run]
  | cons e entries ih => rw [run_cons, ih, isSome_add, List.exists_mem_cons_iff, or_assoc]

/-- A group that no step starts afresh has the hosts that are put there, in their order. -/
theorem hosts_run_into {entries : List (Entry κ η)} (hnot : ∀ element, .only key element ∉ entries)
    (g : Groups κ η) :
    (g.run entries).hosts key = g.hosts key ++ entries.filterMap (Entry.into key) := by
  induction entries generalizing g with
  | nil => simp [run]
  | cons e entries ih =>
    have hhere : ∀ element, e ≠ .only key element :=
      fun element heq => hnot element (heq ▸ List.mem_cons_self)
    rw [run_cons, ih fun element hmem => hnot element (List.mem_cons_of_mem _ hmem), hosts_add,
      List.filterMap_cons]
    cases e with
    | push k element => by_cases h : key = k <;> simp [Entry.onHosts, Entry.into, h]
    | pushGroup k element => simp [Entry.onHosts, Entry.into]
    | only k element =>
      have hk : key ≠ k := fun heq => hhere element (by rw [heq])
      simp [Entry.onHosts, Entry.into, hk]

theorem mem_hosts_run {entries : List (Entry κ η)} {host : η}
    (h : host ∈ (g.run entries).hosts key) :
    host ∈ g.hosts key ∨ ∃ e ∈ entries, e.into key = some host := by
  induction entries generalizing g with
  | nil => exact Or.inl h
  | cons e entries ih =>
    rcases ih (g := g.add e) h with hadd | ⟨e', he', hinto⟩
    · rw [hosts_add] at hadd
      cases e with
      | push k element =>
        by_cases hk : key = k
        · rw [Entry.onHosts, if_pos hk, List.mem_append, List.mem_singleton] at hadd
          apply hadd.imp id
          intro heq
          exact ⟨_, List.mem_cons_self, by rw [Entry.into, if_pos hk, heq]⟩
        · rw [Entry.onHosts, if_neg hk] at hadd
          exact Or.inl hadd
      | pushGroup k element => exact Or.inl hadd
      | only k element =>
        by_cases hk : key = k
        · rw [Entry.onHosts, if_pos hk, List.mem_singleton] at hadd
          exact Or.inr ⟨_, List.mem_cons_self, by rw [Entry.into, if_pos hk, hadd]⟩
        · rw [Entry.onHosts, if_neg hk] at hadd
          exact Or.inl hadd
    · exact Or.inr ⟨e', List.mem_cons_of_mem _ he', hinto⟩

theorem mem_children_run {entries : List (Entry κ η)} {child : κ}
    (h : child ∈ (g.run entries).children key) :
    child ∈ g.children key ∨ .pushGroup key child ∈ entries := by
  induction entries generalizing g with
  | nil => exact Or.inl h
  | cons e entries ih =>
    rcases ih (g := g.add e) h with hadd | hmem
    · rw [children_add] at hadd
      cases e with
      | push k element => exact Or.inl hadd
      | pushGroup k element =>
        by_cases hk : key = k
        · rw [Entry.onChildren, if_pos hk, mem_withChild] at hadd
          apply hadd.imp id
          intro heq
          rw [hk, heq]
          exact List.mem_cons_self
        · rw [Entry.onChildren, if_neg hk] at hadd
          exact Or.inl hadd
      | only k element =>
        by_cases hk : key = k
        · rw [Entry.onChildren, if_pos hk] at hadd
          cases hadd
        · rw [Entry.onChildren, if_neg hk] at hadd
          exact Or.inl hadd
    · exact Or.inr (List.mem_cons_of_mem _ hmem)

/-- A child stays, unless its parent is started afresh. -/
theorem pushGroup_children_run {entries : List (Entry κ η)} {child : κ}
    (hnot : ∀ element, .only key element ∉ entries) (h : .pushGroup key child ∈ entries) :
    child ∈ (g.run entries).children key := by
  have hkeep : ∀ {entries : List (Entry κ η)} {children : List κ},
      (∀ element, .only key element ∉ entries) → child ∈ children →
      child ∈ entries.foldl (Entry.onChildren key) children := by
    intro entries
    induction entries with
    | nil => exact fun _ hmem => hmem
    | cons e entries ih =>
      intro children hnot hmem
      apply ih fun element hmem => hnot element (List.mem_cons_of_mem _ hmem)
      cases e with
      | push k element => exact hmem
      | pushGroup k element =>
        by_cases hk : key = k <;> simp [Entry.onChildren, hk, mem_withChild, hmem]
      | only k element =>
        have hk : key ≠ k := fun heq => hnot element (heq ▸ List.mem_cons_self)
        simpa [Entry.onChildren, hk] using hmem
  obtain ⟨before, after, rfl⟩ := List.append_of_mem h
  rw [children_run, List.foldl_append, List.foldl_cons]
  apply hkeep fun element hmem => hnot element (by simp [hmem])
  rw [Entry.onChildren, if_pos rfl, mem_withChild]
  exact Or.inr rfl

/-- **The same steps again change what is in no group.** -/
theorem hosts_run_twice (entries : List (Entry κ η)) {g : Groups κ η} (hnew : g.hosts key = [])
    (host : η) : host ∈ ((g.run entries).run entries).hosts key ↔
      host ∈ (g.run entries).hosts key := by
  rw [hosts_run, hosts_run, hnew]
  exact (Adds.foldl (Entry.adds_onHosts key) entries).twice host

/-- **Nor what is below any.** -/
theorem children_run_twice (entries : List (Entry κ η)) {g : Groups κ η}
    (hnew : g.children key = []) (child : κ) :
    child ∈ ((g.run entries).run entries).children key ↔
      child ∈ (g.run entries).children key := by
  rw [children_run, children_run, hnew]
  exact (Adds.foldl (Entry.adds_onChildren key) entries).twice child

end Groups
end Runs
end Grouping
end TdsAdmin
