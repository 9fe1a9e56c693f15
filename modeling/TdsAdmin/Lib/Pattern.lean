import Mathlib.Data.List.TakeWhile
import TdsAdmin.Lib.Text

/-!
# Patterns with greedy runs

The regular expressions of the scripts repeat nothing but single character classes (`\s*`,
`[^"]*`, `\d+`), so a pattern is a list of pieces: one character of a class, a run of them, or
a run that is also captured. `matchHere` is the backtracking matcher — a run is tried at its
longest first and gives characters back only when what follows fails — and `search` looks for
the leftmost place where it succeeds.

Backtracking is what makes such a matcher awkward to reason about, and in these patterns it
never happens: what follows a run cannot start with a character of the run. `matchHere_run` and
`matchHere_capture` say that a run is then `dropWhile`, and they are the only two facts about
backtracking that the rest of the development uses.
-/

set_option autoImplicit false

namespace TdsAdmin

inductive Piece where
  /-- One character of the class. -/
  | one (p : Char → Bool)
  /-- `p*` -/
  | run (p : Char → Bool)
  /-- `(p*)` when `min` is 0, `(p+)` when it is 1. -/
  | capture (p : Char → Bool) (min : Nat)

abbrev Pattern := List Piece

namespace Pattern

/-- A literal stretch of a pattern. -/
def lit (s : Text) : Pattern := s.map fun c => .one (· == c)

/-- `\s` -/
def isSpace (c : Char) : Bool :=
  c == ' ' || c == '\t' || c == '\n' || c == '\r' || c == '\x0b' || c == '\x0c'

/-- The ways to cut a run of `p` off the front, the longest first. -/
def cuts (p : Char → Bool) : Text → List (Text × Text)
  | [] => [([], [])]
  | c :: s =>
      if p c then (cuts p s).map (fun uv => (c :: uv.1, uv.2)) ++ [([], c :: s)]
      else [([], c :: s)]

/-- Matches at the start of the text: the captured runs, and what is left of the text. -/
def matchHere : Pattern → Text → Option (List Text × Text)
  | [], s => some ([], s)
  | .one _ :: _, [] => none
  | .one p :: P, c :: s => if p c then matchHere P s else none
  | .run p :: P, s => (cuts p s).findSome? fun uv => matchHere P uv.2
  | .capture p min :: P, s => (cuts p s).findSome? fun uv =>
      if min ≤ uv.1.length then (matchHere P uv.2).map fun r => (uv.1 :: r.1, r.2) else none

/-- The leftmost match anywhere: what precedes it, the captured runs, and what follows it. -/
def search (P : Pattern) : Text → Option (Text × List Text × Text)
  | [] => (matchHere P []).map fun r => ([], r)
  | c :: s => match matchHere P (c :: s) with
      | some r => some ([], r)
      | none => (search P s).map fun r => (c :: r.1, r.2)

/-- `($1, $2, …)` after a successful match. -/
def captures (P : Pattern) (s : Text) : Option (List Text) := (search P s).map fun r => r.2.1

/-- `$1` after a successful match of a pattern with one group. -/
def first (P : Pattern) (s : Text) : Option Text := (captures P s).bind List.head?

/-- The pattern matches somewhere. -/
def test (P : Pattern) (s : Text) : Bool := (search P s).isSome

/-! ## One piece at a time -/

@[simp] theorem matchHere_nil (s : Text) : matchHere [] s = some ([], s) := rfl

theorem matchHere_one (p : Char → Bool) (P : Pattern) (c : Char) (s : Text) :
    matchHere (.one p :: P) (c :: s) = if p c then matchHere P s else none := rfl

@[simp] theorem matchHere_one_nil (p : Char → Bool) (P : Pattern) :
    matchHere (.one p :: P) [] = none := rfl

/-- A literal stretch either is there and comes off, or is not and nothing matches. -/
theorem matchHere_lit (P : Pattern) : ∀ (w s : Text),
    matchHere (lit w ++ P) (w ++ s) = matchHere P s
  | [], s => rfl
  | c :: w, s => by
    have ih := matchHere_lit P w s
    simp only [lit] at ih
    simp [lit, matchHere_one, ih]

theorem matchHere_lit_none (P : Pattern) : ∀ {w s : Text}, ¬ w <+: s →
    matchHere (lit w ++ P) s = none
  | [], s, h => absurd List.nil_prefix h
  | c :: w, [], _ => rfl
  | c :: w, d :: s, h => by
    have hstep : matchHere (lit (c :: w) ++ P) (d :: s)
        = if d == c then matchHere (lit w ++ P) s else none := rfl
    rw [hstep]
    by_cases hd : d = c
    · subst hd
      rw [if_pos (by simp)]
      exact matchHere_lit_none P fun hp => h (List.cons_prefix_cons.mpr ⟨rfl, hp⟩)
    · rw [if_neg (by simpa using hd)]

/-- What follows the run cannot start inside it. -/
def Stops (p : Char → Bool) (P : Pattern) : Prop :=
  ∀ c s, p c = true → matchHere P (c :: s) = none

theorem stops_lit {p : Char → Bool} {c : Char} {w : Text} {P : Pattern} (h : p c = false) :
    Stops p (lit (c :: w) ++ P) := by
  intro d s hd
  have hstep : matchHere (lit (c :: w) ++ P) (d :: s)
      = if d == c then matchHere (lit w ++ P) s else none := rfl
  rw [hstep, if_neg]
  intro hdc
  rw [beq_iff_eq.mp hdc, h] at hd
  exact absurd hd (by simp)

/-- A longer first candidate is the whole run; the shorter ones all stop inside it. -/
theorem findSome?_cuts {α : Type} {p : Char → Bool} (f : Text → Text → Option α)
    (hf : ∀ u c s, p c = true → f u (c :: s) = none) :
    ∀ s : Text, ((cuts p s).findSome? fun uv => f uv.1 uv.2)
      = f (s.takeWhile p) (s.dropWhile p)
  | [] => by simp [cuts]
  | c :: s => by
    by_cases hc : p c = true
    · have ih := findSome?_cuts (fun u v => f (c :: u) v) (fun u d t hd => hf (c :: u) d t hd) s
      rw [cuts, if_pos hc, List.findSome?_append, List.findSome?_map]
      simp only [Function.comp_def, List.findSome?_cons, List.findSome?_nil, hf [] c s hc,
        Option.or_none, List.takeWhile_cons, List.dropWhile_cons, hc, ↓reduceIte]
      exact ih
    · simp [cuts, hc]

theorem matchHere_run {p : Char → Bool} {P : Pattern} (h : Stops p P) (s : Text) :
    matchHere (.run p :: P) s = matchHere P (s.dropWhile p) :=
  findSome?_cuts (fun _ v => matchHere P v) (fun _ c s hc => h c s hc) s

theorem matchHere_capture {p : Char → Bool} {P : Pattern} {min : Nat} (h : Stops p P)
    (s : Text) :
    matchHere (.capture p min :: P) s
      = if min ≤ (s.takeWhile p).length then
          (matchHere P (s.dropWhile p)).map fun r => (s.takeWhile p :: r.1, r.2)
        else none :=
  findSome?_cuts
    (fun u v => if min ≤ u.length then
      (matchHere P v).map fun r : List Text × Text => (u :: r.1, r.2) else none)
    (fun u c s hc => by simp [h c s hc]) s

theorem cuts_head (p : Char → Bool) : ∀ s : Text,
    ∃ rest, cuts p s = (s.takeWhile p, s.dropWhile p) :: rest
  | [] => ⟨[], rfl⟩
  | c :: s => by
    by_cases hc : p c = true
    · obtain ⟨rest, hrest⟩ := cuts_head p s
      exact ⟨_, by rw [cuts, if_pos hc, hrest]; simp [hc]; rfl⟩
    · exact ⟨[], by rw [cuts, if_neg hc]; simp [hc]⟩

/-- A run at the end of a pattern takes all it can. -/
theorem matchHere_capture_last {p : Char → Bool} {min : Nat} {s : Text}
    (h : min ≤ (s.takeWhile p).length) :
    matchHere [.capture p min] s = some ([s.takeWhile p], s.dropWhile p) := by
  obtain ⟨rest, hrest⟩ := cuts_head p s
  rw [matchHere, hrest, List.findSome?_cons, if_pos h]
  rfl

theorem matchHere_run_last (p : Char → Bool) (s : Text) :
    matchHere [.run p] s = some ([], s.dropWhile p) := by
  obtain ⟨rest, hrest⟩ := cuts_head p s
  rw [matchHere, hrest, List.findSome?_cons]
  rfl

/-- The run that is really there comes off in one piece. -/
theorem dropWhile_run {p : Char → Bool} {u v : Text} (hu : ∀ c ∈ u, p c = true)
    (hv : ∀ c s, v = c :: s → p c = false) : (u ++ v).dropWhile p = v := by
  rw [List.dropWhile_append_of_pos hu]
  cases v with
  | nil => rfl
  | cons c s => simp [hv c s rfl]

theorem takeWhile_run {p : Char → Bool} {u v : Text} (hu : ∀ c ∈ u, p c = true)
    (hv : ∀ c s, v = c :: s → p c = false) : (u ++ v).takeWhile p = u := by
  rw [List.takeWhile_append_of_pos hu]
  cases v with
  | nil => simp
  | cons c s => simp [hv c s rfl]

/-- Where a run ends is the same however the text is cut. -/
theorem run_unique {p : Char → Bool} {u v x y : Text} {d e : Char} (hu : ∀ c ∈ u, p c = true)
    (hv : ∀ c ∈ v, p c = true) (hd : p d = false) (he : p e = false)
    (h : u ++ d :: x = v ++ e :: y) : u = v ∧ d = e ∧ x = y := by
  have hcut := congrArg (List.takeWhile p) h
  rw [takeWhile_run hu, takeWhile_run hv] at hcut
  · subst hcut
    obtain ⟨hhead, htail⟩ := List.cons.inj (List.append_cancel_left h)
    exact ⟨rfl, hhead, htail⟩
  · rintro c s heq
    cases heq
    exact he
  · rintro c s heq
    cases heq
    exact hd

/-! ## Where a pattern does not match -/

/-- No match starts in the part `u` of the text `u ++ v`. -/
def NoneIn (P : Pattern) (u v : Text) : Prop :=
  ∀ a b, u = a ++ b → b ≠ [] → matchHere P (b ++ v) = none

theorem NoneIn.nil (P : Pattern) (v : Text) : NoneIn P [] v := by
  intro a b h hb
  exact absurd (List.append_eq_nil_iff.mp h.symm).2 hb

theorem NoneIn.cons {P : Pattern} {c : Char} {u v : Text}
    (hc : matchHere P (c :: u ++ v) = none) (h : NoneIn P u v) : NoneIn P (c :: u) v := by
  intro a b hab hb
  cases a with
  | nil => simp only [List.nil_append] at hab; rw [← hab]; exact hc
  | cons d a =>
    simp only [List.cons_append, List.cons.injEq] at hab
    exact h a b hab.2 hb

theorem NoneIn.append {P : Pattern} : ∀ {u w v : Text}, NoneIn P u (w ++ v) → NoneIn P w v →
    NoneIn P (u ++ w) v
  | [], w, v, _, hw => hw
  | c :: u, w, v, hu, hw => by
    refine NoneIn.cons ?_ (NoneIn.append (fun a b h => hu (c :: a) b (by simp [h])) hw)
    simpa using hu [] (c :: u) rfl (by simp)

/-- A pattern that starts with the character `d` starts only at a `d`. -/
theorem NoneIn.of_not_mem {d : Char} {w : Text} {P : Pattern} {u v : Text} (h : d ∉ u) :
    NoneIn (lit (d :: w) ++ P) u v := by
  intro a b hab hb
  refine matchHere_lit_none P fun hp => ?_
  cases b with
  | nil => exact hb rfl
  | cons c b =>
    rw [List.cons_append, List.cons_prefix_cons] at hp
    exact h (by simp [hab, hp.1])

/-- The search passes over a stretch in which no match starts. -/
theorem search_skip {P : Pattern} : ∀ {u v : Text}, NoneIn P u v →
    search P (u ++ v) = (search P v).map fun r => (u ++ r.1, r.2)
  | [], v, _ => by simp
  | c :: u, v, h => by
    have hc : matchHere P (c :: (u ++ v)) = none := by
      simpa using h [] (c :: u) rfl (by simp)
    have hu : NoneIn P u v := fun a b hab => h (c :: a) b (by simp [hab])
    rw [List.cons_append, search, hc]
    simp only [search_skip hu, Option.map_map]
    rfl

theorem search_here {P : Pattern} {s : Text} {r : List Text × Text}
    (h : matchHere P s = some r) : search P s = some ([], r) := by
  cases s with
  | nil => simp [search, h]
  | cons c s => simp [search, h]

theorem search_none {P : Pattern} {s : Text} (h : NoneIn P s []) (hn : matchHere P [] = none) :
    search P s = none := by
  have := search_skip h
  rw [List.append_nil] at this
  rw [this]
  simp [search, hn]

/-- A pattern that starts with a literal needs the literal. -/
theorem captures_lit_none {w : Text} {P : Pattern} {s : Text} (h : ¬ w <:+: s) :
    captures (lit w ++ P) s = none := by
  have hnone : search (lit w ++ P) s = none := by
    refine search_none (fun a b hab _ => ?_) (matchHere_lit_none P fun hp => ?_)
    · rw [List.append_nil]
      exact matchHere_lit_none P fun hp => h (hp.isInfix.trans ⟨a, [], by rw [hab]; simp⟩)
    · exact h (List.prefix_nil.mp hp ▸ List.nil_infix)
  rw [captures, hnone]
  rfl

theorem captures_skip {P : Pattern} {u v : Text} (h : NoneIn P u v) :
    captures P (u ++ v) = captures P v := by
  simp [captures, search_skip h, Option.map_map, Function.comp_def]

theorem first_skip {P : Pattern} {u v : Text} (h : NoneIn P u v) :
    first P (u ++ v) = first P v := by
  rw [first, captures_skip h, first]

/-! ## What a match says about the text -/

theorem cuts_append {p : Char → Bool} : ∀ {s : Text} {uv : Text × Text}, uv ∈ cuts p s →
    s = uv.1 ++ uv.2 ∧ ∀ c ∈ uv.1, p c = true
  | [], uv, h => by
    simp only [cuts, List.mem_singleton] at h
    subst h
    simp
  | c :: s, uv, h => by
    rw [cuts] at h
    by_cases hc : p c = true
    · rw [if_pos hc, List.mem_append, List.mem_map, List.mem_singleton] at h
      rcases h with ⟨xy, hxy, rfl⟩ | rfl
      · obtain ⟨hs, hall⟩ := cuts_append hxy
        refine ⟨by simp [hs], fun d hd => ?_⟩
        rcases List.mem_cons.mp hd with rfl | hd
        · exact hc
        · exact hall d hd
      · simp
    · rw [if_neg hc, List.mem_singleton] at h
      subst h
      simp

/-- Every captured run is a stretch of the text, of characters its group allows. -/
theorem matchHere_captured {q : Char → Prop} : ∀ {P : Pattern} {s : Text} {r : List Text × Text},
    (∀ p min, .capture p min ∈ P → ∀ c, p c = true → q c) → matchHere P s = some r →
    r.2 <:+ s ∧ ∀ v ∈ r.1, v <:+: s ∧ ∀ c ∈ v, q c
  | [], s, r, _, h => by
    simp only [matchHere_nil, Option.some.injEq] at h
    subst h
    simp
  | .one p :: P, [], r, _, h => by simp at h
  | .one p :: P, c :: s, r, hq, h => by
    rw [matchHere_one] at h
    split at h
    · obtain ⟨hs, hv⟩ := matchHere_captured (fun p min hm => hq p min (by simp [hm])) h
      exact ⟨hs.trans (List.suffix_cons _ _), fun v hm =>
        ⟨(hv v hm).1.trans (List.suffix_cons _ _).isInfix, (hv v hm).2⟩⟩
    · exact absurd h (by simp)
  | .run p :: P, s, r, hq, h => by
    obtain ⟨uv, hm, h⟩ := List.exists_of_findSome?_eq_some h
    obtain ⟨hs, hv⟩ := matchHere_captured (fun p min hm => hq p min (by simp [hm])) h
    obtain ⟨rfl, -⟩ := cuts_append hm
    exact ⟨hs.trans (List.suffix_append _ _), fun v hm =>
      ⟨(hv v hm).1.trans (List.suffix_append _ _).isInfix, (hv v hm).2⟩⟩
  | .capture p min :: P, s, r, hq, h => by
    obtain ⟨uv, hm, h⟩ := List.exists_of_findSome?_eq_some h
    split at h
    · obtain ⟨t, ht, rfl⟩ := Option.map_eq_some_iff.mp h
      obtain ⟨hs, hv⟩ := matchHere_captured (fun p min hm => hq p min (by simp [hm])) ht
      obtain ⟨rfl, hall⟩ := cuts_append hm
      refine ⟨hs.trans (List.suffix_append _ _), fun v hv' => ?_⟩
      rcases List.mem_cons.mp hv' with rfl | hv'
      · exact ⟨(List.prefix_append _ _).isInfix, fun c hc => hq p min (by simp) c (hall c hc)⟩
      · exact ⟨(hv v hv').1.trans (List.suffix_append _ _).isInfix, (hv v hv').2⟩
    · exact absurd h (by simp)

theorem search_suffix {P : Pattern} : ∀ {s : Text} {r : Text × List Text × Text},
    search P s = some r → ∃ t, t <:+ s ∧ matchHere P t = some r.2
  | [], r, h => by
    obtain ⟨m, hm, rfl⟩ := Option.map_eq_some_iff.mp h
    exact ⟨[], List.suffix_rfl, hm⟩
  | c :: s, r, h => by
    rw [search] at h
    split at h
    · rename_i m hm
      simp only [Option.some.injEq] at h
      subst h
      exact ⟨c :: s, List.suffix_rfl, hm⟩
    · obtain ⟨m, hm, rfl⟩ := Option.map_eq_some_iff.mp h
      obtain ⟨t, ht, hmt⟩ := search_suffix hm
      exact ⟨t, ht.trans (List.suffix_cons _ _), hmt⟩

/-- The search finds the leftmost place where the pattern matches. -/
theorem search_eq_some_iff {P : Pattern} {u : Text} {r : List Text × Text} : ∀ {s : Text},
    search P s = some (u, r) ↔ ∃ w, s = u ++ w ∧ matchHere P w = some r ∧ NoneIn P u w := by
  intro s
  constructor
  · intro h
    induction s generalizing u with
    | nil =>
      obtain ⟨m, hm, heq⟩ := Option.map_eq_some_iff.mp h
      cases heq
      exact ⟨[], rfl, hm, NoneIn.nil P []⟩
    | cons c s ih =>
      rw [search] at h
      split at h
      · rename_i m hm
        cases h
        exact ⟨c :: s, rfl, hm, NoneIn.nil P _⟩
      · rename_i hhere
        obtain ⟨m, hm, heq⟩ := Option.map_eq_some_iff.mp h
        cases heq
        obtain ⟨w, rfl, hw, hnone⟩ := ih hm
        exact ⟨w, rfl, hw, NoneIn.cons hhere hnone⟩
  · rintro ⟨w, rfl, hw, hnone⟩
    rw [search_skip hnone, search_here hw]
    simp

theorem search_eq_none_iff {P : Pattern} {s : Text} :
    search P s = none ↔ ∀ u w, s = u ++ w → matchHere P w = none := by
  constructor
  · intro h
    induction s with
    | nil =>
      intro u w heq
      obtain ⟨-, rfl⟩ := List.append_eq_nil_iff.mp heq.symm
      exact Option.map_eq_none_iff.mp h
    | cons c s ih =>
      rw [search] at h
      split at h
      · cases h
      · rename_i hhere
        intro u w heq
        cases u with
        | nil =>
          rw [← heq.trans (List.nil_append w)]
          exact hhere
        | cons d u => exact ih (Option.map_eq_none_iff.mp h) u w (List.cons.inj heq).2
  · intro h
    refine search_none (fun a b hab _ => ?_) (h s [] (List.append_nil s).symm)
    rw [List.append_nil]
    exact h a b hab

/-! ## The texts that a pattern matches -/

theorem matchHere_lit_iff {P : Pattern} {w s : Text} {r : List Text × Text} :
    matchHere (lit w ++ P) s = some r ↔ ∃ t, s = w ++ t ∧ matchHere P t = some r := by
  constructor
  · intro h
    by_cases hp : w <+: s
    · obtain ⟨t, rfl⟩ := hp
      rw [matchHere_lit] at h
      exact ⟨t, rfl, h⟩
    · rw [matchHere_lit_none P hp] at h
      cases h
  · rintro ⟨t, rfl, h⟩
    rw [matchHere_lit]
    exact h

/-- What follows the run does not start inside it, or it would not match. -/
theorem Stops.head {p : Char → Bool} {P : Pattern} {w : Text} {r : List Text × Text}
    (h : Stops p P) (hw : matchHere P w = some r) : ∀ c s, w = c :: s → p c = false := by
  rintro c s rfl
  by_contra hc
  rw [h c s (Bool.not_eq_false _ ▸ hc)] at hw
  cases hw

theorem matchHere_run_iff {p : Char → Bool} {P : Pattern} (h : Stops p P) {s : Text}
    {r : List Text × Text} : matchHere (.run p :: P) s = some r ↔
      ∃ u w, s = u ++ w ∧ (∀ c ∈ u, p c = true) ∧ matchHere P w = some r := by
  rw [matchHere_run h]
  constructor
  · intro hr
    exact ⟨s.takeWhile p, s.dropWhile p, List.takeWhile_append_dropWhile.symm,
      fun c hc => List.mem_takeWhile_imp hc, hr⟩
  · rintro ⟨u, w, rfl, hu, hr⟩
    rw [dropWhile_run hu (h.head hr)]
    exact hr

theorem matchHere_capture_iff {p : Char → Bool} {P : Pattern} (h : Stops p P) {s : Text}
    {r : List Text × Text} : matchHere (.capture p 0 :: P) s = some r ↔
      ∃ u w t, s = u ++ w ∧ (∀ c ∈ u, p c = true) ∧ matchHere P w = some t ∧
        r = (u :: t.1, t.2) := by
  rw [matchHere_capture h, if_pos (Nat.zero_le _), Option.map_eq_some_iff]
  constructor
  · rintro ⟨t, ht, rfl⟩
    exact ⟨s.takeWhile p, s.dropWhile p, t, List.takeWhile_append_dropWhile.symm,
      fun c hc => List.mem_takeWhile_imp hc, ht, rfl⟩
  · rintro ⟨u, w, t, rfl, hu, ht, rfl⟩
    rw [dropWhile_run hu (h.head ht), takeWhile_run hu (h.head ht)]
    exact ⟨t, ht, rfl⟩

theorem captures_captured {q : Char → Prop} {P : Pattern} {s : Text} {vs : List Text}
    (hq : ∀ p min, .capture p min ∈ P → ∀ c, p c = true → q c) (h : captures P s = some vs) :
    ∀ v ∈ vs, v <:+: s ∧ ∀ c ∈ v, q c := by
  obtain ⟨r, hr, rfl⟩ := Option.map_eq_some_iff.mp h
  obtain ⟨t, ht, hm⟩ := search_suffix hr
  intro v hv
  obtain ⟨-, hall⟩ := matchHere_captured hq hm
  exact ⟨(hall v hv).1.trans ht.isInfix, (hall v hv).2⟩

theorem first_captured {q : Char → Prop} {P : Pattern} {s v : Text}
    (hq : ∀ p min, .capture p min ∈ P → ∀ c, p c = true → q c) (h : first P s = some v) :
    v <:+: s ∧ ∀ c ∈ v, q c := by
  obtain ⟨vs, hvs, hv⟩ := Option.bind_eq_some_iff.mp h
  exact captures_captured hq hvs v (List.mem_of_head? hv)

end Pattern

end TdsAdmin
