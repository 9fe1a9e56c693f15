import Mathlib.Data.List.Count
import TdsAdmin.Lib.Sed

/-!
# Settings in a text

A line is a list of spans: text that nobody sets, and settings, each a key and its value. What is
*meant* by setting `a` is `setLine`; what `s|key[^ ]*|key value|` does is another matter, and the
two agree on a line exactly when the line is `Clear` for it (`onLine_exact_iff`).

The argument is about spaces. Neither the key nor the new value has one, so a line never has more
of them after setting, and the pattern, which runs to the next space, ends where the old value does
unless that value has one or something else follows it.
-/

set_option autoImplicit false

namespace TdsAdmin
namespace Settings

inductive Span (α : Type)
  | text (t : Text)
  | setting (a : α) (value : Text)

section Spans

variable {α : Type} (key : α → Text)

def Span.render : Span α → Text
  | .text t => t
  | .setting a value => key a ++ value

def render (line : List (Span α)) : Text := line.flatMap (Span.render key)

/-- Every setting of that name has the value. -/
def IsSet (a : α) (value : Text) (line : List (Span α)) : Prop :=
  ∀ old, Span.setting a old ∈ line → old = value

/-- A space comes before the next setting of that name. -/
def SpaceBefore (a : α) : List (Span α) → Prop
  | [] => True
  | .text t :: line => ' ' ∈ t ∨ SpaceBefore a line
  | .setting b _ :: line => b ≠ a ∧ SpaceBefore a line

/-- Two settings of one name do not stand in one word. -/
def Spaced (a : α) : List (Span α) → Prop
  | [] => True
  | .text _ :: line => Spaced a line
  | .setting b _ :: line => (b = a → SpaceBefore a line) ∧ Spaced a line

variable {key} {a b : α} {value old : Text} {line : List (Span α)}

theorem render_cons (s : Span α) (line : List (Span α)) :
    render key (s :: line) = s.render key ++ render key line := rfl

theorem render_append (left right : List (Span α)) :
    render key (left ++ right) = render key left ++ render key right := List.flatMap_append

theorem isSet_cons_setting : IsSet a value (.setting a old :: line) ↔
    old = value ∧ IsSet a value line := by
  constructor
  · intro h
    exact ⟨h old List.mem_cons_self, fun v hv => h v (List.mem_cons_of_mem _ hv)⟩
  · intro ⟨hold, h⟩ v hv
    rcases List.mem_cons.mp hv with hv | hv
    · cases hv
      exact hold
    · exact h v hv

theorem isSet_cons_other {s : Span α} (hs : ∀ old, s ≠ .setting a old) :
    IsSet a value (s :: line) ↔ IsSet a value line := by
  refine ⟨fun h v hv => h v (List.mem_cons_of_mem _ hv), fun h v hv => ?_⟩
  rcases List.mem_cons.mp hv with hv | hv
  · exact absurd hv.symm (hs v)
  · exact h v hv

/-- The first setting that is not set. -/
theorem exists_first (h : ¬ IsSet a value line) : ∃ left old right,
    line = left ++ .setting a old :: right ∧ IsSet a value left ∧ old ≠ value := by
  induction line with
  | nil => exact absurd (fun _ hv => by cases hv) h
  | cons s line ih =>
    by_cases hs : ∃ old, s = .setting a old
    · obtain ⟨old, rfl⟩ := hs
      by_cases hold : old = value
      · have hline : ¬ IsSet a value line := fun h' => h (isSet_cons_setting.mpr ⟨hold, h'⟩)
        obtain ⟨left, v, right, rfl, hleft, hv⟩ := ih hline
        exact ⟨.setting a old :: left, v, right, rfl, isSet_cons_setting.mpr ⟨hold, hleft⟩, hv⟩
      · exact ⟨[], old, line, rfl, (fun _ hv => by cases hv), hold⟩
    · have hs' : ∀ old, s ≠ .setting a old := fun old hold => hs ⟨old, hold⟩
      obtain ⟨left, v, right, rfl, hleft, hv⟩ := ih fun h' => h ((isSet_cons_other hs').mpr h')
      exact ⟨s :: left, v, right, rfl, (isSet_cons_other hs').mpr hleft, hv⟩

theorem Spaced.of_append {left right : List (Span α)} (h : Spaced a (left ++ right)) :
    Spaced a right := by
  induction left with
  | nil => exact h
  | cons s left ih =>
    cases s with
    | text t => exact ih h
    | setting b old => exact ih h.2

/-! ## The command on a line -/

/-- The command that sets a setting. -/
def setCommand (key : α → Text) (a : α) (value : Text) : Sed.Command :=
  ⟨key a ++ "[^ ]*".toList, (key a ++ value).map .char⟩

variable (key) in
/-- Where the pattern of a key matches first. -/
def found (a : α) (s : Text) : Option (Text × List Text × Text) :=
  Pattern.search (Sed.keyPattern (key a) ++ [.run Sed.isWordChar]) s

variable (key) in
/-- **What makes a line safe.** Either it is set already, and the first match is of what the
command writes; or one setting is not, it is the first match, and the match ends where it ends. -/
def Clear (a : α) (value : Text) (line : List (Span α)) : Prop :=
  (IsSet a value line ∧ ∀ before after, found key a (render key line) = some (before, [], after) →
    render key line = before ++ (key a ++ value) ++ after) ∨
  ∃ left old right, line = left ++ .setting a old :: right ∧ IsSet a value left ∧
    IsSet a value right ∧
    found key a (render key line) = some (render key left, [], render key right)

/-- A key without a space or a bracket. -/
structure IsKey (k : Text) : Prop where
  ne_nil : k ≠ []
  space : ' ' ∉ k
  bracket : '[' ∉ k

theorem onLine_none (hkey : IsKey (key a)) {s : Text} (h : found key a s = none) :
    (setCommand key a value).onLine s = s := by
  unfold Sed.Command.onLine setCommand
  dsimp only
  rw [Sed.compile_key hkey.bracket]
  unfold found at h
  rw [h]

theorem onLine_some (hkey : IsKey (key a)) {s before after : Text} {captured : List Text}
    (h : found key a s = some (before, captured, after)) :
    (setCommand key a value).onLine s = before ++ (key a ++ value) ++ after := by
  unfold Sed.Command.onLine setCommand
  dsimp only
  rw [Sed.compile_key hkey.bracket]
  unfold found at h
  rw [h]
  dsimp only
  rw [Sed.expand_chars]

theorem mem_onLine (hkey : IsKey (key a)) {c : Char} {s : Text}
    (h : c ∈ (setCommand key a value).onLine s) : c ∈ s ∨ c ∈ key a ++ value := by
  cases hfound : found key a s with
  | none =>
    rw [onLine_none hkey hfound] at h
    exact Or.inl h
  | some r =>
    obtain ⟨before, captured, after⟩ := r
    obtain ⟨t, rfl, hmatch, -⟩ := Pattern.search_eq_some_iff.mp hfound
    rw [onLine_some hkey hfound] at h
    rcases List.mem_append.mp h with h | h
    · exact (List.mem_append.mp h).imp (List.mem_append_left t) id
    · have hsuffix := (Pattern.matchHere_captured (q := fun _ => True) (fun _ _ _ _ _ => trivial)
        hmatch).1
      exact Or.inl (List.mem_append_right before (hsuffix.subset h))

/-- The first match ends with a word. -/
theorem found_ends {s : Text} {r : Text × List Text × Text} (h : found key a s = some r) :
    r.2.1 = [] ∧ Sed.EndsWord r.2.2 := by
  obtain ⟨t, -, ht⟩ := Pattern.search_suffix h
  exact Sed.matchHere_ends ht

/-- A match at a setting is not missed: the first one is there or before. -/
theorem found_before {left rest : Text} :
    ∃ before after d, found key a (left ++ (key a ++ rest)) = some (before, [], after) ∧
      left = before ++ d ∧ Pattern.matchHere (Sed.keyPattern (key a) ++ [.run Sed.isWordChar])
        (d ++ (key a ++ rest)) = some ([], after) := by
  have hhere := Sed.matchHere_key (key a) rest
  cases hfound : found key a (left ++ (key a ++ rest)) with
  | none =>
    have hnone := Pattern.search_eq_none_iff.mp hfound left (key a ++ rest) rfl
    rw [hhere] at hnone
    cases hnone
  | some r =>
    obtain ⟨before, captured, after⟩ := r
    obtain ⟨hcaptured, -⟩ := found_ends hfound
    obtain rfl : captured = [] := hcaptured
    obtain ⟨t, hsplit, hmatch, hnone⟩ := Pattern.search_eq_some_iff.mp hfound
    rcases List.append_eq_append_iff.mp hsplit with ⟨d, hbefore, hrest⟩ | ⟨d, hleft, hrest⟩
    · -- the match would be behind the setting, where one starts
      by_cases hd : d = []
      · subst hd
        rw [List.append_nil] at hbefore
        rw [List.nil_append] at hrest
        refine ⟨before, after, [], rfl, ?_, ?_⟩
        · rw [hbefore, List.append_nil]
        · rw [hrest]
          exact hmatch
      · have hmiss := hnone left d hbefore hd
        rw [← hrest, hhere] at hmiss
        cases hmiss
    · exact ⟨before, after, d, rfl, hleft, hrest ▸ hmatch⟩

variable {rest rest' after : Text}

/-- What is set is what the pattern has found: if it had found something before, the result would
differ from what was meant where the first word ends. -/
theorem found_here (hkey : IsKey (key a)) (hvalue : ' ' ∉ value) {d : Text}
    (hmatch : Pattern.matchHere (Sed.keyPattern (key a) ++ [.run Sed.isWordChar])
      (d ++ (key a ++ (old ++ rest))) = some ([], after))
    (heq : (key a ++ value) ++ after = d ++ ((key a ++ value) ++ rest'))
    (hchanged : value ++ rest' ≠ old ++ rest) : d = [] := by
  have hends : Sed.EndsWord after := (Sed.matchHere_ends hmatch).2
  have hword : ∀ c ∈ key a ++ value, c ≠ ' ' := by
    rintro c hc rfl
    exact (List.mem_append.mp hc).elim hkey.space hvalue
  have hwritten : key a ++ value ≠ [] := fun h => hkey.ne_nil (List.append_eq_nil_iff.mp h).1
  -- what follows the match does not start with a piece of what is written
  have hstart : ∀ {u v : Text}, u ≠ [] → (∀ c ∈ u, c ∈ key a ++ value) → after ≠ u ++ v := by
    intro u v hu hmem hafter
    obtain ⟨c, u', rfl⟩ := List.exists_cons_of_ne_nil hu
    exact hword c (hmem c List.mem_cons_self) (hends c (u' ++ v) hafter)
  by_contra hd
  rcases List.append_eq_append_iff.mp heq with ⟨d', hd', hafter⟩ | ⟨r, hr, hafter⟩
  · by_cases hnil : d' = []
    · rw [hnil, List.nil_append] at hafter
      exact hstart hwritten (fun c hc => hc) hafter
    · -- the text before starts with what would be written, so nothing has changed
      obtain ⟨c, u, rfl⟩ := List.exists_cons_of_ne_nil hnil
      have hc : c = ' ' := hends c _ hafter
      have hrun : ∀ c ∈ value, Sed.isWordChar c = true := by
        intro e he
        rw [Sed.isWordChar, bne_iff_ne]
        rintro rfl
        exact hvalue he
      have hmatch' := Sed.matchHere_key (key a) (value ++ (c :: u ++ (key a ++ (old ++ rest))))
      rw [List.append_assoc] at hd'
      rw [Pattern.dropWhile_run hrun (by
        intro e v he
        rw [List.cons_append] at he
        rw [← (List.cons.inj he).1, hc]
        rfl)] at hmatch'
      rw [hd', List.append_assoc, List.append_assoc, hmatch'] at hmatch
      have hsame := (Prod.mk.inj (Option.some.inj hmatch)).2
      rw [hafter] at hsame
      have hcut := List.append_cancel_left hsame
      rw [List.append_assoc] at hcut
      exact hchanged (List.append_cancel_left hcut).symm
  · -- the written text would start with a proper end of itself
    have hpos : 0 < d.length := List.length_pos_iff.mpr hd
    have hlength : (key a ++ value).length = d.length + r.length := by
      rw [hr, List.length_append]
    rcases List.append_eq_append_iff.mp hafter.symm with ⟨u, hu, hrest⟩ | ⟨u, hu, -⟩
    · have hne : u ≠ [] := by
        rintro rfl
        rw [List.append_nil] at hu
        rw [hu] at hlength
        omega
      refine hstart hne (fun c hc => ?_) hrest
      rw [hu]
      exact List.mem_append_right r hc
    · have hlength' := congrArg List.length hu
      rw [List.length_append] at hlength'
      omega

/-! ## Setting -/

variable [DecidableEq α]

def Span.set (a : α) (value : Text) : Span α → Span α
  | .text t => .text t
  | .setting b old => .setting b (if b = a then value else old)

def setLine (a : α) (value : Text) (line : List (Span α)) : List (Span α) :=
  line.map (Span.set a value)

theorem set_other {s : Span α} (hs : ∀ old, s ≠ .setting a old) : s.set a value = s := by
  cases s with
  | text t => rfl
  | setting b old =>
    have hb : b ≠ a := by
      rintro rfl
      exact hs old rfl
    rw [Span.set, if_neg hb]

theorem set_same : (Span.setting a old).set a value = .setting a value := by
  rw [Span.set, if_pos rfl]

/-- Nothing happens to a line that is set. -/
theorem setLine_of_isSet (h : IsSet a value line) : setLine a value line = line := by
  induction line with
  | nil => rfl
  | cons s line ih =>
    have hline : IsSet a value line := fun v hv => h v (List.mem_cons_of_mem _ hv)
    show s.set a value :: setLine a value line = s :: line
    rw [ih hline]
    by_cases hs : ∃ old, s = .setting a old
    · obtain ⟨old, rfl⟩ := hs
      rw [set_same, h old List.mem_cons_self]
    · rw [set_other fun old hold => hs ⟨old, hold⟩]

theorem isSet_setLine : IsSet a value (setLine a value line) := by
  intro v hv
  obtain ⟨s, -, hs⟩ := List.mem_map.mp hv
  cases s with
  | text t => cases hs
  | setting b old =>
    obtain ⟨rfl, rfl⟩ := Span.setting.inj hs
    exact if_pos rfl

/-- Setting one name leaves the others as they are. -/
theorem isSet_setLine_other {w : Text} (hab : b ≠ a) (h : IsSet a value line) :
    IsSet a value (setLine b w line) := by
  intro v hv
  obtain ⟨s, hs, heq⟩ := List.mem_map.mp hv
  cases s with
  | text t => cases heq
  | setting c old =>
    obtain ⟨rfl, rfl⟩ := Span.setting.inj heq
    rw [if_neg (Ne.symm hab)]
    exact h old hs

theorem SpaceBefore.set (h : SpaceBefore a line) : SpaceBefore a (setLine b value line) := by
  induction line with
  | nil => exact trivial
  | cons s line ih =>
    cases s with
    | text t => exact h.imp id ih
    | setting c old => exact ⟨h.1, ih h.2⟩

theorem Spaced.set (h : Spaced a line) : Spaced a (setLine b value line) := by
  induction line with
  | nil => exact trivial
  | cons s line ih =>
    cases s with
    | text t => exact ih h
    | setting c old => exact ⟨fun hc => (h.1 hc).set, ih h.2⟩

/-! ## Counting spaces -/

theorem count_setLine_le (hkey : ' ' ∉ key a) (hvalue : ' ' ∉ value) :
    (render key (setLine a value line)).count ' ' ≤ (render key line).count ' ' := by
  induction line with
  | nil => exact Nat.le_refl _
  | cons s line ih =>
    show (render key (s.set a value :: setLine a value line)).count ' ' ≤ _
    rw [render_cons, render_cons, List.count_append, List.count_append]
    refine Nat.add_le_add ?_ ih
    by_cases hs : ∃ old, s = .setting a old
    · obtain ⟨old, rfl⟩ := hs
      rw [set_same, Span.render, List.count_append, List.count_eq_zero_of_not_mem hkey,
        List.count_eq_zero_of_not_mem hvalue]
      exact Nat.zero_le _
    · rw [set_other fun old hold => hs ⟨old, hold⟩]

/-- Up to the first space, the line is the same before and after. -/
theorem SpaceBefore.cut (h : SpaceBefore a line) : setLine a value line = line ∨
    ∃ w u v, ' ' ∉ w ∧ render key line = w ++ ' ' :: u ∧
      render key (setLine a value line) = w ++ ' ' :: v := by
  induction line with
  | nil => exact Or.inl rfl
  | cons s line ih =>
    show s.set a value :: setLine a value line = s :: line ∨ ∃ w u v, ' ' ∉ w ∧
      s.render key ++ render key line = w ++ ' ' :: u ∧
      (s.set a value).render key ++ render key (setLine a value line) = w ++ ' ' :: v
    have hs : s.set a value = s := by
      cases s with
      | text t => rfl
      | setting b old => exact set_other fun v hv => h.1 (Span.setting.inj hv).1
    rw [hs]
    by_cases hspace : ' ' ∈ s.render key
    · obtain ⟨w, u, hsplit, hw⟩ := List.eq_append_cons_of_mem hspace
      refine Or.inr ⟨w, u ++ render key line, u ++ render key (setLine a value line), hw, ?_, ?_⟩
      · rw [hsplit, List.append_assoc, List.cons_append]
      · rw [hsplit, List.append_assoc, List.cons_append]
    · have hline : SpaceBefore a line := by
        cases s with
        | text t => exact h.resolve_left hspace
        | setting b old => exact h.2
      rcases ih hline with hsame | ⟨w, u, v, hw, hu, hv⟩
      · exact Or.inl (by rw [hsame])
      · refine Or.inr ⟨s.render key ++ w, u, v, ?_, ?_, ?_⟩
        · rw [List.mem_append]
          exact fun h' => h'.elim hspace hw
        · rw [hu, List.append_assoc]
        · rw [hv, List.append_assoc]

/-- A setting in front of a line that is then set all the same had its value. -/
theorem eq_of_setLine (hkey : ' ' ∉ key a) (hvalue : ' ' ∉ value) (h : SpaceBefore a line)
    (heq : value ++ render key (setLine a value line) = old ++ render key line) : old = value := by
  have hcut : setLine a value line = line ∨ ∃ w u v, ' ' ∉ w ∧ render key line = w ++ ' ' :: u ∧
      render key (setLine a value line) = w ++ ' ' :: v := h.cut
  rcases hcut with hsame | ⟨w, u, v, hw, hu, hv⟩
  · rw [hsame] at heq
    exact (List.append_cancel_right heq).symm
  · -- the old value has no space either: there would be one too many
    have hold : ' ' ∉ old := by
      have hcount := congrArg (List.count ' ') heq
      rw [List.count_append, List.count_append, List.count_eq_zero_of_not_mem hvalue] at hcount
      have hle : (render key (setLine a value line)).count ' ' ≤ (render key line).count ' ' :=
        count_setLine_le hkey hvalue
      exact List.count_eq_zero.mp (by omega)
    have hword : ∀ {t : Text}, ' ' ∉ t → ∀ c ∈ t ++ w, Sed.isWordChar c = true := by
      intro t ht c hc
      rw [Sed.isWordChar, bne_iff_ne]
      rintro rfl
      exact (List.mem_append.mp hc).elim ht hw
    rw [hu, hv, ← List.append_assoc, ← List.append_assoc] at heq
    obtain ⟨hwords, -, -⟩ := Pattern.run_unique (hword hvalue) (hword hold) rfl rfl heq
    exact (List.append_cancel_right hwords).symm

/-- **A line that setting leaves as it is was set.** -/
theorem render_setLine_iff (hkey : ' ' ∉ key a) (hvalue : ' ' ∉ value) (h : Spaced a line) :
    render key (setLine a value line) = render key line ↔ IsSet a value line := by
  refine ⟨fun heq => ?_, fun hset => by rw [setLine_of_isSet hset]⟩
  induction line with
  | nil => exact fun _ hv => by cases hv
  | cons s line ih =>
    have heq' : (s.set a value).render key ++ render key (setLine a value line)
        = s.render key ++ render key line := heq
    by_cases hs : ∃ old, s = .setting a old
    · obtain ⟨old, rfl⟩ := hs
      rw [set_same, Span.render, Span.render, List.append_assoc, List.append_assoc] at heq'
      have hrest := List.append_cancel_left heq'
      have hold : old = value := eq_of_setLine hkey hvalue (h.1 rfl) hrest
      rw [hold] at hrest
      exact isSet_cons_setting.mpr ⟨hold, ih h.2 (List.append_cancel_left hrest)⟩
    · have hs' : ∀ old, s ≠ .setting a old := fun old hold => hs ⟨old, hold⟩
      have hline : Spaced a line := by
        cases s with
        | text t => exact h
        | setting b old => exact h.2
      rw [set_other hs'] at heq'
      exact (isSet_cons_other hs').mpr (ih hline (List.append_cancel_left heq'))

/-! ## When the command does what was meant -/

/-- Setting does not change what a line starts with. -/
theorem head?_setLine (hne : key a ≠ []) :
    (render key (setLine a value line)).head? = (render key line).head? := by
  induction line with
  | nil => rfl
  | cons s line ih =>
    show (render key (s.set a value :: setLine a value line)).head? = _
    rw [render_cons, render_cons, List.head?_append, List.head?_append, ih]
    by_cases hs : ∃ old, s = .setting a old
    · obtain ⟨old, rfl⟩ := hs
      obtain ⟨c, k, hk⟩ := List.exists_cons_of_ne_nil hne
      rw [set_same, Span.render, Span.render, hk]
      rfl
    · rw [set_other fun old hold => hs ⟨old, hold⟩]

/-- The match of a setting ends where the setting does, and nothing else is to be set, if the
result is what was meant. -/
theorem found_whole (hkey : IsKey (key a)) (hvalue : ' ' ∉ value)
    (hends : Sed.EndsWord (render key (setLine a value line)))
    (heq : (old ++ render key line).dropWhile Sed.isWordChar
      = render key (setLine a value line)) :
    render key (setLine a value line) = render key line := by
  have hcut : (old ++ render key line).takeWhile Sed.isWordChar ++
      render key (setLine a value line) = old ++ render key line := by
    rw [← heq]
    exact List.takeWhile_append_dropWhile
  have hspace : ' ' ∉ (old ++ render key line).takeWhile Sed.isWordChar := by
    intro h
    exact absurd (List.mem_takeWhile_imp h) (by decide)
  -- there are as many spaces as before, so the old value has none
  have hold : ∀ c ∈ old, Sed.isWordChar c = true := by
    have hcount := congrArg (List.count ' ') hcut
    rw [List.count_append, List.count_append, List.count_eq_zero_of_not_mem hspace] at hcount
    have hle : (render key (setLine a value line)).count ' ' ≤ (render key line).count ' ' :=
      count_setLine_le hkey.space hvalue
    intro c hc
    rw [Sed.isWordChar, bne_iff_ne]
    rintro rfl
    exact List.count_eq_zero.mp (show List.count ' ' old = 0 by omega) hc
  have hstop : ∀ c u, render key line = c :: u → Sed.isWordChar c = false := by
    intro c u hcu
    have hhead : (render key (setLine a value line)).head? = some c := by
      rw [head?_setLine hkey.ne_nil, hcu]
      rfl
    obtain ⟨v, hv⟩ := List.head?_eq_some_iff.mp hhead
    rw [hends c v hv]
    rfl
  rw [← heq, Pattern.dropWhile_run hold hstop]

/-- **The command does what was meant on a line exactly when the line is clear for it.** -/
theorem onLine_exact_iff (hkey : IsKey (key a)) (hvalue : ' ' ∉ value) (h : Spaced a line) :
    (setCommand key a value).onLine (render key line) = render key (setLine a value line) ↔
      Clear key a value line := by
  constructor
  · intro heq
    by_cases hset : IsSet a value line
    · refine Or.inl ⟨hset, fun before after hfound => ?_⟩
      rw [onLine_some hkey hfound, setLine_of_isSet hset] at heq
      exact heq.symm
    · obtain ⟨left, old, right, rfl, hleft, hold⟩ := exists_first hset
      have hright : Spaced a (.setting a old :: right) := h.of_append
      have hline : render key (left ++ .setting a old :: right)
          = render key left ++ (key a ++ (old ++ render key right)) := by
        rw [render_append, render_cons, Span.render, List.append_assoc]
      have hmeant : render key (setLine a value (left ++ .setting a old :: right))
          = render key left ++ ((key a ++ value) ++ render key (setLine a value right)) := by
        have hcut : setLine a value (left ++ .setting a old :: right)
            = setLine a value left ++ .setting a value :: setLine a value right := by
          rw [setLine, List.map_append, List.map_cons, set_same]
          rfl
        rw [hcut, setLine_of_isSet hleft, render_append, render_cons, Span.render]
      have hchanged : value ++ render key (setLine a value right) ≠ old ++ render key right :=
        fun hsame => hold (eq_of_setLine hkey.space hvalue (hright.1 rfl) hsame)
      obtain ⟨before, after, d, hfound, hbefore, hmatch⟩ :=
        @found_before _ key a (render key left) (old ++ render key right)
      rw [hmeant, hline, onLine_some hkey hfound, hbefore, List.append_assoc before,
        List.append_assoc before] at heq
      have heq' := List.append_cancel_left heq
      obtain rfl : d = [] := found_here hkey hvalue hmatch heq' hchanged
      rw [List.nil_append] at heq'
      rw [List.append_nil] at hbefore
      have hafter : after = render key (setLine a value right) := List.append_cancel_left heq'
      have hrest : (old ++ render key right).dropWhile Sed.isWordChar = after := by
        rw [List.nil_append, Sed.matchHere_key] at hmatch
        exact (Prod.mk.inj (Option.some.inj hmatch)).2
      have hsame := found_whole hkey hvalue (hafter ▸ (found_ends hfound).2)
        (hrest.trans hafter)
      refine Or.inr ⟨left, old, right, rfl, hleft,
        (render_setLine_iff hkey.space hvalue hright.2).mp hsame, ?_⟩
      rw [hline, hfound, hbefore, hafter, hsame]
  · intro hclear
    rcases hclear with ⟨hset, hfirst⟩ | ⟨left, old, right, rfl, hleft, hright, hfound⟩
    · rw [setLine_of_isSet hset]
      cases hfound : found key a (render key line) with
      | none => exact onLine_none hkey hfound
      | some r =>
        obtain ⟨before, captured, after⟩ := r
        obtain rfl : captured = [] := (found_ends hfound).1
        rw [onLine_some hkey hfound]
        exact (hfirst before after hfound).symm
    · rw [onLine_some hkey hfound, setLine, List.map_append, List.map_cons, set_same,
        show left.map (Span.set a value) = left from setLine_of_isSet hleft,
        show right.map (Span.set a value) = right from setLine_of_isSet hright,
        render_append, render_cons, Span.render, List.append_assoc]

/-! ## Files -/

/-- Lines with settings that make up a file. -/
structure IsLayout (key : α → Text) (lines : List (List (Span α))) : Prop where
  ne_nil : lines ≠ []
  oneLine : ∀ line ∈ lines, '\n' ∉ render key line
  spaced : ∀ line ∈ lines, ∀ a, Spaced a line

variable (key) in
def fileText (lines : List (List (Span α))) : Text := ['\n'].intercalate (lines.map (render key))

theorem mem_render_setLine {c : Char} (h : c ∈ render key (setLine a value line)) :
    c ∈ render key line ∨ c ∈ value := by
  induction line with
  | nil => exact Or.inl h
  | cons s line ih =>
    have h' : c ∈ (s.set a value).render key ++ render key (setLine a value line) := h
    rw [render_cons, List.mem_append]
    rcases List.mem_append.mp h' with h' | h'
    · by_cases hs : ∃ old, s = .setting a old
      · obtain ⟨old, rfl⟩ := hs
        rw [set_same, Span.render, List.mem_append] at h'
        exact h'.imp (fun hc => Or.inl (List.mem_append_left _ hc)) id
      · rw [set_other fun old hold => hs ⟨old, hold⟩] at h'
        exact Or.inl (Or.inl h')
    · exact (ih h').imp Or.inr id

theorem IsLayout.set {lines : List (List (Span α))} (h : IsLayout key lines)
    (hvalue : '\n' ∉ value) : IsLayout key (lines.map (setLine a value)) where
  ne_nil := fun hnil => h.ne_nil (List.map_eq_nil_iff.mp hnil)
  oneLine := by
    intro l hl
    obtain ⟨line, hline, rfl⟩ := List.mem_map.mp hl
    intro hmem
    exact (mem_render_setLine hmem).elim (h.oneLine line hline) hvalue
  spaced := by
    intro l hl b
    obtain ⟨line, hline, rfl⟩ := List.mem_map.mp hl
    exact (h.spaced line hline b).set

/-- **The command does what was meant on a file exactly when every line is clear for it.** -/
theorem onFile_exact_iff (hkey : IsKey (key a)) (hnewline : '\n' ∉ key a) (hvalue : ' ' ∉ value)
    (hvalue' : '\n' ∉ value) {lines : List (List (Span α))} (h : IsLayout key lines) :
    (setCommand key a value).onFile (fileText key lines)
      = fileText key (lines.map (setLine a value)) ↔ ∀ line ∈ lines, Clear key a value line := by
  have hplain : ∀ l ∈ lines.map (render key), '\n' ∉ l := by
    intro l hl
    obtain ⟨line, hline, rfl⟩ := List.mem_map.mp hl
    exact h.oneLine line hline
  have hdone : ∀ l ∈ (lines.map (render key)).map (setCommand key a value).onLine, '\n' ∉ l := by
    intro l hl
    obtain ⟨s, hs, rfl⟩ := List.mem_map.mp hl
    intro hmem
    rcases mem_onLine hkey hmem with hmem | hmem
    · exact hplain s hs hmem
    · exact (List.mem_append.mp hmem).elim hnewline hvalue'
  have hmeant : ∀ l ∈ (lines.map (setLine a value)).map (render key), '\n' ∉ l := by
    intro l hl
    obtain ⟨line, hline, rfl⟩ := List.mem_map.mp hl
    exact (h.set hvalue').oneLine line hline
  have hne : lines.map (render key) ≠ [] := fun hnil => h.ne_nil (List.map_eq_nil_iff.mp hnil)
  have hlists : (setCommand key a value).onFile (fileText key lines)
      = fileText key (lines.map (setLine a value)) ↔
      (lines.map (render key)).map (setCommand key a value).onLine
        = (lines.map (setLine a value)).map (render key) := by
    unfold Sed.Command.onFile fileText
    rw [List.splitOn_intercalate '\n' hplain hne]
    constructor
    · intro heq
      have hcut := congrArg (List.splitOn '\n') heq
      rwa [List.splitOn_intercalate '\n' hdone (fun hnil => hne (List.map_eq_nil_iff.mp hnil)),
        List.splitOn_intercalate '\n' hmeant
          (fun hnil => (h.set hvalue').ne_nil (List.map_eq_nil_iff.mp hnil))] at hcut
    · intro heq
      rw [heq]
  rw [hlists, List.map_map, List.map_map, List.map_inj_left]
  refine forall_congr' fun line => imp_congr_right fun hline => ?_
  exact onLine_exact_iff hkey hvalue (h.spaced line hline a)

end Spans

end Settings
end TdsAdmin
