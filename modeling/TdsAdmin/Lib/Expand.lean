import TdsAdmin.Lib.Fields

/-!
# Unquoted expansions and `printf`

A value that is expanded without quotes is cut into words at white space, and a word that looks
like a pattern is replaced by the names of the files it matches, if there are any. Which files
there are is not for a script to know: `matching` is a parameter wherever an expansion is modelled.

`printf` goes through its format once, and again as long as arguments are left. An argument that is
missing is empty.
-/

set_option autoImplicit false

namespace TdsAdmin
namespace Expand

/-! ## Words -/

/-- The shell looks for files: there is a `*` or a `?` in the word, or a `]` behind a `[`. -/
def isPattern (w : Text) : Bool :=
  w.contains '*' || w.contains '?' || (w.dropWhile (· != '[')).contains ']'

def wordFiles (matching : Text → List Text) (w : Text) : List Text :=
  if isPattern w = true ∧ matching w ≠ [] then matching w else [w]

/-- `$value`, for `IFS` as the shell sets it. -/
def unquoted (matching : Text → List Text) (value : Text) : List Text :=
  (Fields.awkFields value).flatMap (wordFiles matching)

section Words

variable {matching : Text → List Text} {w : Text}

theorem isPattern_eq_false (h : ∀ c ∈ w, c ∉ ['*', '?', ']']) : isPattern w = false := by
  have hno : ∀ {s : Text} {c : Char}, s ⊆ w → c ∈ ['*', '?', ']'] → s.contains c = false := by
    intro s c hs hc
    refine Bool.eq_false_iff.mpr fun hmem => ?_
    exact h c (hs (List.contains_iff_mem.mp hmem)) hc
  unfold isPattern
  rw [hno (fun _ hc => hc) (by decide), hno (fun _ hc => hc) (by decide),
    hno (List.dropWhile_suffix _).subset (by decide)]
  rfl

theorem wordFiles_plain (h : isPattern w = false) : wordFiles matching w = [w] := by
  unfold wordFiles
  rw [if_neg]
  intro hpattern
  rw [h] at hpattern
  exact Bool.false_ne_true hpattern.1

theorem awkFields_word (h : ∀ c ∈ w, Fields.isIfs c = false) (hne : w ≠ []) :
    Fields.awkFields w = [w] := by
  unfold Fields.awkFields
  rw [List.splitOnP_eq_singleton h, List.filter_cons_of_pos (by simpa using hne)]
  rfl

/-- White space comes between two words wherever it is. -/
theorem awkFields_append {c : Char} (hc : Fields.isIfs c = true) (s t : Text) :
    Fields.awkFields (s ++ c :: t) = Fields.awkFields s ++ Fields.awkFields t := by
  unfold Fields.awkFields
  rw [List.splitOnP_append_cons _ _ hc, List.filter_append]

theorem awkFields_blank {c : Char} (hc : Fields.isIfs c = true) (s : Text) :
    Fields.awkFields (c :: s) = Fields.awkFields s :=
  awkFields_append hc [] s

/-- At the end it makes no difference. -/
theorem awkFields_rdropWhile {p : Char → Bool} (hp : ∀ c, p c = true → Fields.isIfs c = true)
    (s : Text) : Fields.awkFields (s.rdropWhile p) = Fields.awkFields s := by
  induction s using List.reverseRecOn with
  | nil => rfl
  | append_singleton s c ih =>
    cases hc : p c with
    | true =>
      rw [List.rdropWhile_concat_pos p s c hc, ih, awkFields_append (hp c hc)]
      exact (List.append_nil _).symm
    | false => rw [List.rdropWhile_concat_neg p s c (by rw [hc]; exact Bool.false_ne_true)]

theorem awkFields_cons {c : Char} (h : ∀ c ∈ w, Fields.isIfs c = false) (hne : w ≠ [])
    (hc : Fields.isIfs c = true) (s : Text) :
    Fields.awkFields (w ++ c :: s) = w :: Fields.awkFields s := by
  rw [awkFields_append hc, awkFields_word h hne]
  rfl

/-- Words with a separator in front of each. -/
theorem awkFields_led {c : Char} (hc : Fields.isIfs c = true) : ∀ {words : List Text},
    (∀ w ∈ words, w ≠ [] ∧ ∀ c ∈ w, Fields.isIfs c = false) →
    Fields.awkFields (words.flatMap (c :: ·)) = words
  | [], _ => rfl
  | [w], h => by
    obtain ⟨hne, hw⟩ := h w (List.mem_singleton_self w)
    show Fields.awkFields (c :: w ++ []) = _
    rw [List.append_nil, awkFields_blank hc, awkFields_word hw hne]
  | w :: v :: words, h => by
    obtain ⟨hne, hw⟩ := h w List.mem_cons_self
    have hrest := awkFields_led hc fun x hx => h x (List.mem_cons_of_mem w hx)
    show Fields.awkFields (c :: w ++ (c :: v ++ words.flatMap (c :: ·))) = _
    rw [List.cons_append, awkFields_blank hc, List.cons_append, awkFields_cons hw hne hc,
      ← awkFields_blank hc]
    exact congrArg (w :: ·) hrest

/-- Words with a separator behind each. -/
theorem awkFields_ended {c : Char} (hc : Fields.isIfs c = true) {words : List Text}
    (h : ∀ w ∈ words, w ≠ [] ∧ ∀ c ∈ w, Fields.isIfs c = false) :
    Fields.awkFields (words.flatMap (· ++ [c])) = words := by
  induction words with
  | nil => rfl
  | cons w words ih =>
    obtain ⟨hne, hw⟩ := h w List.mem_cons_self
    rw [List.flatMap_cons, List.append_assoc, List.singleton_append, awkFields_cons hw hne hc,
      ih fun x hx => h x (List.mem_cons_of_mem w hx)]

/-- Words with a separator between them. -/
theorem awkFields_between {c : Char} (hc : Fields.isIfs c = true) : ∀ {words : List Text},
    (∀ w ∈ words, w ≠ [] ∧ ∀ c ∈ w, Fields.isIfs c = false) →
    Fields.awkFields ([c].intercalate words) = words
  | [], _ => rfl
  | [w], h => by
    obtain ⟨hne, hw⟩ := h w (List.mem_singleton_self w)
    rw [List.intercalate_singleton, awkFields_word hw hne]
  | w :: v :: words, h => by
    obtain ⟨hne, hw⟩ := h w List.mem_cons_self
    rw [List.intercalate_cons_cons, List.append_assoc, List.singleton_append,
      awkFields_cons hw hne hc, awkFields_between hc fun x hx => h x (List.mem_cons_of_mem w hx)]

/-- Where no word is a pattern nothing is replaced. -/
theorem unquoted_words {value : Text} (h : ∀ w ∈ Fields.awkFields value, isPattern w = false) :
    unquoted matching value = Fields.awkFields value := by
  unfold unquoted
  generalize Fields.awkFields value = words at h ⊢
  induction words with
  | nil => rfl
  | cons w words ih =>
    rw [List.flatMap_cons, wordFiles_plain (h w List.mem_cons_self),
      ih fun x hx => h x (List.mem_cons_of_mem w hx)]
    rfl

/-- A value without white space is one word. -/
theorem unquoted_word (h : ∀ c ∈ w, Fields.isIfs c = false) (hne : w ≠ []) :
    unquoted matching w = wordFiles matching w := by
  unfold unquoted
  rw [awkFields_word h hne, List.flatMap_singleton]

/-- An empty value is no word at all. -/
@[simp] theorem unquoted_nil : unquoted matching [] = [] := rfl

end Words

/-! ## `printf` -/

/-- A piece of a format: text, or `%s`. -/
inductive Directive
  | text (t : Text)
  | arg

abbrev Format := List Directive

/-- The format gone through once, and the arguments that are left. -/
def formatOnce : Format → List Text → Text × List Text
  | [], args => ([], args)
  | .text t :: fmt, args => (t ++ (formatOnce fmt args).1, (formatOnce fmt args).2)
  | .arg :: fmt, args =>
      (args.headD [] ++ (formatOnce fmt args.tail).1, (formatOnce fmt args.tail).2)

/-- How many arguments it takes. -/
def slots : Format → Nat
  | [] => 0
  | .text _ :: fmt => slots fmt
  | .arg :: fmt => slots fmt + 1

/-- `printf` with enough fuel for all the arguments; a format that takes none is written once. -/
def printfFuel : Nat → Format → List Text → Text
  | 0, _, _ => []
  | n + 1, fmt, args =>
      let once := formatOnce fmt args
      once.1 ++ if once.2 = [] ∨ slots fmt = 0 then [] else printfFuel n fmt once.2

def printf (fmt : Format) (args : List Text) : Text := printfFuel (args.length + 1) fmt args

theorem formatOnce_rest (fmt : Format) (args : List Text) :
    (formatOnce fmt args).2 = args.drop (slots fmt) := by
  induction fmt generalizing args with
  | nil => rfl
  | cons d fmt ih =>
    cases d with
    | text t => exact ih args
    | arg =>
      show (formatOnce fmt args.tail).2 = args.drop (slots fmt + 1)
      rw [ih, List.drop_tail]

theorem printfFuel_enough (fmt : Format) : ∀ (n m : Nat) (args : List Text), args.length < n →
    args.length < m → printfFuel n fmt args = printfFuel m fmt args := by
  intro n
  induction n with
  | zero => exact fun m args hn _ => absurd hn (Nat.not_lt_zero _)
  | succ n ih =>
    intro m args hn hm
    obtain ⟨m, rfl⟩ := Nat.exists_eq_succ_of_ne_zero (Nat.ne_zero_of_lt hm)
    rw [printfFuel, printfFuel]
    by_cases hdone : (formatOnce fmt args).2 = [] ∨ slots fmt = 0
    · rw [if_pos hdone, if_pos hdone]
    · rw [if_neg hdone, if_neg hdone]
      obtain ⟨hleft, hslots⟩ := not_or.mp hdone
      have hshort : (formatOnce fmt args).2.length + slots fmt = args.length := by
        rw [formatOnce_rest] at hleft ⊢
        rw [List.length_drop]
        have := List.length_pos_of_ne_nil hleft
        rw [List.length_drop] at this
        omega
      rw [ih m _ (by omega) (by omega)]

/-- **`printf` writes its format for the first arguments and goes on with the rest.** -/
theorem printf_eq (fmt : Format) (args : List Text) : printf fmt args = (formatOnce fmt args).1 ++
    if args.drop (slots fmt) = [] ∨ slots fmt = 0 then []
    else printf fmt (args.drop (slots fmt)) := by
  unfold printf
  rw [printfFuel]
  rw [formatOnce_rest]
  by_cases hdone : args.drop (slots fmt) = [] ∨ slots fmt = 0
  · rw [if_pos hdone, if_pos hdone]
  · rw [if_neg hdone, if_neg hdone]
    obtain ⟨hleft, hslots⟩ := not_or.mp hdone
    have hlength := List.length_pos_of_ne_nil hleft
    rw [List.length_drop] at hlength
    refine congrArg _ (printfFuel_enough fmt _ _ _ ?_ (Nat.lt_succ_self _))
    rw [List.length_drop]
    omega

/-- Arguments that fit are written once. -/
theorem printf_fits {fmt : Format} {args : List Text} (h : args.length ≤ slots fmt) :
    printf fmt args = (formatOnce fmt args).1 := by
  rw [printf_eq, if_pos (Or.inl (List.drop_eq_nil_of_le h)), List.append_nil]

end Expand
end TdsAdmin
