import TdsAdmin.Lib.Shell
import TdsAdmin.Proof.Package.Encoding

/-!
# The body as the shell reads it

The JSON text goes through two substitutions and is pasted between double quotes. Reading it
back is a race between three rewritings: JSON has already put backslashes in, the first
substitution takes some of them for its own, and the shell takes the rest for quoting.

The argument is that the reader can only fall behind. `readWord_behind`: whatever mode the
reader is in, the word it reads has no more `'` than the JSON text, and if it has as many it is
no longer — outside double quotes a `'` is the only character that opens a mode in which
something is gained, and then it is itself lost. So the first character that is not read as
itself can never be made good, and `survives`, which looks for that character, decides the
whole question (`readWord_quoteBody_iff`).
-/

set_option autoImplicit false

namespace TdsAdmin
namespace Package

open Shell (Mode readWord push expands EndsWord)

/-- The two substitutions on `$TestJsonBody`. -/
def quoteBody (json : Text) : Text := escapeQuotes (unescapeNewlines json)

/-! ## The substitutions on what a text can start with -/

/-- What a text starts with, as the substitutions and the shell tell it apart. -/
inductive Start : Text → Prop where
  | nil : Start []
  | quote (J : Text) : Start ('"' :: J)
  | newline (J : Text) : Start ('\\' :: 'n' :: J)
  | dangling : Start ['\\']
  | joined (J : Text) : Start ('\\' :: '\\' :: 'n' :: J)
  | backslash (J : Text) (hn : J.head? ≠ some 'n') : Start ('\\' :: '\\' :: J)
  | escapedQuote (J : Text) : Start ('\\' :: '"' :: J)
  | escaped (d : Char) (J : Text) (hn : d ≠ 'n') (hb : d ≠ '\\') (hq : d ≠ '"') :
      Start ('\\' :: d :: J)
  | char (c : Char) (J : Text) (hq : c ≠ '"') (hb : c ≠ '\\') : Start (c :: J)

theorem start : ∀ J : Text, Start J
  | [] => .nil
  | c :: J => by
    by_cases hq : c = '"'
    · exact hq ▸ .quote J
    · by_cases hb : c = '\\'
      · subst hb
        cases J with
        | nil => exact .dangling
        | cons d J =>
          by_cases hn : d = 'n'
          · exact hn ▸ .newline J
          · by_cases hb : d = '\\'
            · subst hb
              by_cases hh : J.head? = some 'n'
              · cases J with
                | nil => simp at hh
                | cons e J =>
                  simp only [List.head?_cons, Option.some.injEq] at hh
                  exact hh ▸ .joined J
              · exact .backslash J hh
            · by_cases hq : d = '"'
              · exact hq ▸ .escapedQuote J
              · exact .escaped d J hn hb hq
      · exact .char c J hq hb

theorem unescapeNewlines_keep {c : Char} {J : Text} (h : c ≠ '\\' ∨ J.head? ≠ some 'n') :
    unescapeNewlines (c :: J) = c :: unescapeNewlines J := by
  rw [unescapeNewlines.eq_def]
  split
  · rename_i heq
    exact absurd heq (by simp)
  · rename_i heq
    obtain ⟨rfl, rfl⟩ := List.cons.inj heq
    simp at h
  · rename_i heq
    obtain ⟨rfl, rfl⟩ := List.cons.inj heq
    rfl

@[simp] theorem quoteBody_nil : quoteBody [] = [] := rfl

theorem quoteBody_newline (J : Text) : quoteBody ('\\' :: 'n' :: J) = '\n' :: quoteBody J := rfl

theorem quoteBody_quote (J : Text) : quoteBody ('"' :: J) = '\\' :: '"' :: quoteBody J := by
  rw [quoteBody, unescapeNewlines_keep (Or.inl (by decide))]
  rfl

theorem quoteBody_backslash {J : Text} (h : J.head? ≠ some 'n') :
    quoteBody ('\\' :: J) = '\\' :: quoteBody J := by
  rw [quoteBody, unescapeNewlines_keep (Or.inr h)]
  rfl

theorem quoteBody_char {c : Char} {J : Text} (hq : c ≠ '"') (hb : c ≠ '\\') :
    quoteBody (c :: J) = c :: quoteBody J := by
  rw [quoteBody, unescapeNewlines_keep (Or.inl hb)]
  simp [escapeQuotes, hq, quoteBody]

theorem quoteBody_joined (J : Text) :
    quoteBody ('\\' :: '\\' :: 'n' :: J) = '\\' :: '\n' :: quoteBody J := by
  rw [quoteBody_backslash (by simp), quoteBody_newline]

theorem quoteBody_backslashes {J : Text} (h : J.head? ≠ some 'n') :
    quoteBody ('\\' :: '\\' :: J) = '\\' :: '\\' :: quoteBody J := by
  rw [quoteBody_backslash (by simp), quoteBody_backslash h]

theorem quoteBody_escapedQuote (J : Text) :
    quoteBody ('\\' :: '"' :: J) = '\\' :: '\\' :: '"' :: quoteBody J := by
  rw [quoteBody_backslash (by simp), quoteBody_quote]

theorem quoteBody_escaped {d : Char} {J : Text} (hn : d ≠ 'n') (hb : d ≠ '\\') (hq : d ≠ '"') :
    quoteBody ('\\' :: d :: J) = '\\' :: d :: quoteBody J := by
  rw [quoteBody_backslash (by simpa using hn), quoteBody_char hq hb]

/-! ## The reader falls behind -/

/-- The word has fewer `'`, or as many and no more characters. -/
def Behind (w J : Text) : Prop :=
  w.count '\'' < J.count '\'' ∨ w.count '\'' = J.count '\'' ∧ w.length ≤ J.length

/-- How far behind the reader is by the end: between single quotes it still has to lose one. -/
def Lags : Mode → Text → Text → Prop
  | .single, w, J => w.count '\'' < J.count '\''
  | _, w, J => Behind w J

variable {tail : Text}

/-- Nothing that starts inside quotes ends where it started. -/
theorem readWord_closed {m : Mode} {w : Text} (h : readWord m tail = some (w, tail)) :
    m = .plain := by
  by_contra hm
  have := Shell.readWord_length h
  rw [if_neg hm] at this
  omega

theorem push_eq {c : Char} {o : Option (Text × Text)} {w : Text}
    (h : push c o = some (w, tail)) : ∃ u, o = some (u, tail) ∧ w = c :: u :=
  Shell.push_eq_some.mp h

/-- A backslash outside quotes gives the character behind it to the word. -/
theorem plain_escaped_eq {d : Char} {s w : Text} (hd : d ≠ '\n')
    (h : readWord .plain ('\\' :: d :: s) = some (w, tail)) :
    ∃ u, readWord .plain s = some (u, tail) ∧ w = d :: u := by
  rw [Shell.readWord_plain_escaped hd] at h
  exact push_eq h

/-- Between double quotes it does so for the characters that are special there. -/
theorem double_escaped_eq {d : Char} {s w : Text} (hd : Shell.isDoubleSpecial d = true)
    (h : readWord .double ('\\' :: d :: s) = some (w, tail)) :
    ∃ u, readWord .double s = some (u, tail) ∧ w = d :: u := by
  rw [Shell.readWord_double_escaped hd] at h
  exact push_eq h

theorem lt_two {c d : Char} {J : Text} : J.length < (c :: d :: J).length := by
  rw [List.length_cons, List.length_cons]
  omega

theorem lt_three {c d e : Char} {J : Text} : J.length < (c :: d :: e :: J).length :=
  Nat.lt_trans lt_two (Nat.lt_succ_self _)

/-- One more character on both sides, or one more in the text alone. -/
theorem Behind.cons {w J : Text} (h : Behind w J) (c : Char) : Behind (c :: w) (c :: J) := by
  simp only [Behind, List.count_cons, List.length_cons] at h ⊢
  omega

theorem Behind.skip {w J : Text} (h : Behind w J) (c : Char) : Behind w (c :: J) := by
  simp only [Behind, List.count_cons, List.length_cons] at h ⊢
  split <;> omega

theorem Behind.change {w J : Text} (h : Behind w J) {c d : Char} (hc : c ≠ '\'') :
    Behind (c :: w) (d :: J) := by
  simp only [Behind, List.count_cons, List.length_cons, beq_iff_eq, if_neg hc] at h ⊢
  split <;> omega

/-- A quoted character, or the line end that a backslash removes. -/
theorem behind_escape {m : Mode} {d : Char} {J w : Text} {o : Option (Text × Text)}
    (hm : m ≠ .single) (ih : ∀ {w'}, o = some (w', tail) → Lags m w' J)
    (h : (if d = '\n' then o else push d o) = some (w, tail)) : Behind w ('\\' :: d :: J) := by
  have hb : ∀ {w'}, o = some (w', tail) → Behind w' J := by
    intro w' hw'
    cases m with
    | single => exact absurd rfl hm
    | plain => exact ih hw'
    | double => exact ih hw'
  split at h
  · exact ((hb h).skip d).skip '\\'
  · obtain ⟨u, hu, rfl⟩ := push_eq h
    exact ((hb hu).cons d).skip '\\'

theorem lags_plain (htail : EndsWord tail) {J w : Text}
    (ih : ∀ {m : Mode} {J' w' : Text}, J'.length < J.length →
      readWord m (quoteBody J' ++ '"' :: tail) = some (w', tail) → Lags m w' J')
    (h : readWord .plain (quoteBody J ++ '"' :: tail) = some (w, tail)) : Behind w J := by
  cases start J with
  | nil =>
    rw [quoteBody_nil, List.nil_append, Shell.readWord_plain_open] at h
    exact absurd (readWord_closed h) (by decide)
  | quote J =>
    rw [quoteBody_quote] at h
    obtain ⟨u, hu, rfl⟩ := plain_escaped_eq (by decide) h
    exact (ih (m := .plain) (by simp) hu).cons '"'
  | newline J =>
    -- a line end is an operator here, so the word stops short of the rest of the body
    rw [quoteBody_newline, List.cons_append, Shell.readWord_ends (by exact rfl)] at h
    have hlen := congrArg (fun r => r.elim 0 fun r => r.2.length) h
    simp at hlen
    omega
  | dangling =>
    have hbody : quoteBody ['\\'] = ['\\'] := rfl
    rw [hbody, List.singleton_append, Shell.readWord_plain_escaped (by decide),
      Shell.readWord_ends htail] at h
    cases h
    exact Or.inr ⟨rfl, Nat.le_refl 1⟩
  | joined J =>
    rw [quoteBody_joined, List.cons_append, List.cons_append, Shell.readWord_plain_joined] at h
    exact (((ih (m := .plain) lt_three h).skip 'n').skip '\\').skip '\\'
  | backslash J hn =>
    rw [quoteBody_backslashes hn] at h
    obtain ⟨u, hu, rfl⟩ := plain_escaped_eq (by decide) h
    exact ((ih (m := .plain) lt_two hu).cons '\\').skip '\\'
  | escapedQuote J =>
    rw [quoteBody_escapedQuote] at h
    obtain ⟨u, hu, rfl⟩ := plain_escaped_eq (by decide) h
    rw [List.append_eq, List.cons_append, Shell.readWord_plain_open] at hu
    exact ((ih (m := .double) lt_two hu).skip '"').cons '\\'
  | escaped d J hn hb hq =>
    rw [quoteBody_escaped hn hb hq, List.cons_append, Shell.readWord_plain, if_pos rfl] at h
    exact behind_escape (m := .plain) (by decide) (ih (m := .plain) lt_two) h
  | char c J hq hb =>
    rw [quoteBody_char hq hb, List.cons_append, Shell.readWord_plain, if_neg hb] at h
    split_ifs at h with hs hg hd he hbl
    · have hlag : w.count '\'' < J.count '\'' := ih (m := .single) (by simp) h
      exact Or.inl (by rw [List.count_cons]; omega)
    · obtain ⟨u, hu, rfl⟩ := push_eq h
      exact hd ▸ (ih (m := .plain) (by simp) hu).cons '$'
    · have hlen := congrArg (fun r => r.elim 0 fun r => r.2.length) h
      simp at hlen
      omega
    · obtain ⟨u, hu, rfl⟩ := push_eq h
      exact (ih (m := .plain) (by simp) hu).cons c

theorem lags_double (htail : EndsWord tail) {J w : Text}
    (ih : ∀ {m : Mode} {J' w' : Text}, J'.length < J.length →
      readWord m (quoteBody J' ++ '"' :: tail) = some (w', tail) → Lags m w' J')
    (h : readWord .double (quoteBody J ++ '"' :: tail) = some (w, tail)) : Behind w J := by
  cases start J with
  | nil =>
    rw [quoteBody_nil, List.nil_append, Shell.readWord_double_close,
      Shell.readWord_ends htail] at h
    cases h
    exact Or.inr ⟨rfl, Nat.le_refl _⟩
  | quote J =>
    rw [quoteBody_quote] at h
    obtain ⟨u, hu, rfl⟩ := double_escaped_eq (by decide) h
    exact (ih (m := .double) (by simp) hu).cons '"'
  | newline J =>
    obtain ⟨u, hu, rfl⟩ := push_eq ((Shell.readWord_double_push (by decide) (by decide) (by decide)
      (by decide) _).symm.trans h)
    exact ((ih (m := .double) lt_two hu).skip 'n').change (by decide)
  | dangling =>
    obtain ⟨u, hu, rfl⟩ := double_escaped_eq (by decide) h
    exact absurd (readWord_closed hu) (by decide)
  | joined J =>
    rw [quoteBody_joined, List.cons_append, List.cons_append, Shell.readWord_double_joined] at h
    exact (((ih (m := .double) lt_three h).skip 'n').skip '\\').skip '\\'
  | backslash J hn =>
    rw [quoteBody_backslashes hn] at h
    obtain ⟨u, hu, rfl⟩ := double_escaped_eq (by decide) h
    exact ((ih (m := .double) lt_two hu).cons '\\').skip '\\'
  | escapedQuote J =>
    rw [quoteBody_escapedQuote] at h
    obtain ⟨u, hu, rfl⟩ := double_escaped_eq (by decide) h
    rw [List.append_eq, List.cons_append, Shell.readWord_double_close] at hu
    exact ((ih (m := .plain) lt_two hu).skip '"').cons '\\'
  | escaped d J hn hb hq =>
    rw [quoteBody_escaped hn hb hq, List.cons_append, Shell.readWord_double, if_neg (by decide),
      if_pos rfl] at h
    dsimp only [List.cons_append] at h
    split at h
    · exact ((ih (m := .double) lt_two h).skip d).skip '\\'
    · split at h
      · obtain ⟨u, hu, rfl⟩ := push_eq h
        exact ((ih (m := .double) lt_two hu).cons d).skip '\\'
      · obtain ⟨u, hu, rfl⟩ := push_eq h
        obtain ⟨v, hv, rfl⟩ := push_eq hu
        exact ((ih (m := .double) lt_two hv).cons d).cons '\\'
  | char c J hq hb =>
    rw [quoteBody_char hq hb, List.cons_append, Shell.readWord_double, if_neg hq, if_neg hb] at h
    split_ifs at h with hg hd he
    · obtain ⟨u, hu, rfl⟩ := push_eq h
      exact hd ▸ (ih (m := .double) (by simp) hu).cons '$'
    · obtain ⟨u, hu, rfl⟩ := push_eq h
      exact (ih (m := .double) (by simp) hu).cons c

/-- A run of characters read between single quotes adds no `'`. -/
theorem readWord_single_run : ∀ {p s w : Text}, (∀ c ∈ p, c ≠ '\'') →
    readWord .single (p ++ s) = some (w, tail) →
    ∃ u, readWord .single s = some (u, tail) ∧ w.count '\'' = u.count '\''
  | [], s, w, _, h => ⟨w, h, rfl⟩
  | c :: p, s, w, hp, h => by
    have hc : c ≠ '\'' := hp c (by simp)
    obtain ⟨v, hv, rfl⟩ := push_eq ((Shell.readWord_single_push hc (p ++ s)).symm.trans h)
    obtain ⟨u, hu, hcount⟩ := readWord_single_run (fun d hd => hp d (by simp [hd])) hv
    exact ⟨u, hu, by rw [List.count_cons_of_ne hc, hcount]⟩

theorem lags_single {J w : Text}
    (ih : ∀ {m : Mode} {J' w' : Text}, J'.length < J.length →
      readWord m (quoteBody J' ++ '"' :: tail) = some (w', tail) → Lags m w' J')
    (h : readWord .single (quoteBody J ++ '"' :: tail) = some (w, tail)) :
    w.count '\'' < J.count '\'' := by
  -- the characters `p` are read between the quotes, for the characters `q` of the text
  have hrun : ∀ (p q J' : Text), J = q ++ J' → q ≠ [] → quoteBody J = p ++ quoteBody J' →
      (∀ c ∈ p, c ≠ '\'') → w.count '\'' < J.count '\'' := by
    intro p q J' hJ hq hp hfree
    rw [hp, List.append_assoc] at h
    obtain ⟨u, hu, hcount⟩ := readWord_single_run hfree h
    have hlen : J'.length < J.length := by
      have := List.length_pos_iff.mpr hq
      rw [hJ, List.length_append]
      omega
    have hlag : u.count '\'' < J'.count '\'' := ih (m := .single) hlen hu
    rw [hcount, hJ, List.count_append]
    omega
  have hmem : ∀ {p : Text}, p.all (· != '\'') = true → ∀ c ∈ p, c ≠ '\'' := by
    intro p hp c hc
    simpa using List.all_eq_true.mp hp c hc
  cases start J with
  | nil =>
    obtain ⟨u, hu, -⟩ := readWord_single_run (p := ['"']) (hmem (by decide)) h
    exact absurd (readWord_closed hu) (by decide)
  | dangling =>
    obtain ⟨u, hu, -⟩ := readWord_single_run (p := ['\\', '"']) (hmem (by decide)) h
    exact absurd (readWord_closed hu) (by decide)
  | quote J => exact hrun ['\\', '"'] ['"'] J rfl (by simp) (quoteBody_quote J) (hmem (by decide))
  | newline J =>
    exact hrun ['\n'] ['\\', 'n'] J rfl (by simp) (quoteBody_newline J)
      (hmem (by decide))
  | joined J =>
    exact hrun ['\\', '\n'] ['\\', '\\', 'n'] J rfl (by simp) (quoteBody_joined J)
      (hmem (by decide))
  | backslash J hn =>
    exact hrun ['\\', '\\'] ['\\', '\\'] J rfl (by simp) (quoteBody_backslashes hn)
      (hmem (by decide))
  | escapedQuote J =>
    exact hrun ['\\', '\\', '"'] ['\\', '"'] J rfl (by simp) (quoteBody_escapedQuote J)
      (hmem (by decide))
  | escaped d J hn hb hq =>
    exact hrun ['\\'] ['\\'] (d :: J) rfl (by simp)
      (quoteBody_backslash (by simpa using hn)) (hmem (by decide))
  | char c J hq hb =>
    by_cases hc : c = '\''
    · -- the quote closes, and is itself lost
      subst hc
      rw [quoteBody_char hq hb, List.cons_append, Shell.readWord_single, if_pos rfl] at h
      have hlag : Behind w J := ih (m := .plain) (by simp) h
      rw [List.count_cons_self]
      rcases hlag with hlt | ⟨heq, -⟩
      · omega
      · omega
    · exact hrun [c] [c] J rfl (by simp) (quoteBody_char hq hb) (by simpa using hc)

/-- The word that is read up to `tail` is behind the text it is read from. -/
theorem readWord_behind (htail : EndsWord tail) {m : Mode} {J w : Text}
    (h : readWord m (quoteBody J ++ '"' :: tail) = some (w, tail)) : Lags m w J := by
  have ih : ∀ {m : Mode} {J' w' : Text}, J'.length < J.length →
      readWord m (quoteBody J' ++ '"' :: tail) = some (w', tail) → Lags m w' J' :=
    fun _ h' => readWord_behind htail h'
  cases m with
  | plain => exact lags_plain htail ih h
  | single => exact lags_single ih h
  | double => exact lags_double htail ih h
termination_by J.length

/-- What is behind a text is not that text with something in front of it. -/
theorem Behind.not_longer {p J : Text} (hp : p ≠ []) : ¬ Behind (p ++ J) J := by
  have := List.length_pos_iff.mpr hp
  simp only [Behind, List.count_append, List.length_append]
  omega

/-! ## The texts that are read as themselves -/

/-- No character is taken for quoting, joining, expansion or substitution: the backslashes are
those of `\b`, `\f`, `\r`, `\t` and `\u`, there is no backquote, and no `$` starts a
parameter. -/
def survives : Text → Bool
  | [] => true
  | c :: s =>
      if c = '\\' then
        match s with
        | [] => false
        | d :: s' => !(d == 'n' || d == '\n' || Shell.isDoubleSpecial d) && survives s'
      else if c = '`' then false
      else if c = '$' then !expands s && survives s
      else survives s

theorem survives_escaped (d : Char) (J : Text) : survives ('\\' :: d :: J)
    = (!(d == 'n' || d == '\n' || Shell.isDoubleSpecial d) && survives J) := by
  rw [survives.eq_def]
  exact if_pos rfl

theorem survives_taken {d : Char} (h : (d == 'n' || d == '\n' || Shell.isDoubleSpecial d) = true)
    (J : Text) : survives ('\\' :: d :: J) = false := by
  rw [survives_escaped, h]
  rfl

theorem survives_kept {d : Char} (h : (d == 'n' || d == '\n' || Shell.isDoubleSpecial d) = false)
    (J : Text) : survives ('\\' :: d :: J) = survives J := by
  rw [survives_escaped, h]
  rfl

theorem survives_char {c : Char} (hb : c ≠ '\\') (J : Text) : survives (c :: J)
    = if c = '`' then false else if c = '$' then !expands J && survives J else survives J := by
  rw [survives.eq_def]
  exact if_neg hb

/-- What follows a `$` in the body is what followed it in the text, as far as a parameter goes. -/
theorem expands_quoteBody (J : Text) : expands (quoteBody J ++ '"' :: tail) = expands J := by
  cases start J with
  | nil => rfl
  | quote J => rw [quoteBody_quote]; rfl
  | newline J => rfl
  | dangling => rfl
  | joined J => rw [quoteBody_joined]; rfl
  | backslash J hn => rw [quoteBody_backslashes hn]; rfl
  | escapedQuote J => rw [quoteBody_escapedQuote]; rfl
  | escaped d J hn hb hq => rw [quoteBody_escaped hn hb hq]; rfl
  | char c J hq hb => rw [quoteBody_char hq hb]; rfl

theorem push_same {c : Char} {o : Option (Text × Text)} {J : Text} :
    push c o = some (c :: J, tail) ↔ o = some (J, tail) := by
  constructor
  · intro h
    obtain ⟨u, hu, hJ⟩ := push_eq h
    rw [hu, (List.cons.inj hJ).2]
  · rintro rfl
    rfl

theorem push_other {c d : Char} (hcd : c ≠ d) {o : Option (Text × Text)} {J : Text} :
    ¬ push c o = some (d :: J, tail) := by
  intro h
  obtain ⟨u, -, hJ⟩ := push_eq h
  exact hcd (List.cons.inj hJ).1.symm

/-- **The body is read as the text it was made from exactly when that text survives.** -/
theorem readWord_quoteBody_iff (htail : EndsWord tail) : ∀ {J : Text},
    readWord .double (quoteBody J ++ '"' :: tail) = some (J, tail) ↔ survives J = true := by
  intro J
  have ih : ∀ {J' : Text}, J'.length < J.length →
      (readWord .double (quoteBody J' ++ '"' :: tail) = some (J', tail) ↔ survives J' = true) :=
    fun _ => readWord_quoteBody_iff htail
  have hbehind : ∀ {m : Mode} {J' w : Text}, m ≠ .single →
      readWord m (quoteBody J' ++ '"' :: tail) = some (w, tail) → Behind w J' := by
    intro m J' w hm h
    have hlag := readWord_behind htail h
    cases m with
    | single => exact absurd rfl hm
    | plain => exact hlag
    | double => exact hlag
  cases start J with
  | nil =>
    rw [quoteBody_nil, List.nil_append, Shell.readWord_double_close, Shell.readWord_ends htail]
    simp [survives]
  | quote J =>
    rw [quoteBody_quote, List.cons_append, List.cons_append,
      Shell.readWord_double_escaped (by decide), push_same, ih (by simp),
      survives_char (by decide), if_neg (by decide), if_neg (by decide)]
  | newline J =>
    rw [quoteBody_newline, List.cons_append, Shell.readWord_double_push (by decide) (by decide)
      (by decide) (by decide), survives_escaped]
    simpa using push_other (by decide)
  | dangling =>
    have hbody : quoteBody ['\\'] = ['\\'] := rfl
    rw [hbody, List.singleton_append, Shell.readWord_double_escaped (by decide)]
    simpa [survives] using push_other (by decide)
  | joined J =>
    rw [quoteBody_joined, List.cons_append, List.cons_append, Shell.readWord_double_joined,
      survives_escaped]
    simpa [Shell.isDoubleSpecial] using fun h =>
      Behind.not_longer (p := ['\\', '\\', 'n']) (by simp) (hbehind (m := .double) (by decide) h)
  | backslash J hn =>
    rw [quoteBody_backslashes hn, List.cons_append, List.cons_append,
      Shell.readWord_double_escaped (by decide), push_same, survives_escaped]
    simpa [Shell.isDoubleSpecial] using fun h =>
      Behind.not_longer (p := ['\\']) (by simp) (hbehind (m := .double) (by decide) h)
  | escapedQuote J =>
    rw [quoteBody_escapedQuote, List.cons_append, List.cons_append, List.cons_append,
      Shell.readWord_double_escaped (by decide), push_same, Shell.readWord_double_close,
      survives_escaped]
    simpa [Shell.isDoubleSpecial] using fun h =>
      Behind.not_longer (p := ['"']) (by simp) (hbehind (m := .plain) (by decide) h)
  | escaped d J hn hb hq =>
    rw [quoteBody_escaped hn hb hq, List.cons_append, List.cons_append, survives_escaped]
    by_cases hl : d = '\n'
    · subst hl
      rw [Shell.readWord_double_joined]
      simpa using fun h =>
        Behind.not_longer (p := ['\\', '\n']) (by simp) (hbehind (m := .double) (by decide) h)
    · by_cases hs : Shell.isDoubleSpecial d = true
      · rw [Shell.readWord_double_escaped hs]
        simpa [hs] using push_other hb
      · rw [Shell.readWord_double, if_neg (by decide), if_pos rfl]
        dsimp only
        rw [if_neg hl, if_neg hs, push_same, push_same, ih lt_two]
        simp [hn, hl, hs]
  | char c J hq hb =>
    rw [quoteBody_char hq hb, List.cons_append, Shell.readWord_double, if_neg hq, if_neg hb,
      survives_char hb, expands_quoteBody]
    by_cases hg : c = '`'
    · simp [hg]
    · rw [if_neg hg, if_neg hg]
      by_cases hd : c = '$'
      · rw [if_pos hd, if_pos hd, hd]
        cases expands J with
        | true => simp
        | false =>
          rw [if_neg (by decide), push_same, ih (by simp)]
          simp
      · rw [if_neg hd, if_neg hd, push_same, ih (by simp)]
termination_by J => J.length

/-! ## JSON texts that survive -/

/-- A character that is none of the three `survives` looks at. -/
theorem survives_ordinary {c : Char} (hb : c ≠ '\\') (hg : c ≠ '`') (hd : c ≠ '$') (J : Text) :
    survives (c :: J) = survives J := by
  rw [survives_char hb, if_neg hg, if_neg hd]

theorem survives_literal {w : Text} (h : ∀ c ∈ w, c ≠ '\\' ∧ c ≠ '`' ∧ c ≠ '$') (J : Text) :
    survives (w ++ J) = survives J := by
  induction w with
  | nil => rfl
  | cons c w ih =>
    obtain ⟨hb, hg, hd⟩ := h c (by simp)
    rw [List.cons_append, survives_ordinary hb hg hd, ih fun d hd => h d (by simp [hd])]

/-- An escaped control character is not one the substitutions or the shell touch. -/
theorem survives_control {c : Char} (hc : c.toNat < 32) (hn : c ≠ '\n') (J : Text) :
    survives (Json.escapeChar c ++ J) = survives J := by
  have hhex : ∀ n < 16, Json.hexDigit n ≠ '\\' ∧ Json.hexDigit n ≠ '`' ∧ Json.hexDigit n ≠ '$' := by
    decide
  have hne : c ≠ '"' ∧ c ≠ '\\' := by
    constructor <;> rintro rfl <;> exact absurd hc (by decide)
  rw [Json.escapeChar, if_neg hne.1, if_neg hne.2, if_neg hn]
  split_ifs
  · exact survives_kept (by decide) J
  · exact survives_kept (by decide) J
  · exact survives_kept (by decide) J
  · exact survives_kept (by decide) J
  · have hlow : ∀ d ∈ [Json.hexDigit (c.toNat / 16), Json.hexDigit (c.toNat % 16)],
        d ≠ '\\' ∧ d ≠ '`' ∧ d ≠ '$' := by
      intro d hd
      simp only [List.mem_cons, List.not_mem_nil, or_false] at hd
      rcases hd with rfl | rfl
      · exact hhex _ (by omega)
      · exact hhex _ (by omega)
    have hkept := survives_kept (d := 'u') (by decide)
      ('0' :: '0' :: ([Json.hexDigit (c.toNat / 16), Json.hexDigit (c.toNat % 16)] ++ J))
    have hzero : ∀ K, survives ('0' :: K) = survives K :=
      survives_ordinary (by decide) (by decide) (by decide)
    exact hkept.trans (by rw [hzero, hzero, survives_literal hlow])

/-- A character that JSON leaves alone. -/
theorem escapeChar_plain {c : Char} (hq : c ≠ '"') (hb : c ≠ '\\') (hc : ¬ c.toNat < 32) :
    Json.escapeChar c = [c] := by
  have hall : ∀ d : Char, d.toNat < 32 → c ≠ d := by
    rintro d hd rfl
    exact hc hd
  rw [Json.escapeChar, if_neg hq, if_neg hb, if_neg (hall _ (by decide)),
    if_neg (hall _ (by decide)), if_neg (hall _ (by decide)), if_neg (hall _ (by decide)),
    if_neg (hall _ (by decide)), if_neg hc]

/-- Escaping does not change whether a `$` in front of the text is an expansion. -/
theorem expands_escape (v J : Text) : expands (Json.escape v ++ '"' :: J) = expands v := by
  cases v with
  | nil => rfl
  | cons c v =>
    have hctl : ∀ n < 32, Shell.startsParameter (Char.ofNat n) = false := by decide
    have hhead : ∀ rest, expands (Json.escapeChar c ++ rest) = Shell.startsParameter c := by
      intro rest
      by_cases hq : c = '"'
      · subst hq; rfl
      · by_cases hb : c = '\\'
        · subst hb; rfl
        · by_cases hc : c.toNat < 32
          · have hp : Shell.startsParameter c = false := by
              rw [← Char.ofNat_toNat c]
              exact hctl _ hc
            rw [hp, Json.escapeChar, if_neg hq, if_neg hb]
            split_ifs <;> rfl
          · rw [escapeChar_plain hq hb hc]; rfl
    have hesc : Json.escape (c :: v) = Json.escapeChar c ++ Json.escape v := by
      simp [Json.escape]
    rw [hesc, List.append_assoc, hhead]
    rfl

theorem survives_escape (v J : Text) :
    survives (Json.escape v ++ '"' :: J) = true ↔ Shell.Quotable v ∧ survives J = true := by
  induction v with
  | nil =>
    rw [show Json.escape [] = [] from rfl, List.nil_append,
      survives_ordinary (by decide) (by decide) (by decide)]
    exact ⟨fun h => ⟨Shell.quotable_nil, h⟩, fun h => h.2⟩
  | cons c v ih =>
    have hesc : Json.escape (c :: v) = Json.escapeChar c ++ Json.escape v := by
      simp [Json.escape]
    rw [hesc, List.append_assoc, Shell.quotable_cons]
    -- the three characters JSON escapes into something the shell or the substitutions take
    have htaken : ∀ {d : Char}, Json.escapeChar c = ['\\', d] →
        (d == 'n' || d == '\n' || Shell.isDoubleSpecial d) = true →
        ¬ (c ≠ '"' ∧ c ≠ '\\' ∧ c ≠ '\n' ∧ c ≠ '`') →
        (survives (Json.escapeChar c ++ (Json.escape v ++ '"' :: J)) = true ↔
          ((c ≠ '"' ∧ c ≠ '\\' ∧ c ≠ '\n' ∧ c ≠ '`') ∧ (c = '$' → expands v = false) ∧
            Shell.Quotable v) ∧ survives J = true) := by
      intro d hd ht hc
      refine iff_of_false ?_ fun h => hc h.1.1
      rw [hd, List.cons_append, List.singleton_append, survives_taken ht]
      exact Bool.false_ne_true
    by_cases hq : c = '"'
    · exact htaken (d := '"') (by rw [hq]; rfl) (by decide) fun h => h.1 hq
    · by_cases hb : c = '\\'
      · exact htaken (d := '\\') (by rw [hb]; rfl) (by decide) fun h => h.2.1 hb
      · by_cases hn : c = '\n'
        · exact htaken (d := 'n') (by rw [hn]; rfl) (by decide) fun h => h.2.2.1 hn
        · by_cases hc : c.toNat < 32
          · have hg : c ≠ '`' ∧ c ≠ '$' := by
              constructor <;> rintro rfl <;> exact absurd hc (by decide)
            rw [survives_control hc hn, ih]
            simp [hq, hb, hn, hg.1, hg.2]
          · rw [escapeChar_plain hq hb hc, List.singleton_append, survives_char hb, expands_escape]
            by_cases hg : c = '`'
            · simp [hg]
            · by_cases hd : c = '$'
              · subst hd
                cases he : expands v <;> simp [ih]
              · rw [if_neg hg, if_neg hd, ih]
                simp [hq, hb, hn, hg, hd]

theorem survives_quote (v J : Text) :
    survives (Json.quote v ++ J) = true ↔ Shell.Quotable v ∧ survives J = true := by
  have hquote : Json.quote v ++ J = '"' :: (Json.escape v ++ '"' :: J) := by simp [Json.quote]
  rw [hquote, survives_ordinary (by decide) (by decide) (by decide), survives_escape]

/-- Members of a list or of an object: each survives by itself, and the commas do. -/
theorem survives_intercalate {α : Type} {f : α → Text} {ok : α → Prop} (J : Text) :
    ∀ {l : List α}, (∀ a ∈ l, ∀ J, survives (f a ++ J) = true ↔ ok a ∧ survives J = true) →
    (survives ([','].intercalate (l.map f) ++ J) = true ↔ (∀ a ∈ l, ok a) ∧ survives J = true)
  | [], _ => by simp
  | [a], h => by simpa using h a (by simp) J
  | a :: b :: l, h => by
    have ih := survives_intercalate J (l := b :: l) fun c hc => h c (by simp [hc])
    rw [List.map_cons] at ih
    rw [List.map_cons, List.map_cons, List.intercalate_cons_cons, List.append_assoc,
      List.append_assoc, h a (by simp), List.singleton_append,
      survives_ordinary (by decide) (by decide) (by decide), ih, ← and_assoc]
    exact and_congr_left fun _ => (List.forall_mem_cons (p := ok)).symm

theorem survives_render (v : Json.Value) (J : Text) : survives (Json.render v ++ J) = true ↔
    (∀ s ∈ v.texts, Shell.Quotable s) ∧ survives J = true := by
  cases v with
  | null =>
    have hplain : ['n', 'u', 'l', 'l'].all (fun c => c ≠ '\\' ∧ c ≠ '`' ∧ c ≠ '$') = true := by
      decide
    rw [Json.render,
      survives_literal fun c hc => of_decide_eq_true (List.all_eq_true.mp hplain c hc)]
    simp [Json.Value.texts]
  | string s =>
    rw [Json.render, survives_quote]
    simp [Json.Value.texts]
  | strings l =>
    rw [Json.render, Json.list, List.cons_append,
      survives_ordinary (by decide) (by decide) (by decide), List.append_assoc,
      survives_intercalate _ fun s _ J => survives_quote s J, List.singleton_append,
      survives_ordinary (by decide) (by decide) (by decide)]
    rfl

theorem survives_object {fields : List (Text × Json.Value)} :
    survives (Json.object fields) = true ↔
      ∀ f ∈ fields, Shell.Quotable f.1 ∧ ∀ s ∈ f.2.texts, Shell.Quotable s := by
  have hmember : ∀ f ∈ fields, ∀ J, survives (Json.member f ++ J) = true ↔
      (Shell.Quotable f.1 ∧ ∀ s ∈ f.2.texts, Shell.Quotable s) ∧ survives J = true := by
    intro f _ J
    rw [Json.member, List.append_assoc, survives_quote, List.cons_append,
      survives_ordinary (by decide) (by decide) (by decide), survives_render, and_assoc]
  rw [Json.object, survives_ordinary (by decide) (by decide) (by decide),
    survives_intercalate _ hmember]
  exact and_iff_left (by decide)

/-! ## The command -/

/-- The strings of the record that end up in the body. -/
def Data.texts (d : Data) : List Text := d.members.flatMap fun f => f.2.texts

/-- The shell reads the body as one word, and it is the JSON text: the word starts where the
script put its first quote and what follows it is what the script wrote after it. -/
def BodyArrives (e : Session) (d : Data) (order : d.Order) : Prop :=
  Shell.takeWords (insertWords.length + 1) (insertTestUrl e (toJson d order))
    = some (insertWords ++ [toJson d order], insertRest e)

theorem Data.members_names (d : Data) : ∀ f ∈ d.members, Shell.Quotable f.1 := by
  have hnames : ∀ name ∈ ["specificationXml".toList, "tenantId".toList, "itemBank".toList,
      "category".toList, "subjectName".toList, "subjectAbbreviation".toList, "name".toList,
      "grade".toList, "label".toList, "purpose".toList, "type".toList, "version".toList],
      Shell.Quotable name := by decide
  exact fun f hf => hnames f.1 (List.mem_map_of_mem (f := Prod.fst) hf)

theorem survives_toJson {d : Data} {order : d.Order} :
    survives (toJson d order) = true ↔ ∀ v ∈ d.texts, Shell.Quotable v := by
  have hmem : ∀ f, f ∈ order.1 ↔ f ∈ d.members := fun f => order.2.mem_iff
  rw [toJson, survives_object]
  simp only [hmem, Data.texts, List.mem_flatMap]
  constructor
  · rintro h v ⟨f, hf, hv⟩
    exact (h f hf).2 v hv
  · exact fun h f hf => ⟨d.members_names f hf, fun s hs => h s ⟨f, hf, hs⟩⟩

theorem nextWord_testJsonBody (J : Text) : Shell.nextWord (testJsonBody J ++ tail)
    = readWord .double (quoteBody J ++ '"' :: tail) := by
  have hbody : testJsonBody J ++ tail = '"' :: (quoteBody J ++ '"' :: tail) := by
    simp [testJsonBody, quoteBody]
  rw [hbody, ← Shell.readWord_plain_open]
  rfl

theorem insertTestUrl_words (e : Session) (json : Text) : insertTestUrl e json =
    insertWords.flatMap (· ++ [' ']) ++ (testJsonBody json ++ insertRest e) := by
  have hcommand : "curl -s --insecure -3 -X POST --data ".toList
      = insertWords.flatMap (· ++ [' ']) := by decide
  unfold insertTestUrl
  rewrite [List.append_assoc]
  exact congrArg (· ++ (testJsonBody json ++ insertRest e)) hcommand

theorem bodyArrives_iff_survives {e : Session} {d : Data} {order : d.Order} :
    BodyArrives e d order ↔ survives (toJson d order) = true := by
  have hends : EndsWord (insertRest e) := by
    rw [insertRest]
    exact rfl
  have hnext : Shell.takeWords 1 (testJsonBody (toJson d order) ++ insertRest e)
      = (readWord .double (quoteBody (toJson d order) ++ '"' :: insertRest e)).map
          fun w => ([w.1], w.2) := by
    rw [← nextWord_testJsonBody]
    cases h : Shell.nextWord (testJsonBody (toJson d order) ++ insertRest e) <;>
      simp [Shell.takeWords, h]
  rw [BodyArrives, insertTestUrl_words, Shell.takeWords_literals (n := 0) (by decide), hnext,
    ← readWord_quoteBody_iff hends]
  cases readWord .double (quoteBody (toJson d order) ++ '"' :: insertRest e) with
  | none => simp
  | some w => simp [Prod.ext_iff]

/-- **The body arrives exactly when every string of the record is one that the shell leaves
alone between double quotes.** -/
theorem body_arrives_iff (e : Session) (d : Data) (order : d.Order) :
    BodyArrives e d order ↔ ∀ v ∈ d.texts, Shell.Quotable v := by
  rw [bodyArrives_iff_survives, survives_toJson]

/-- A complete package whose label starts with a `$`. -/
def dollarPackage : Text :=
  "<testspecification purpose=\"registration\" publishdate=\"d\">\n".toList ++
    "<identifier uniqueid=\"u\" label=\"$5\" version=\"1\"/>\n".toList ++
    "<property name=\"subject\" value=\"ELA\" label=\"\"/>\n".toList ++
    "<property name=\"type\" value=\"interim\" label=\"\"/>\n".toList ++
    "<registration>\n".toList

/-- The label of that package is sent to the shell as the fifth parameter, not to the service. -/
theorem dollar_label_does_not_arrive :
    ¬ ∀ (e : Session) (z : Deflater Unit) (filePath : Text) (file : Option Text) (d : Data)
      (order : d.Order), (processXmlFile e z filePath file).sent = some d →
      BodyArrives e d order := by
  intro h
  have hlabel : (processXmlFile shortSession shortStream "a.xml".toList
      (some dollarPackage)).sent.bind Data.label = some ['$', '5'] := by decide +kernel
  obtain ⟨d, hd, hl⟩ := Option.bind_eq_some_iff.mp hlabel
  have harrives := h shortSession shortStream _ _ d ⟨d.members, .refl _⟩ hd
  have hmem : ['$', '5'] ∈ d.texts := by
    refine List.mem_flatMap.mpr ⟨("label".toList, Json.ofScalar d.label), ?_, ?_⟩
    · simp only [Data.members, List.mem_cons, true_or, or_true]
    · rw [hl]
      exact List.mem_singleton.mpr rfl
  exact absurd (survives_toJson.mp (bodyArrives_iff_survives.mp harrives) _ hmem) (by decide)

end Package
end TdsAdmin
