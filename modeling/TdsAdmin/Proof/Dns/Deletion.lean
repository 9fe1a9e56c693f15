import TdsAdmin.Proof.Dns.Batch

/-!
# Which names are unpublished

The test of the loop is the exit status of `grep`, the last command of a pipe: it says that no line
was found, not that EC2 was asked. So a record goes when its call fails, unless the call has printed
an instance before. And a name in Route 53's escaped form is read without its backslashes, so what
goes may be another record than the one that was asked about (`live_kept_iff`).

Both show in the batch that is submitted: what Route 53 is asked for is read off the file, and
`submitted_eq` says what is in it.
-/

set_option autoImplicit false

namespace TdsAdmin
namespace Dns

open Fields (unescape)
open Json (Doc readValue isPlain)

/-! ## Names in Route 53's form -/

theorem isOctal_nameChar {c : Char} (h : isOctal c = true) : isNameChar c = true ∧ c ≠ '\\' := by
  have hdigit : c.isDigit = true := by
    simp only [isOctal, Bool.and_eq_true, decide_eq_true_eq] at h
    simp only [Char.isDigit, Bool.and_eq_true, decide_eq_true_eq]
    exact ⟨h.1, Nat.le_trans h.2 (by decide : '7'.toNat ≤ '9'.toNat)⟩
  refine ⟨by simp [isNameChar, Char.isAlphanum, hdigit], ?_⟩
  intro hback
  rw [hback] at h
  exact absurd h (by decide)

theorem isNameChar_ne_backslash {c : Char} (h : isNameChar c = true) : c ≠ '\\' := by
  intro hback
  rw [hback] at h
  exact absurd h (by decide)

/-- Without the backslashes the digits of an escape are left, and nothing that means anything to the
shell or to JSON. -/
theorem unescape_escaped {s : Text} (h : isEscaped s = true) :
    unescape s = s.filter (· ≠ '\\') ∧ ∀ c ∈ unescape s, isNameChar c = true := by
  fun_induction isEscaped s with
  -- an escape
  | case1 a b c s ih =>
    simp only [Bool.and_eq_true] at h
    obtain ⟨⟨⟨ha, hb⟩, hc⟩, hs⟩ := h
    obtain ⟨heq, hchars⟩ := ih hs
    have ha := isOctal_nameChar ha
    have hb := isOctal_nameChar hb
    have hc := isOctal_nameChar hc
    have hdrop : unescape ('\\' :: a :: b :: c :: s) = a :: b :: c :: unescape s := by
      rw [unescape, Fields.unescape_char hb.2, Fields.unescape_char hc.2]
    rw [hdrop, heq]
    refine ⟨by simp [ha.2, hb.2, hc.2], ?_⟩
    rw [← heq]
    simpa [ha.1, hb.1, hc.1] using hchars
  -- a character that stands for itself
  | case2 c s hmore ih =>
    simp only [Bool.and_eq_true] at h
    obtain ⟨hc, hs⟩ := h
    obtain ⟨heq, hchars⟩ := ih hs
    have hback := isNameChar_ne_backslash hc
    rw [Fields.unescape_char hback, heq]
    refine ⟨by simp [hback], ?_⟩
    rw [← heq]
    simpa [hc] using hchars
  | case3 => simp [unescape]

theorem isNameChar_plain {c : Char} (h : isNameChar c = true) :
    isPlain c = true ∧ c ∉ ['*', '?', ']'] := by
  have hother : ∀ d, isNameChar d = false → c ≠ d := by
    intro d hd heq
    rw [← heq, h] at hd
    cases hd
  refine ⟨Json.isPlain_iff.mpr ⟨hother '"' (by decide), hother '\\' (by decide), ?_⟩, ?_⟩
  · intro hcontrol
    have hnone : ∀ n < 32, isNameChar (Char.ofNat n) = false := by decide
    have hnot := hnone c.toNat hcontrol
    rw [Char.ofNat_toNat, h] at hnot
    cases hnot
  · simp [hother '*' (by decide), hother '?' (by decide), hother ']' (by decide)]

/-- An escape leaves its digits. -/
theorem unescape_cons {c : Char} {s : Text} (h : isEscaped (c :: s) = true) :
    (c ≠ '\\' ∧ isEscaped s = true ∧ unescape (c :: s) = c :: unescape s) ∨
      2 ≤ (unescape (c :: s)).length := by
  rw [isEscaped.eq_def] at h
  split at h
  · rename_i a b c s heq
    simp only [Bool.and_eq_true] at h
    right
    rw [heq, unescape, Fields.unescape_char (isOctal_nameChar h.1.1.2).2]
    simp
  · rename_i d s hmore heq
    cases heq
    simp only [Bool.and_eq_true] at h
    have hback := isNameChar_ne_backslash h.1
    exact Or.inl ⟨hback, h.2, Fields.unescape_char hback s⟩
  · rename_i heq
    cases heq

theorem unescape_ne_nil {s : Text} (h : isEscaped s = true) (hne : s ≠ []) : unescape s ≠ [] := by
  obtain ⟨c, s, rfl⟩ := List.exists_cons_of_ne_nil hne
  intro hempty
  rcases unescape_cons h with ⟨-, -, heq⟩ | hlen
  · rw [heq] at hempty
    cases hempty
  · rw [hempty] at hlen
    exact absurd hlen (by decide)

/-- Only the dot is read as the dot. -/
theorem unescape_dot {s : Text} (h : isEscaped s = true) (hdot : unescape s = ['.']) :
    s = ['.'] := by
  cases s with
  | nil => cases hdot
  | cons c s =>
    rcases unescape_cons h with ⟨-, hs, heq⟩ | hlen
    · rw [heq] at hdot
      obtain ⟨rfl, hrest⟩ := List.cons.inj hdot
      -- a longer name has more than the dot
      by_cases hne : s = []
      · rw [hne]
      · exact absurd hrest (unescape_ne_nil hs hne)
    · rw [hdot] at hlen
      exact absurd hlen (by decide)

/-! ## The entries of the batch -/

namespace ListedRecord

variable (d : ListedRecord)

theorem aliasName_ne_nil : d.removal.aliasName ≠ [] := by
  intro hempty
  have hname := d.unescape_name
  rw [hempty] at hname
  exact d.name_form.2 (unescape_dot d.name_form.1 hname)

theorem hostname_ne_nil : d.removal.hostname ≠ [] :=
  unescape_ne_nil d.target_form d.target.ne_nil

theorem aliasName_char : ∀ c ∈ d.removal.aliasName, isNameChar c = true := by
  intro c hc
  exact (unescape_escaped d.name_form.1).2 c (List.mem_of_mem_dropLast hc)

theorem hostname_char : ∀ c ∈ d.removal.hostname, isNameChar c = true :=
  (unescape_escaped d.target_form).2

/-- What is written for a record is a `DELETE` of it without its backslashes. -/
theorem read (matching : Text → List Text) (n : Nat) (tail : Text) :
    readValue (n + 13) (d.removal.text matching ++ tail) =
      some (deleteDoc d.removal.aliasName d.ttl.text d.removal.hostname, tail) := by
  have hword : ∀ {w : Text}, (∀ c ∈ w, isNameChar c = true) → Expand.wordFiles matching w = [w] :=
    fun hw => Expand.wordFiles_plain
      (Expand.isPattern_eq_false fun c hc => (isNameChar_plain (hw c hc)).2)
  have hname := (Expand.unquoted_word d.alias_not_ifs d.aliasName_ne_nil).trans
    (hword d.aliasName_char)
  have htarget := (Expand.unquoted_word d.hostname_not_ifs d.hostname_ne_nil).trans
    (hword d.hostname_char)
  have hname_plain : ∀ c ∈ d.removal.aliasName, isPlain c = true := fun c hc =>
    (isNameChar_plain (d.aliasName_char c hc)).1
  have htarget_plain : ∀ c ∈ d.removal.hostname, isPlain c = true := fun c hc =>
    (isNameChar_plain (d.hostname_char c hc)).1
  rw [d.text_three hname htarget]
  exact (entry_iff d.ttl.ne_nil d.ttl_digit (Or.inl hname_plain) (Or.inl htarget_plain)).mpr
    ⟨hname_plain, rfl, d.ttl_form, rfl, htarget_plain, rfl, rfl⟩

end ListedRecord

/-! ## The calls -/

/-- The calls for some records. -/
def callsFrom (describe : Nat → Text → Outcome) :
    Nat → List ListedRecord → List (ListedRecord × Outcome)
  | _, [] => []
  | n, r :: rs => (r, describe n (unescape r.target.text)) :: callsFrom describe (n + 1) rs

/-- The calls of a run, each with the record it is for and what it comes to. -/
def calls (describe : Nat → Text → Outcome) (zone : List Listed) :
    List (ListedRecord × Outcome) := callsFrom describe 0 (reached zone)

theorem mem_calls {describe : Nat → Text → Outcome} {zone : List Listed} {r : ListedRecord}
    {o : Outcome} (h : (r, o) ∈ calls describe zone) :
    ∃ n, o = describe n (unescape r.target.text) := by
  have hfrom : ∀ (rs : List ListedRecord) (n : Nat), (r, o) ∈ callsFrom describe n rs →
      ∃ m, o = describe m (unescape r.target.text) := by
    intro rs
    induction rs with
    | nil => simp [callsFrom]
    | cons x rs ih =>
      intro n hmem
      rcases List.mem_cons.mp hmem with heq | hmem
      · cases heq
        exact ⟨n, rfl⟩
      · exact ih (n + 1) hmem
  exact hfrom _ _ h

theorem deadFrom_calls (describe : Nat → Text → Outcome) : ∀ (rs : List ListedRecord) (n : Nat),
    deadFrom describe n (rs.map (·.toRecord)) =
      ((callsFrom describe n rs).filter fun x => !x.2.reportsInstance).map (·.1.toRecord) := by
  intro rs
  induction rs with
  | nil => exact fun n => rfl
  | cons r rs ih =>
    intro n
    rw [List.map_cons, deadFrom, ih, callsFrom, List.filter_cons]
    cases (describe n (unescape r.target.text)).reportsInstance <;> rfl

/-! ## The batch -/

/-- The changes of a batch. -/
def changesOf : Option Doc → List Doc
  | some (.object [(key, .array changes)]) => if key = "Changes".toList then changes else []
  | _ => []

/-- What Route 53 is asked for: the changes in the file, if one is submitted and is JSON. -/
def submitted (matching : Text → List Text) (describe : Nat → Text → Outcome)
    (zone : List Listed) : List Doc :=
  changesOf ((cleanRoute53 matching describe (listingText zone)).bind Json.parse)

/-- **The batch is a `DELETE` for each call that reports no instance.** -/
theorem submitted_eq (matching : Text → List Text) (describe : Nat → Text → Outcome)
    (zone : List Listed) : submitted matching describe zone =
      ((calls describe zone).filter fun x => !x.2.reportsInstance).map fun x =>
        deleteDoc x.1.removal.aliasName x.1.ttl.text x.1.removal.hostname := by
  have hpairs : pairs (listingText zone) = ((reached zone).map (·.toRecord)).map Record.pair := by
    rw [pairs_listing, List.map_map]
    rfl
  obtain ⟨hbatch, hdelete⟩ := cleanPairs_file matching describe ((reached zone).map (·.toRecord))
  have hdead := deadFrom_calls describe (reached zone) 0
  rw [submitted, cleanRoute53, hpairs]
  by_cases hnone : deadFrom describe 0 ((reached zone).map (·.toRecord)) = []
  -- nothing was found dead, and nothing is submitted
  · have hno := fun h => hdelete.mp h hnone
    have hempty := hdead.symm.trans hnone
    rw [List.map_eq_nil_iff] at hempty
    rw [if_neg hno, calls, hempty]
    rfl
  -- the file that is submitted is read back change by change
  · rw [if_pos (hdelete.mpr hnone), Option.bind_some, cleanPairs_parse, hdead]
    have hread := @parse_read matching
      (fun d => deleteDoc d.removal.aliasName d.ttl.text d.removal.hostname)
      (((callsFrom describe 0 (reached zone)).filter fun x => !x.2.reportsInstance).map
        (·.1.toRecord)) (by
          intro d hd n tail
          obtain ⟨x, -, rfl⟩ := List.mem_map.mp hd
          exact x.1.read matching n tail)
    rw [hread, List.map_map]
    rfl

/-! ## Live names -/

/-- The calls for a record succeeded and reported no instance, and there was one. -/
def FoundDead (describe : Nat → Text → Outcome) (zone : List Listed) (r : ListedRecord) : Prop :=
  (∃ o, (r, o) ∈ calls describe zone) ∧
    ∀ o, (r, o) ∈ calls describe zone → o.succeeded = true ∧ o.reportsInstance = false

/-- Route 53 is asked to delete a record of the zone only if it was found dead. -/
def LiveKept (matching : Text → List Text) (describe : Nat → Text → Outcome)
    (zone : List Listed) : Prop :=
  ∀ r ∈ cnames zone, r.deletion ∈ submitted matching describe zone → FoundDead describe zone r

/-- A record that is another one without its backslashes, if it has any. -/
structure ReadAs (d r : ListedRecord) : Prop where
  name : r.name.text = d.name.text.filter (· ≠ '\\')
  ttl : r.ttl.text = d.ttl.text
  target : r.target.text = d.target.text.filter (· ≠ '\\')

theorem readAs_iff {d r : ListedRecord} : ReadAs d r ↔
    r.deletion = deleteDoc d.removal.aliasName d.ttl.text d.removal.hostname := by
  have hname := (unescape_escaped d.name_form.1).1
  have htarget := (unescape_escaped d.target_form).1
  rw [d.unescape_name] at hname
  constructor
  · intro h
    show deleteDoc r.name.text.dropLast r.ttl.text r.target.text = deleteDoc _ _ (unescape _)
    rw [h.name, ← hname, List.dropLast_concat, h.ttl, h.target, htarget]
  · intro h
    unfold Record.deletion at h
    obtain ⟨halias, hlifetime, hhost⟩ := deleteDoc_inj h
    exact ⟨by rw [r.name_eq, halias, ← hname], hlifetime, hhost.trans htarget⟩

/-- **A live name is kept exactly when every call that prints no instance is for a record which,
read without its backslashes, is no record of the zone but one that was found dead.** -/
theorem live_kept_iff (matching : Text → List Text) (describe : Nat → Text → Outcome)
    (zone : List Listed) : LiveKept matching describe zone ↔
      ∀ d o, (d, o) ∈ calls describe zone → o.reportsInstance = false →
        ∀ r ∈ cnames zone, ReadAs d r → FoundDead describe zone r := by
  have hsubmitted : ∀ r : ListedRecord, r.deletion ∈ submitted matching describe zone ↔
      ∃ d o, (d, o) ∈ calls describe zone ∧ o.reportsInstance = false ∧ ReadAs d r := by
    intro r
    rw [submitted_eq, List.mem_map]
    constructor
    · rintro ⟨⟨d, o⟩, hmem, heq⟩
      obtain ⟨hcall, hnone⟩ := List.mem_filter.mp hmem
      exact ⟨d, o, hcall, by simpa using hnone, readAs_iff.mpr heq.symm⟩
    · rintro ⟨d, o, hcall, hnone, hread⟩
      exact ⟨(d, o), List.mem_filter.mpr ⟨hcall, by simp [hnone]⟩, (readAs_iff.mp hread).symm⟩
  constructor
  · intro h d o hcall hnone r hr hread
    exact h r hr ((hsubmitted r).mpr ⟨d, o, hcall, hnone, hread⟩)
  · intro h r hr hdelete
    obtain ⟨d, o, hcall, hnone, hread⟩ := (hsubmitted r).mp hdelete
    exact h d o hcall hnone r hr hread

theorem webRecord_tokens :
    ("w.d.".toList ≠ [] ∧ "w.d.".toList.all (!Pattern.isSpace ·) = true) ∧
      ("60".toList ≠ [] ∧ "60".toList.all (!Pattern.isSpace ·) = true) ∧
      "ec2-1.aws".toList ≠ [] ∧ "ec2-1.aws".toList.all (!Pattern.isSpace ·) = true := by decide

theorem webRecord_forms :
    (isEscaped "w.d.".toList = true ∧ "w.d.".toList ≠ ['.']) ∧
      ("60".toList.head? = some '0' → "60".toList = ['0']) ∧
      isEscaped "ec2-1.aws".toList = true := by decide

/-- One record of an instance. -/
def webRecord : ListedRecord where
  name := ⟨"w.d.".toList, webRecord_tokens.1⟩
  ttl := ⟨"60".toList, webRecord_tokens.2.1⟩
  target := ⟨"ec2-1.aws".toList, webRecord_tokens.2.2⟩
  name_dot := rfl
  ttl_digits := rfl
  name_form := webRecord_forms.1
  ttl_form := webRecord_forms.2.1
  target_form := webRecord_forms.2.2

/-- Its name is unpublished when EC2 cannot be asked. -/
theorem unanswered_call_deletes : ¬ ∀ (matching : Text → List Text)
    (describe : Nat → Text → Outcome) (zone : List Listed), LiveKept matching describe zone := by
  intro h
  have hcall : (webRecord, (⟨false, []⟩ : Outcome)) ∈
      calls (fun _ _ => ⟨false, []⟩) [.cname webRecord] := by
    have hreached : reached [.cname webRecord] = [webRecord] := by
      simp only [reached, reachedFrom, Bool.false_eq_true, if_false, List.append_nil]
      exact List.filter_cons_of_pos (by decide)
    rw [calls, hreached]
    exact List.mem_singleton_self _
  have hdeletion : webRecord.deletion ∈
      submitted (fun _ => []) (fun _ _ => ⟨false, []⟩) [.cname webRecord] := by
    rw [submitted_eq]
    refine List.mem_map.mpr ⟨_, List.mem_filter.mpr ⟨hcall, rfl⟩, ?_⟩
    exact (readAs_iff.mp ⟨by decide, rfl, by decide⟩).symm
  have hdead := h _ _ [.cname webRecord] webRecord (List.mem_singleton_self _) hdeletion
  exact absurd (hdead.2 _ hcall).1 (by decide)

end Dns
end TdsAdmin
