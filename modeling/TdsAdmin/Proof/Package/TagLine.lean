import TdsAdmin.Proof.Package.Attributes
import TdsAdmin.Proof.Package.Metadata

/-!
# A tag on a line of its own

What the scanner reads on a line that holds one tag and nothing else does not depend on how the tag
is laid out, as long as there is a blank in front of the attributes that it asks for, no `=` in a
value, and no white space in `<registration>`. `TagLine` is such a line. Each of the seven tests and
each value is a function of the tag there.
-/

set_option autoImplicit false

namespace TdsAdmin
namespace Package

open Markup (Tag Attribute AttributesText TagText Blank IsName isDelimiter)

/-! ## The lines -/

/-- The scanner asks the tag for its attributes. -/
def TakesAttributes (tag : Tag) : Prop :=
  "testspecification".toList <+: tag.name ∨ "identifier".toList <+: tag.name

/-- `<registration>` -/
def IsRegistrationTag (tag : Tag) : Prop :=
  tag.name = "registration".toList ∧ tag.attributes = [] ∧ tag.selfClosing = false

/-- The attributes, each with a blank right in front of it. -/
inductive Spaced : List Attribute → Text → Prop where
  | nil : Spaced [] []
  | cons {gap s : Text} {as : List Attribute} (a : Attribute) (hgap : Blank gap)
      (rest : Spaced as s) : Spaced (a :: as) (gap ++ ' ' :: (a.text ++ s))

/-- A line that holds the tag and is otherwise white space. -/
inductive TagLine (tag : Tag) : Text → Prop where
  | mk {before s gap after : Text} (hbefore : Blank before) (hs : AttributesText tag.attributes s)
      (hgap : Blank gap) (hafter : Blank after) (hspaced : TakesAttributes tag →
        Spaced tag.attributes s) (hbare : IsRegistrationTag tag → gap = []) :
      TagLine tag (before ++ '<' :: (tag.name ++ (s ++ (gap ++ (tag.close ++ after)))))

/-- Nothing in a value of the attributes that are asked for looks like an attribute. -/
def Unambiguous (tag : Tag) : Prop := TakesAttributes tag → ∀ a ∈ tag.attributes, '=' ∉ a.value

/-! ## Characters -/

theorem blank_space {c : Char} (h : Markup.isSpace c = true) : Pattern.isSpace c = true := by
  simp only [Markup.isSpace, Bool.or_eq_true, beq_iff_eq] at h
  rcases h with ((rfl | rfl) | rfl) | rfl <;> decide

theorem space_delimiter {c : Char} (h : Pattern.isSpace c = true) : isDelimiter c = true := by
  simp only [Pattern.isSpace, Bool.or_eq_true, beq_iff_eq] at h
  rcases h with ((((rfl | rfl) | rfl) | rfl) | rfl) | rfl <;> decide

theorem not_space {c : Char} (h : isDelimiter c = false) : Pattern.isSpace c = false := by
  by_contra hs
  rw [Bool.not_eq_false] at hs
  rw [space_delimiter hs] at h
  cases h

/-! ## The tests -/

variable {tag : Tag} {l : Text}

/-- An opening is on the line if the name of the tag starts with it. -/
theorem has_tagLine (h : TagLine tag l) {w : Text} (hw : ∀ c ∈ w, isDelimiter c = false) :
    Text.has ('<' :: w) l = true ↔ w <+: tag.name := by
  cases h with
  | mk hbefore hs hgap hafter hspaced hbare =>
    rename_i before s gap after
    rw [Text.has_iff, Text.infix_at_head (hbefore.not_mem (by decide))
      (tag.not_mem_body hs hgap hafter)]
    obtain ⟨d, rest, hrest, hd⟩ := tag.name_delimiter after hs hgap
    rw [hrest]
    exact Markup.prefix_name_iff hw hd

theorem isRegistration_tagLine (h : TagLine tag l) :
    isRegistration l = true ↔ IsRegistrationTag tag := by
  cases h with
  | mk hbefore hs hgap hafter hspaced hbare =>
    rename_i before s gap after
    have hinfix : '<' :: "registration>".toList <:+: before ++ '<' :: _ ↔ _ :=
      Text.infix_at_head (hbefore.not_mem (by decide)) (tag.not_mem_body hs hgap hafter)
    rw [isRegistration, Text.has_iff]
    refine hinfix.trans ?_
    constructor
    · rintro ⟨y, hy⟩
      obtain ⟨d, rest, hrest, hd⟩ := tag.name_delimiter after hs hgap
      have hcut : "registration".toList ++ '>' :: y = tag.name ++ d :: rest := by
        rw [← hrest]
        exact hy
      obtain ⟨hname, rfl, rfl⟩ := Pattern.run_unique (p := fun c => !isDelimiter c)
        (Text.forall_of_all (by decide)) (fun c hc => by simp [tag.name_ok.2 c hc]) (by decide)
        (by simp [hd]) hcut
      exact ⟨hname.symm, tag.close_at_once hs hgap hrest⟩
    · intro h
      obtain ⟨hname, hattributes, hclosing⟩ := h
      rw [hattributes] at hs
      obtain rfl := hs.eq_nil
      rw [hbare ⟨hname, hattributes, hclosing⟩, hname, Tag.close, hclosing]
      exact ⟨after, rfl⟩

/-! ## The values that are asked for -/

/-- The value of the first attribute of this name that stands in double quotes. -/
def valueFor (name : Text) (as : List Attribute) : Option Text :=
  (as.find? fun a => a.name == name && a.quote == '"').map fun a => a.value

variable {n : Text}

/-- White space holds no attribute, and none begins in it if a delimiter follows. -/
theorem noneIn_blank (hn : IsName n) {u v : Text} (hu : Blank u)
    (hv : ∀ c w, v = c :: w → isDelimiter c = true) :
    Pattern.NoneIn (attributePattern n) u v := by
  intro x y hxy hy
  apply matchHere_attribute_none.mpr
  rintro value ⟨before, after, rest, -, -, -, heq⟩
  obtain ⟨c, n, rfl, hc⟩ := hn.uncons
  obtain ⟨d, y, rfl⟩ := List.exists_cons_of_ne_nil hy
  have htail : y ++ v = c :: (n ++ _) := (List.cons.inj heq).2
  have hblank : Blank y := by
    intro e he
    apply hu e
    rw [hxy]
    exact List.mem_append_right x (List.mem_cons_of_mem d he)
  rw [hblank.head_delimiter hv c _ htail] at hc
  cases hc

/-- Nor does one begin in a text without `=` that a quote follows. -/
theorem noneIn_quoted (hn : IsName n) {u v : Text} {q : Char} (hu : '=' ∉ u)
    (hq : q = '"' ∨ q = '\'') : Pattern.NoneIn (attributePattern n) u (q :: v) := by
  have hdelimiter : isDelimiter q = true := by
    rcases hq with rfl | rfl <;> decide
  have hspace : Pattern.isSpace q = false := by
    rcases hq with rfl | rfl <;> decide
  have hequals : q ≠ '=' := by
    rcases hq with rfl | rfl <;> decide
  intro x y hxy hy
  apply matchHere_attribute_none.mpr
  rintro value ⟨before, after, rest, hbefore, -, -, heq⟩
  have hy' : '=' ∉ y := fun h => hu (by rw [hxy]; exact List.mem_append_right x h)
  have hopening : q ∉ ' ' :: n ++ before := by
    simp only [List.mem_append, List.mem_cons, not_or]
    refine ⟨⟨?_, hn.not_mem hdelimiter⟩, ?_⟩
    · rintro rfl
      exact absurd hspace (by decide)
    · intro h
      rw [hbefore q h] at hspace
      cases hspace
  rw [← List.append_assoc] at heq
  -- the `=` of the attribute is neither in front of the quote nor behind it
  rcases List.append_eq_append_iff.mp heq with ⟨w, hw, htail⟩ | ⟨w, rfl, htail⟩
  · cases w with
    | nil => exact hequals (List.cons.inj htail).1
    | cons c w =>
      obtain ⟨rfl, -⟩ := List.cons.inj htail
      exact hopening (by rw [hw]; simp)
  · cases w with
    | nil => exact hequals (List.cons.inj htail).1.symm
    | cons c w =>
      obtain ⟨rfl, -⟩ := List.cons.inj htail
      exact hy' (by simp)

/-- Nor in an attribute whose value holds no `=`. -/
theorem noneIn_attribute (hn : IsName n) (a : Attribute) (ha : '=' ∉ a.value) (v : Text) :
    Pattern.NoneIn (attributePattern n) a.text v := by
  have hquote : ' ' ∉ [a.quote] := by
    rcases a.quote_ok with h | h <;> rw [h] <;> decide
  have hafter : Pattern.NoneIn (attributePattern n)
      (a.afterEquals ++ ([a.quote] ++ (a.value ++ [a.quote]))) v := by
    apply Pattern.NoneIn.append
    · exact noneIn_blank hn a.afterEquals_blank (Text.head_cons a.quote_delimiter)
    · apply Pattern.NoneIn.append (Pattern.NoneIn.of_not_mem hquote)
      exact Pattern.NoneIn.append (noneIn_quoted hn ha a.quote_ok)
        (Pattern.NoneIn.of_not_mem hquote)
  have hbefore : Pattern.NoneIn (attributePattern n) (a.name ++ a.beforeEquals)
      ('=' :: (a.afterEquals ++ ([a.quote] ++ (a.value ++ [a.quote]))) ++ v) := by
    apply Pattern.NoneIn.append
    · exact Pattern.NoneIn.of_not_mem (a.name_ok.not_mem (by decide))
    · exact noneIn_blank hn a.beforeEquals_blank (Text.head_cons rfl)
  have hequals : Pattern.NoneIn (attributePattern n) ['=']
      (a.afterEquals ++ ([a.quote] ++ (a.value ++ [a.quote])) ++ v) :=
    Pattern.NoneIn.of_not_mem (by decide)
  exact Pattern.NoneIn.append hbefore (Pattern.NoneIn.append hequals hafter)

/-- Behind a blank an attribute is what the scanner asks for if it has the name and stands in double
quotes. -/
theorem opens_attribute (a : Attribute) (s : Text) (hquote : a.quote = '"') :
    Opens a.name a.value (' ' :: (a.text ++ s)) := by
  refine ⟨a.beforeEquals, a.afterEquals, s, ?_, ?_, ?_, ?_⟩
  · exact fun c hc => blank_space (a.beforeEquals_blank c hc)
  · exact fun c hc => blank_space (a.afterEquals_blank c hc)
  · exact fun h => (a.value_ok _ h).1 hquote.symm
  · rw [Attribute.text, hquote]
    simp

/-- There is one way to read an attribute in double quotes at the start of a text. -/
theorem attribute_unique (hn : IsName n) {a : Attribute} {s before after v rest : Text}
    (hbefore : ∀ c ∈ before, Pattern.isSpace c = true)
    (hafter : ∀ c ∈ after, Pattern.isSpace c = true) (hv : '"' ∉ v)
    (heq : a.text ++ s = n ++ (before ++ '=' :: (after ++ '"' :: (v ++ '"' :: rest)))) :
    a.name = n ∧ a.quote = '"' ∧ a.value = v ∧ s = rest := by
  have hq : Pattern.isSpace a.quote = false := by
    rcases a.quote_ok with h | h <;> rw [h] <;> decide
  have hequals : (a.name ++ a.beforeEquals) ++ '=' :: (a.afterEquals ++ a.quote ::
      (a.value ++ a.quote :: s)) =
        (n ++ before) ++ '=' :: (after ++ '"' :: (v ++ '"' :: rest)) := by
    simp only [Attribute.text, List.append_assoc, List.cons_append, List.nil_append] at heq ⊢
    exact heq
  have hfree : ∀ {name blanks : Text}, IsName name → (∀ c ∈ blanks, Pattern.isSpace c = true) →
      ∀ c ∈ name ++ blanks, (c != '=') = true := by
    intro name blanks hname hblanks c hc
    rw [bne_iff_ne]
    rintro rfl
    rcases List.mem_append.mp hc with hc | hc
    · exact hname.not_mem (by decide) hc
    · exact absurd (hblanks '=' hc) (by decide)
  obtain ⟨hnames, -, hvalues⟩ := Pattern.run_unique (p := fun c => c != '=')
    (hfree a.name_ok fun c hc => blank_space (a.beforeEquals_blank c hc)) (hfree hn hbefore)
    (by decide) (by decide) hequals
  obtain ⟨-, hquote, hopened⟩ := Pattern.run_unique
    (fun c hc => blank_space (a.afterEquals_blank c hc)) hafter hq (by decide) hvalues
  have hname : a.name = n := by
    -- a name ends where the white space in front of the `=` begins
    have hcut := congrArg (List.takeWhile fun c => !isDelimiter c) hnames
    rw [Pattern.takeWhile_run, Pattern.takeWhile_run] at hcut
    · exact hcut
    · exact fun c hc => by simp [hn.2 c hc]
    · intro c w h
      simp [space_delimiter (hbefore c (by rw [h]; simp))]
    · exact fun c hc => by simp [a.name_ok.2 c hc]
    · intro c w h
      simp [Markup.isDelimiter_of_isSpace (a.beforeEquals_blank c (by rw [h]; simp))]
  have hvalue : '"' ∉ a.value := fun h => (a.value_ok _ h).1 hquote.symm
  rw [hquote] at hopened
  obtain ⟨hsame, -, hrest⟩ := Pattern.run_unique (notQuote_iff.mpr hvalue) (notQuote_iff.mpr hv)
    (by decide) (by decide) hopened
  exact ⟨hname, hquote, hsame, hrest⟩

theorem attribute_of_opens (hn : IsName n) {a : Attribute} {s v : Text}
    (h : Opens n v (' ' :: (a.text ++ s))) : a.name = n ∧ a.quote = '"' := by
  obtain ⟨before, after, rest, hbefore, hafter, hv, heq⟩ := h
  obtain ⟨hname, hquote, -⟩ := attribute_unique hn hbefore hafter hv (List.cons.inj heq).2
  exact ⟨hname, hquote⟩

theorem valueFor_cons (a : Attribute) (as : List Attribute) :
    valueFor n (a :: as) = if a.name = n ∧ a.quote = '"' then some a.value else valueFor n as := by
  rw [valueFor, List.find?_cons]
  by_cases h : a.name = n ∧ a.quote = '"'
  · rw [if_pos h, h.1, h.2]
    simp
  · rw [if_neg h]
    have hother : (a.name == n && a.quote == '"') = false := by
      rw [Bool.and_eq_false_iff, beq_eq_false_iff_ne, beq_eq_false_iff_ne]
      exact not_and_or.mp h
    rw [hother]
    rfl

/-- The attributes are gone through in their order. -/
theorem first_spaced (hn : IsName n) {as : List Attribute} {s : Text} (hs : Spaced as s)
    (has : ∀ a ∈ as, '=' ∉ a.value) (v : Text) :
    (attributePattern n).first (s ++ v) = (valueFor n as).or ((attributePattern n).first v) := by
  induction hs with
  | nil => rfl
  | cons a hgap rest ih =>
    rename_i gap s as
    have hskip : Pattern.NoneIn (attributePattern n) gap (' ' :: (a.text ++ (s ++ v))) :=
      noneIn_blank hn hgap (Text.head_cons rfl)
    have hcut : gap ++ ' ' :: (a.text ++ s) ++ v = gap ++ ' ' :: (a.text ++ (s ++ v)) := by
      simp only [List.append_assoc, List.cons_append]
    rw [hcut, Pattern.first_skip hskip, valueFor_cons]
    by_cases h : a.name = n ∧ a.quote = '"'
    · obtain ⟨rest', hmatch⟩ := matchHere_opens (h.1 ▸ opens_attribute a (s ++ v) h.2)
      rw [if_pos h, Pattern.first, Pattern.captures, Pattern.search_here hmatch]
      rfl
    · have hhere : Pattern.NoneIn (attributePattern n) [' '] (a.text ++ (s ++ v)) := by
        apply Pattern.NoneIn.cons
        · apply matchHere_attribute_none.mpr
          intro value hopens
          exact h (attribute_of_opens hn hopens)
        · exact Pattern.NoneIn.nil _ _
      have hattribute := noneIn_attribute hn a (has a List.mem_cons_self) (s ++ v)
      have hboth : Pattern.NoneIn (attributePattern n) (' ' :: a.text) (s ++ v) :=
        Pattern.NoneIn.append hhere hattribute
      rw [if_neg h, ← List.cons_append, Pattern.first_skip hboth]
      exact ih fun b hb => has b (List.mem_cons_of_mem a hb)

/-- **A value that is asked for is the one that the tag has.** -/
theorem first_tagLine (h : TagLine tag l) (htakes : TakesAttributes tag) (hun : Unambiguous tag)
    (hn : IsName n) : (attributePattern n).first l = valueFor n tag.attributes := by
  cases h with
  | mk hbefore hs hgap hafter hspaced hbare =>
    rename_i before s gap after
    have hlead : Pattern.NoneIn (attributePattern n) before ('<' :: (tag.name ++ (s ++ (gap ++
        (tag.close ++ after))))) := noneIn_blank hn hbefore (Text.head_cons rfl)
    have hname : Pattern.NoneIn (attributePattern n) ('<' :: tag.name) (s ++ (gap ++
        (tag.close ++ after))) := by
      apply Pattern.NoneIn.of_not_mem
      rw [List.mem_cons, not_or]
      exact ⟨by decide, tag.name_ok.not_mem (by decide)⟩
    have hend : (attributePattern n).first (gap ++ (tag.close ++ after)) = none := by
      have hblank : Pattern.NoneIn (attributePattern n) gap (tag.close ++ (after ++ [])) := by
        apply noneIn_blank hn hgap
        intro c w h
        rcases tag.close_cases with hc | hc <;> rw [hc] at h <;> cases h <;> decide
      have hclose : Pattern.NoneIn (attributePattern n) tag.close (after ++ []) :=
        Pattern.NoneIn.of_not_mem (tag.close_not_mem (by decide) (by decide))
      have htail : Pattern.NoneIn (attributePattern n) after [] :=
        noneIn_blank hn hafter nofun
      rw [Pattern.first_skip ((List.append_nil after) ▸ hblank),
        Pattern.first_skip ((List.append_nil after) ▸ hclose), Pattern.first, Pattern.captures,
        Pattern.search_none htail rfl]
      rfl
    rw [Pattern.first_skip hlead, ← List.cons_append, Pattern.first_skip hname,
      first_spaced hn (hspaced htakes) (hun htakes), hend, Option.or_none]

/-! ## The property -/

/-- The attribute has this name and stands in double quotes. -/
def Named (name : Text) (a : Attribute) : Prop := a.name = name ∧ a.quote = '"'

/-- At the start of an attribute a pattern matches that asks for its name and its value. -/
theorem matchHere_named {P : Pattern} (hn : IsName n) (a : Attribute) (s : Text)
    {r : List Text × Text} :
    Pattern.matchHere (Pattern.lit n ++ (valuePattern ++ P)) (a.text ++ s) = some r ↔
      Named n a ∧ ∃ m, Pattern.matchHere P s = some m ∧ r = (a.value :: m.1, m.2) := by
  constructor
  · intro h
    obtain ⟨t, ht, hvalue⟩ := Pattern.matchHere_lit_iff.mp h
    obtain ⟨b, c, v, rest, m, hb, hc, hv, rfl, hrest, rfl⟩ := matchHere_value_iff.mp hvalue
    obtain ⟨hname, hquote, rfl, rfl⟩ := attribute_unique hn hb hc hv ht
    exact ⟨⟨hname, hquote⟩, m, hrest, rfl⟩
  · rintro ⟨⟨rfl, hquote⟩, m, hm, rfl⟩
    refine Pattern.matchHere_lit_iff.mpr ⟨a.beforeEquals ++ '=' :: (a.afterEquals ++ '"' ::
      (a.value ++ '"' :: s)), ?_, ?_⟩
    · rw [Attribute.text, hquote]
      simp
    · refine matchHere_value_iff.mpr ⟨a.beforeEquals, a.afterEquals, a.value, s, m, ?_, ?_, ?_, rfl,
        hm, rfl⟩
      · exact fun c hc => blank_space (a.beforeEquals_blank c hc)
      · exact fun c hc => blank_space (a.afterEquals_blank c hc)
      · exact fun h => (a.value_ok _ h).1 hquote.symm

/-- The end of a tag, with white space around it. -/
structure TagEnd (s : Text) : Prop where
  cut : ∃ gap d rest, s = gap ++ d :: rest ∧ Blank gap ∧ (d = '/' ∨ d = '>')

theorem tagEnd (tag : Tag) {gap : Text} (after : Text) (hgap : Blank gap) :
    TagEnd (gap ++ (tag.close ++ after)) := by
  constructor
  rcases tag.close_cases with h | h <;> rw [h]
  · exact ⟨gap, '/', '>' :: after, rfl, hgap, Or.inl rfl⟩
  · exact ⟨gap, '>', after, rfl, hgap, Or.inr rfl⟩

/-- What comes first, behind the white space, is neither in a name nor an `=`. -/
theorem TagEnd.uncons {e : Text} (he : TagEnd e) : ∃ gap d rest, e = gap ++ d :: rest ∧
    Blank gap ∧ isDelimiter d = true ∧ Pattern.isSpace d = false ∧ d ≠ '=' := by
  obtain ⟨gap, d, rest, rfl, hgap, rfl | rfl⟩ := he
  · exact ⟨gap, '/', rest, rfl, hgap, rfl, rfl, by decide⟩
  · exact ⟨gap, '>', rest, rfl, hgap, rfl, rfl, by decide⟩

/-- White space in front of a name is passed over. -/
theorem matchHere_gap {P : Pattern} (hn : IsName n) {gap s : Text} (hgap : Blank gap)
    (hs : ∀ c w, s = c :: w → Pattern.isSpace c = false) :
    Pattern.matchHere (.run Pattern.isSpace :: (Pattern.lit n ++ P)) (gap ++ s) =
      Pattern.matchHere (Pattern.lit n ++ P) s := by
  obtain ⟨c, n, rfl, hc⟩ := hn.uncons
  rw [Pattern.matchHere_run (Pattern.stops_lit (not_space hc)),
    Pattern.dropWhile_run (fun c hc => blank_space (hgap c hc)) hs]

theorem attribute_head (a : Attribute) (s : Text) :
    ∀ c w, a.text ++ s = c :: w → Pattern.isSpace c = false := by
  obtain ⟨d, name, hname, hd⟩ := a.name_ok.uncons
  rw [Attribute.text, hname]
  exact Text.head_cons (not_space hd)

/-- Where there is an attribute, the pattern is at its start behind the white space. -/
theorem matchHere_uncons (hn : IsName n) {a : Attribute} {as : List Attribute} {s : Text}
    (hs : AttributesText (a :: as) s) : ∃ s', AttributesText as s' ∧ ∀ (P : Pattern) (e : Text),
      Pattern.matchHere (.run Pattern.isSpace :: (Pattern.lit n ++ P)) (s ++ e) =
        Pattern.matchHere (Pattern.lit n ++ P) (a.text ++ (s' ++ e)) := by
  cases hs with
  | cons a hne hblank rest =>
    rename_i gap s
    refine ⟨s, rest, fun P e => ?_⟩
    rw [List.append_assoc, List.append_assoc]
    exact matchHere_gap hn hblank (attribute_head a (s ++ e))

/-- Where there is none, nothing that begins with a name matches. -/
theorem matchHere_tagEnd {P : Pattern} (hn : IsName n) {e : Text} (he : TagEnd e) :
    Pattern.matchHere (.run Pattern.isSpace :: (Pattern.lit n ++ P)) e = none := by
  obtain ⟨gap, d, rest, rfl, hgap, hdelimiter, hspace, -⟩ := he.uncons
  rw [matchHere_gap hn hgap (Text.head_cons hspace)]
  apply Pattern.matchHere_lit_none
  intro hstarts
  obtain ⟨c, n, rfl, hc⟩ := hn.uncons
  rw [List.cons_prefix_cons] at hstarts
  rw [hstarts.1, hdelimiter] at hc
  cases hc

/-- A pattern that asks for an attribute next finds it if it is the next one of the tag. -/
theorem matchHere_next {P : Pattern} (hn : IsName n) {as : List Attribute} {s e : Text}
    (hs : AttributesText as s) (he : TagEnd e) {r : List Text × Text}
    (h : Pattern.matchHere (.run Pattern.isSpace :: (Pattern.lit n ++ (valuePattern ++ P)))
      (s ++ e) = some r) :
    ∃ a as' s' m, as = a :: as' ∧ AttributesText as' s' ∧ Named n a ∧
      Pattern.matchHere P (s' ++ e) = some m ∧ r = (a.value :: m.1, m.2) := by
  cases as with
  | nil =>
    obtain rfl := hs.eq_nil
    rw [List.nil_append, matchHere_tagEnd hn he] at h
    cases h
  | cons a as =>
    obtain ⟨s', hs', hsame⟩ := matchHere_uncons hn hs
    rw [hsame] at h
    obtain ⟨hnamed, m, hm, rfl⟩ := (matchHere_named hn a (s' ++ e)).mp h
    exact ⟨a, as, s', m, rfl, hs', hnamed, hm, rfl⟩

theorem next_matchHere {P : Pattern} (hn : IsName n) {a : Attribute} {as : List Attribute}
    {s e : Text} (hs : AttributesText (a :: as) s) (ha : Named n a) :
    ∃ s', AttributesText as s' ∧ ∀ m, Pattern.matchHere P (s' ++ e) = some m →
      Pattern.matchHere (.run Pattern.isSpace :: (Pattern.lit n ++ (valuePattern ++ P))) (s ++ e) =
        some (a.value :: m.1, m.2) := by
  obtain ⟨s', hs', hsame⟩ := matchHere_uncons hn hs
  refine ⟨s', hs', fun m hm => ?_⟩
  rw [hsame]
  exact (matchHere_named hn a (s' ++ e)).mpr ⟨ha, m, hm, rfl⟩

theorem delimiter_next {as : List Attribute} {s e : Text} (hs : AttributesText as s)
    (he : TagEnd e) : ∃ d rest, s ++ e = d :: rest ∧ isDelimiter d = true := by
  cases hs with
  | nil =>
    obtain ⟨gap, d, rest, rfl, hgap, hdelimiter, -⟩ := he.uncons
    cases gap with
    | nil => exact ⟨d, rest, rfl, hdelimiter⟩
    | cons c gap =>
      exact ⟨c, _, rfl, Markup.isDelimiter_of_isSpace (hgap c List.mem_cons_self)⟩
  | cons a hne hblank rest =>
    rename_i gap u as
    obtain ⟨c, gap, rfl⟩ := List.exists_cons_of_ne_nil hne
    exact ⟨c, _, rfl, Markup.isDelimiter_of_isSpace (hblank c List.mem_cons_self)⟩

/-- A name is not followed by an `=`. -/
theorem no_equals_next {as : List Attribute} {s e more before x : Text}
    (hs : AttributesText as s) (he : TagEnd e) (hmore : ∀ c ∈ more, isDelimiter c = false)
    (hbefore : ∀ c ∈ before, Pattern.isSpace c = true) :
    more ++ (s ++ e) ≠ before ++ '=' :: x := by
  intro heq
  have hequals : Pattern.isSpace '=' = false := by decide
  cases more with
  | cons c more =>
    have hc := hmore c List.mem_cons_self
    cases before with
    | nil =>
      obtain ⟨rfl, -⟩ := List.cons.inj heq
      exact absurd hc (by decide)
    | cons d before =>
      obtain ⟨rfl, -⟩ := List.cons.inj heq
      rw [space_delimiter (hbefore c List.mem_cons_self)] at hc
      cases hc
  | nil =>
    cases hs with
    | nil =>
      obtain ⟨gap, d, rest, rfl, hgap, -, hspace, hd⟩ := he.uncons
      obtain ⟨-, rfl, -⟩ := Pattern.run_unique (fun c hc => blank_space (hgap c hc)) hbefore
        hspace hequals heq
      exact hd rfl
    | cons a hne hblank rest =>
      rename_i gap u as
      obtain ⟨c, name, hc, hdelimiter⟩ := a.name_ok.uncons
      have hcut : gap ++ c :: (name ++ a.beforeEquals ++ '=' :: (a.afterEquals ++ a.quote ::
          (a.value ++ [a.quote])) ++ u ++ e) = before ++ '=' :: x := by
        rw [← heq, Attribute.text, hc]
        simp
      obtain ⟨-, rfl, -⟩ := Pattern.run_unique (fun c hc => blank_space (hblank c hc)) hbefore
        (not_space hdelimiter) hequals hcut
      exact absurd hdelimiter (by decide)

/-- The tag is a property with this name, this value and this label, in the order that the scanner
wants. -/
def IsProperty (tag : Tag) (name value label : Text) : Prop :=
  tag.name = "property".toList ∧ ∃ a b c rest, tag.attributes = a :: b :: c :: rest ∧
    Named "name".toList a ∧ Named "value".toList b ∧ Named "label".toList c ∧
    name = a.value ∧ value = b.value ∧ label = c.value

theorem propertyPattern_eq : propertyPattern = Pattern.lit "<property".toList ++
    .run Pattern.isSpace :: (Pattern.lit "name".toList ++ (valuePattern ++
      .run Pattern.isSpace :: (Pattern.lit "value".toList ++ (valuePattern ++
        .run Pattern.isSpace :: (Pattern.lit "label".toList ++ (valuePattern ++ [])))))) := by
  rw [List.append_nil]
  rfl

theorem isName_name : IsName "name".toList := by decide
theorem isName_value : IsName "value".toList := by decide
theorem isName_label : IsName "label".toList := by decide

theorem isProperty_of_match {s e : Text} (hs : AttributesText tag.attributes s) (he : TagEnd e)
    {r : List Text × Text}
    (h : Pattern.matchHere propertyPattern ('<' :: (tag.name ++ (s ++ e))) = some r) :
    ∃ name value label, r.1 = [name, value, label] ∧ IsProperty tag name value label := by
  rw [propertyPattern_eq] at h
  obtain ⟨t, ht, hrest⟩ := Pattern.matchHere_lit_iff.mp h
  obtain ⟨d, rest, hd, hdelimiter⟩ := delimiter_next hs he
  have hopening : tag.name ++ d :: rest = "property".toList ++ t := by
    rw [← hd]
    exact (List.cons.inj ht).2
  obtain ⟨more, hmore⟩ := (Markup.prefix_name_iff (Text.forall_of_all (by decide)) hdelimiter).mp
    ⟨t, hopening.symm⟩
  have htail : t = more ++ (s ++ e) := by
    rw [← hmore, ← hd, List.append_assoc] at hopening
    exact (List.append_cancel_left hopening).symm
  have hnondelimiter : ∀ c ∈ more, isDelimiter c = false := fun c hc =>
    tag.name_ok.2 c (hmore ▸ List.mem_append_right _ hc)
  subst htail
  cases more with
  | nil =>
    obtain ⟨a, as, s₁, m₁, has, hs₁, ha, hm₁, rfl⟩ := matchHere_next isName_name hs he hrest
    obtain ⟨b, as₂, s₂, m₂, rfl, hs₂, hb, hm₂, rfl⟩ := matchHere_next isName_value hs₁ he hm₁
    obtain ⟨c, as₃, s₃, m₃, rfl, -, hc, hm₃, rfl⟩ := matchHere_next isName_label hs₂ he hm₂
    cases hm₃
    rw [List.append_nil] at hmore
    exact ⟨a.value, b.value, c.value, rfl, hmore.symm, a, b, c, as₃, has, ha, hb, hc, rfl, rfl, rfl⟩
  | cons c more =>
    -- a longer name would have to go on with `name=`
    have hhead : ∀ x w, c :: (more ++ (s ++ e)) = x :: w → Pattern.isSpace x = false := by
      intro x w heq
      obtain ⟨rfl, -⟩ := List.cons.inj heq
      exact not_space (hnondelimiter c List.mem_cons_self)
    have hgap := matchHere_gap (P := valuePattern ++ .run Pattern.isSpace ::
      (Pattern.lit "value".toList ++ (valuePattern ++ .run Pattern.isSpace ::
        (Pattern.lit "label".toList ++ (valuePattern ++ []))))) isName_name Markup.blank_nil hhead
    rw [List.nil_append] at hgap
    obtain ⟨t, ht', hvalue⟩ := Pattern.matchHere_lit_iff.mp (hgap.symm.trans hrest)
    obtain ⟨b, x, v, y, m, hb, -, -, rfl, -⟩ := matchHere_value_iff.mp hvalue
    have hlonger : (c :: more) ++ d :: rest =
        "name".toList ++ (b ++ '=' :: (x ++ '"' :: (v ++ '"' :: y))) := by
      rw [← hd]
      exact ht'
    obtain ⟨more₂, hmore₂⟩ :=
      (Markup.prefix_name_iff (Text.forall_of_all (by decide)) hdelimiter).mp ⟨_, hlonger.symm⟩
    have hcut : more₂ ++ (s ++ e) = b ++ '=' :: (x ++ '"' :: (v ++ '"' :: y)) := by
      rw [← hmore₂, ← hd, List.append_assoc] at hlonger
      exact List.append_cancel_left hlonger
    refine absurd hcut (no_equals_next hs he ?_ hb)
    exact fun c hc => hnondelimiter c (hmore₂ ▸ List.mem_append_right _ hc)

theorem match_of_isProperty {s e name value label : Text} (hs : AttributesText tag.attributes s)
    (h : IsProperty tag name value label) : ∃ r : List Text × Text, r.1 = [name, value, label] ∧
      Pattern.matchHere propertyPattern ('<' :: (tag.name ++ (s ++ e))) = some r := by
  obtain ⟨hname, a, b, c, rest, has, ha, hb, hc, rfl, rfl, rfl⟩ := h
  rw [has] at hs
  obtain ⟨s₁, hs₁, hnext₁⟩ := next_matchHere isName_name hs ha
  obtain ⟨s₂, hs₂, hnext₂⟩ := next_matchHere isName_value hs₁ hb
  obtain ⟨s₃, hs₃, hnext₃⟩ := next_matchHere (P := []) (e := e) isName_label hs₂ hc
  have hmatch := hnext₁ _ (hnext₂ _ (hnext₃ ([], s₃ ++ e) rfl))
  refine ⟨([a.value, b.value, c.value], s₃ ++ e), rfl, ?_⟩
  rw [propertyPattern_eq, hname]
  exact Pattern.matchHere_lit_iff.mpr ⟨s ++ e, rfl, hmatch⟩

/-- A pattern that begins with the `<` of the tag matches there or not at all. -/
theorem search_tagLine {w before body : Text} {P : Pattern} (hbefore : '<' ∉ before)
    (hbody : '<' ∉ body) : (Pattern.lit ('<' :: w) ++ P).captures (before ++ '<' :: body) =
      (Pattern.matchHere (Pattern.lit ('<' :: w) ++ P) ('<' :: body)).map Prod.fst := by
  rw [Pattern.captures_skip (Pattern.NoneIn.of_not_mem hbefore), Pattern.captures]
  cases hm : Pattern.matchHere (Pattern.lit ('<' :: w) ++ P) ('<' :: body) with
  | some r =>
    rw [Pattern.search_here hm]
    rfl
  | none =>
    have hnone : Pattern.search (Pattern.lit ('<' :: w) ++ P) ('<' :: body) = none := by
      apply Pattern.search_none
      · apply Pattern.NoneIn.cons
        · rw [List.append_nil]
          exact hm
        · exact Pattern.NoneIn.of_not_mem hbody
      · exact Pattern.matchHere_lit_none P fun h =>
          absurd (List.prefix_nil.mp h) (List.cons_ne_nil _ _)
    rw [hnone]
    rfl

/-- **The property on the line is that of the tag.** -/
theorem property_tagLine (h : TagLine tag l) {name value : Text} :
    property l = some (name, value) ↔
      ∃ written label, IsProperty tag written value label ∧ name = Text.lower written := by
  cases h with
  | mk hbefore hs hgap hafter hspaced hbare =>
    rename_i before s gap after
    have he : TagEnd (gap ++ (tag.close ++ after)) := tagEnd tag after hgap
    have hcaptures : propertyPattern.captures
        (before ++ '<' :: (tag.name ++ (s ++ (gap ++ (tag.close ++ after))))) =
          (Pattern.matchHere propertyPattern
            ('<' :: (tag.name ++ (s ++ (gap ++ (tag.close ++ after)))))).map Prod.fst :=
      search_tagLine (hbefore.not_mem (by decide)) (tag.not_mem_body hs hgap hafter)
    rw [property, hcaptures]
    constructor
    · intro h
      cases hm : Pattern.matchHere propertyPattern
          ('<' :: (tag.name ++ (s ++ (gap ++ (tag.close ++ after))))) with
      | none =>
        rw [hm] at h
        cases h
      | some r =>
        obtain ⟨written, v, label, hr, hproperty⟩ := isProperty_of_match hs he hm
        rw [hm, Option.map_some, hr] at h
        cases h
        exact ⟨written, label, hproperty, rfl⟩
    · rintro ⟨written, label, hproperty, rfl⟩
      obtain ⟨r, hr, hm⟩ := match_of_isProperty (e := gap ++ (tag.close ++ after)) hs hproperty
      rw [hm, Option.map_some, hr]

end Package
end TdsAdmin
