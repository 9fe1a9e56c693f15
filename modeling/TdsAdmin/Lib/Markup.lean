import TdsAdmin.Lib.Text

/-!
# Tags and their layouts

XML as far as white space goes: a tag is a name with attributes in order, and `TagText` relates
it to every text that spells it, however the attributes are spaced. `Layout` does the same for
a whole document. Two documents that lay out the same items differ in white space only.

White space is allowed where XML allows it and nobody reads it: between the items, in front of
an attribute and before the closing bracket. What surrounds an `=` belongs to the attribute.
-/

set_option autoImplicit false

namespace TdsAdmin
namespace Markup

/-- The white space of XML. -/
def isSpace (c : Char) : Bool := c == ' ' || c == '\t' || c == '\n' || c == '\r'

/-- White space, possibly none. -/
def Blank (s : Text) : Prop := ∀ c ∈ s, isSpace c = true

/-- Characters that are in no name. The two control characters are white space for Perl. -/
def isDelimiter (c : Char) : Bool :=
  isSpace c || c == '\x0b' || c == '\x0c' || c == '<' || c == '>' || c == '=' || c == '"' ||
    c == '\'' || c == '/'

def IsName (s : Text) : Prop := s ≠ [] ∧ ∀ c ∈ s, isDelimiter c = false

instance (s : Text) : Decidable (Blank s) := List.decidableBAll _ s

instance (s : Text) : Decidable (IsName s) :=
  @instDecidableAnd _ _ _ (List.decidableBAll _ s)

/-- An attribute as it is written, with the blanks around its `=`. -/
structure Attribute where
  name : Text
  beforeEquals : Text
  afterEquals : Text
  quote : Char
  value : Text
  name_ok : IsName name
  beforeEquals_blank : Blank beforeEquals
  afterEquals_blank : Blank afterEquals
  quote_ok : quote = '"' ∨ quote = '\''
  value_ok : ∀ c ∈ value, c ≠ quote ∧ c ≠ '<'

def Attribute.text (a : Attribute) : Text :=
  a.name ++ a.beforeEquals ++ '=' :: (a.afterEquals ++ a.quote :: (a.value ++ [a.quote]))

structure Tag where
  name : Text
  attributes : List Attribute
  selfClosing : Bool
  name_ok : IsName name

def Tag.close (t : Tag) : Text := if t.selfClosing then ['/', '>'] else ['>']

/-- The attributes, with white space in front of each. -/
inductive AttributesText : List Attribute → Text → Prop where
  | nil : AttributesText [] []
  | cons {gap s : Text} {as : List Attribute} (a : Attribute) (hgap : gap ≠ [])
      (hblank : Blank gap) (rest : AttributesText as s) :
      AttributesText (a :: as) (gap ++ a.text ++ s)

/-- The text spells the tag. -/
inductive TagText (t : Tag) : Text → Prop where
  | mk {s gap : Text} (attributes : AttributesText t.attributes s) (hblank : Blank gap) :
      TagText t ('<' :: (t.name ++ s ++ gap ++ t.close))

/-! ## Characters of a tag -/

theorem isDelimiter_of_isSpace {c : Char} (h : isSpace c = true) : isDelimiter c = true := by
  simp [isDelimiter, h]

theorem Blank.not_mem {s : Text} {c : Char} (h : Blank s) (hc : isSpace c = false) : c ∉ s := by
  intro hmem
  rw [h c hmem] at hc
  cases hc

theorem IsName.not_mem {s : Text} {c : Char} (h : IsName s) (hc : isDelimiter c = true) :
    c ∉ s := by
  intro hmem
  rw [h.2 c hmem] at hc
  cases hc

theorem IsName.uncons {s : Text} (h : IsName s) : ∃ c w, s = c :: w ∧ isDelimiter c = false := by
  obtain ⟨c, w, rfl⟩ := List.exists_cons_of_ne_nil h.1
  exact ⟨c, w, rfl, h.2 c List.mem_cons_self⟩

/-- White space in front of a delimiter starts with a delimiter. -/
theorem Blank.head_delimiter {u v : Text} (hu : Blank u)
    (hv : ∀ c w, v = c :: w → isDelimiter c = true) :
    ∀ c w, u ++ v = c :: w → isDelimiter c = true := by
  cases u with
  | nil => exact hv
  | cons d u => exact Text.head_cons (isDelimiter_of_isSpace (hu d List.mem_cons_self))

theorem Attribute.quote_delimiter (a : Attribute) : isDelimiter a.quote = true := by
  rcases a.quote_ok with h | h <;> rw [h] <;> rfl

theorem Tag.close_cases (tag : Tag) : tag.close = ['/', '>'] ∨ tag.close = ['>'] := by
  rw [Tag.close]
  cases tag.selfClosing with
  | true => exact Or.inl rfl
  | false => exact Or.inr rfl

theorem Tag.close_not_mem (tag : Tag) {c : Char} (hslash : c ≠ '/') (hangle : c ≠ '>') :
    c ∉ tag.close := by
  rcases tag.close_cases with h | h <;> rw [h] <;> simp [hslash, hangle]

/-- There is no `<` in an attribute. -/
theorem Attribute.not_mem_text (a : Attribute) : '<' ∉ a.text := by
  have hvalue : '<' ∉ a.value := fun h => (a.value_ok _ h).2 rfl
  have hquote : '<' ≠ a.quote := by
    rcases a.quote_ok with h | h <;> rw [h] <;> decide
  simp only [Attribute.text, List.mem_append, List.mem_cons, List.not_mem_nil, or_false, not_or]
  exact ⟨⟨a.name_ok.not_mem (by decide), a.beforeEquals_blank.not_mem (by decide)⟩,
    by decide, a.afterEquals_blank.not_mem (by decide), hquote, hvalue, hquote⟩

theorem AttributesText.not_mem {as : List Attribute} {s : Text} (h : AttributesText as s) :
    '<' ∉ s := by
  induction h with
  | nil => exact List.not_mem_nil
  | cons a hgap hblank rest ih =>
    simp only [List.mem_append, not_or]
    exact ⟨⟨hblank.not_mem (by decide), a.not_mem_text⟩, ih⟩

/-- There is no further `<` in a tag. -/
theorem Tag.not_mem_body (tag : Tag) {s gap after : Text} (hs : AttributesText tag.attributes s)
    (hgap : Blank gap) (hafter : Blank after) :
    '<' ∉ tag.name ++ (s ++ (gap ++ (tag.close ++ after))) := by
  simp only [List.mem_append, not_or]
  exact ⟨tag.name_ok.not_mem (by decide), hs.not_mem, hgap.not_mem (by decide),
    tag.close_not_mem (by decide) (by decide), hafter.not_mem (by decide)⟩

/-- A word without delimiters at the start of a tag is in its name. -/
theorem prefix_name_iff {w name rest : Text} {d : Char} (hw : ∀ c ∈ w, isDelimiter c = false)
    (hd : isDelimiter d = true) : w <+: name ++ d :: rest ↔ w <+: name := by
  constructor
  · intro h
    rcases List.prefix_or_prefix_of_prefix h (List.prefix_append name (d :: rest)) with h' | h'
    · exact h'
    · obtain ⟨x, rfl⟩ := h'
      cases x with
      | nil => rw [List.append_nil]
      | cons e x =>
        rw [List.prefix_append_right_inj, List.cons_prefix_cons] at h
        have hword := hw e (List.mem_append_right name List.mem_cons_self)
        rw [h.1, hd] at hword
        cases hword
  · intro h
    exact h.trans (List.prefix_append name _)

/-- White space, or the end of the tag. -/
theorem Tag.close_delimiter (tag : Tag) {gap : Text} (after : Text) (hgap : Blank gap) :
    ∃ d rest, gap ++ (tag.close ++ after) = d :: rest ∧ isDelimiter d = true := by
  cases gap with
  | nil =>
    rcases tag.close_cases with h | h <;> rw [h]
    · exact ⟨'/', _, rfl, by decide⟩
    · exact ⟨'>', _, rfl, by decide⟩
  | cons d gap => exact ⟨d, _, rfl, isDelimiter_of_isSpace (hgap d List.mem_cons_self)⟩

/-- A name is followed by a delimiter. -/
theorem Tag.name_delimiter (tag : Tag) {as : List Attribute} {s gap : Text} (after : Text)
    (hs : AttributesText as s) (hgap : Blank gap) :
    ∃ d rest, s ++ (gap ++ (tag.close ++ after)) = d :: rest ∧ isDelimiter d = true := by
  cases hs with
  | nil => exact tag.close_delimiter after hgap
  | cons a hne hblank rest =>
    rename_i blanks u as
    cases blanks with
    | nil => exact absurd rfl hne
    | cons d blanks => exact ⟨d, _, rfl, isDelimiter_of_isSpace (hblank d List.mem_cons_self)⟩

theorem AttributesText.eq_nil {s : Text} (h : AttributesText [] s) : s = [] := by
  cases h
  rfl

/-- The tag ends right behind its name only if it has no attributes and nothing is in between. -/
theorem Tag.close_at_once (tag : Tag) {s gap after y : Text} (hs : AttributesText tag.attributes s)
    (hgap : Blank gap) (h : s ++ (gap ++ (tag.close ++ after)) = '>' :: y) :
    tag.attributes = [] ∧ tag.selfClosing = false := by
  have hgt : isSpace '>' = false := by decide
  generalize hattributes : tag.attributes = as at hs
  cases hs with
  | cons a hne hblank rest =>
    rename_i blanks u as
    cases blanks with
    | nil => exact absurd rfl hne
    | cons d blanks =>
      obtain ⟨rfl, -⟩ := List.cons.inj h
      rw [hblank '>' List.mem_cons_self] at hgt
      cases hgt
  | nil =>
    refine ⟨rfl, ?_⟩
    cases gap with
    | cons d gap =>
      obtain ⟨rfl, -⟩ := List.cons.inj h
      rw [hgap '>' List.mem_cons_self] at hgt
      cases hgt
    | nil =>
      cases hclosing : tag.selfClosing with
      | false => rfl
      | true =>
        rw [Tag.close, hclosing] at h
        cases h

/-! ## Documents -/

theorem Blank.append {u v : Text} (hu : Blank u) (hv : Blank v) : Blank (u ++ v) := by
  intro c hc
  rcases List.mem_append.mp hc with hc | hc
  · exact hu c hc
  · exact hv c hc

/-- Markup in which no white space may be changed, such as an end tag or a comment. -/
def IsFixed (s : Text) : Prop := ∃ body, s = '<' :: (body ++ ['>'])

/-- A tag, or markup that has to stand as it is. -/
inductive Item where
  | tag (t : Tag)
  | fixed (s : Text) (h : IsFixed s)

/-- The text is a layout of the items: they stand in order, with white space in between. -/
inductive Layout : List Item → Text → Prop where
  | nil {gap : Text} (hgap : Blank gap) : Layout [] gap
  | tag {t : Tag} {items : List Item} {gap s rest : Text} (hgap : Blank gap) (hs : TagText t s)
      (h : Layout items rest) : Layout (.tag t :: items) (gap ++ s ++ rest)
  | fixed {v : Text} {hv : IsFixed v} {items : List Item} {gap rest : Text} (hgap : Blank gap)
      (h : Layout items rest) : Layout (.fixed v hv :: items) (gap ++ v ++ rest)

/-- The two texts have the same tags, with the same attributes, in the same order: they are layouts
of the same items. -/
def SameItems (u v : Text) : Prop := ∃ items, Layout items u ∧ Layout items v

theorem blank_nil : Blank [] := nofun

theorem Layout.gap {items : List Item} {gap s : Text} (hgap : Blank gap) (h : Layout items s) :
    Layout items (gap ++ s) := by
  cases h with
  | nil hs => exact Layout.nil (hgap.append hs)
  | tag hs ht h =>
    rw [← List.append_assoc, ← List.append_assoc]
    exact Layout.tag (hgap.append hs) ht h
  | fixed hs h =>
    rw [← List.append_assoc, ← List.append_assoc]
    exact Layout.fixed (hgap.append hs) h

theorem Layout.append {items more : List Item} {u v : Text} (hu : Layout items u)
    (hv : Layout more v) : Layout (items ++ more) (u ++ v) := by
  induction hu with
  | nil hgap => exact hv.gap hgap
  | tag hgap hs _ ih =>
    rw [List.append_assoc]
    exact Layout.tag hgap hs ih
  | fixed hgap _ ih =>
    rw [List.append_assoc]
    exact Layout.fixed hgap ih

theorem SameItems.append {u v u' v' : Text} (h : SameItems u v) (h' : SameItems u' v') :
    SameItems (u ++ u') (v ++ v') := by
  obtain ⟨items, hu, hv⟩ := h
  obtain ⟨more, hu', hv'⟩ := h'
  exact ⟨items ++ more, hu.append hu', hv.append hv'⟩

/-- White space is a layout of nothing. -/
theorem sameItems_blank {u v : Text} (hu : Blank u) (hv : Blank v) : SameItems u v :=
  ⟨[], Layout.nil hu, Layout.nil hv⟩

/-! ## A word replaced in a tag

A word without delimiters stands in a name or a value, wherever the white space is, so the first one
of a tag is in the same place in every layout of it. -/

section Replace

variable {needle word : Text}

/-- Nothing but names and values can hold a name. -/
theorem not_mem_of_delimiters (hneedle : IsName needle) {u : Text}
    (hu : ∀ c ∈ u, isDelimiter c = true) : ∀ c ∈ u, c ∉ needle :=
  fun c hc => hneedle.not_mem (hu c hc)

theorem replaceFirst_delimiter (hneedle : IsName needle) {d : Char} (hd : isDelimiter d = true)
    (v : Text) :
    Text.replaceFirst needle word (d :: v) = d :: Text.replaceFirst needle word v := by
  apply Text.replaceFirst_skip (u := [d]) hneedle.1
  intro c hc
  rw [List.mem_singleton.mp hc]
  exact hneedle.not_mem hd

theorem Blank.skip (hneedle : IsName needle) {u : Text} (hu : Blank u) (v : Text) :
    Text.replaceFirst needle word (u ++ v) = u ++ Text.replaceFirst needle word v :=
  Text.replaceFirst_skip hneedle.1
    (not_mem_of_delimiters hneedle fun c hc => isDelimiter_of_isSpace (hu c hc))

theorem Blank.replaceFirst (hneedle : IsName needle) {u : Text} (hu : Blank u) :
    Text.replaceFirst needle word u = u := by
  have hskip : Text.replaceFirst needle word (u ++ []) = u ++ [] := hu.skip hneedle []
  rw [List.append_nil] at hskip
  exact hskip

/-- A name with a word replaced by another is a name. -/
theorem IsName.replaceFirst {name : Text} (hname : IsName name) (hword : IsName word) :
    IsName (Text.replaceFirst needle word name) := by
  refine ⟨Text.replaceFirst_ne_nil hword.1 hname.1, fun c hc => ?_⟩
  rcases Text.mem_replaceFirst hc with hc | hc
  · exact hword.2 c hc
  · exact hname.2 c hc

def Attribute.replaceName (a : Attribute) (needle word : Text) (hword : IsName word) :
    Attribute :=
  { a with
    name := Text.replaceFirst needle word a.name
    name_ok := a.name_ok.replaceFirst hword }

def Attribute.replaceValue (a : Attribute) (needle word : Text) (hword : IsName word) :
    Attribute :=
  { a with
    value := Text.replaceFirst needle word a.value
    value_ok := by
      intro c hc
      rcases Text.mem_replaceFirst hc with hc | hc
      · have hdelimiter := hword.2 c hc
        constructor
        · rintro rfl
          rcases a.quote_ok with h | h <;> rw [h] at hdelimiter <;> cases hdelimiter
        · rintro rfl
          cases hdelimiter
      · exact a.value_ok c hc }

/-- An attribute either holds the word, or is passed over. -/
theorem Attribute.replaceFirst (a : Attribute) (hneedle : IsName needle) (hword : IsName word) :
    (∃ a' : Attribute, ∀ v, Text.replaceFirst needle word (a.text ++ v) = a'.text ++ v) ∨
      ∀ v, Text.replaceFirst needle word (a.text ++ v) =
        a.text ++ Text.replaceFirst needle word v := by
  have hcut : ∀ v, a.text ++ v = a.name ++ (a.beforeEquals ++ '=' :: (a.afterEquals ++
      a.quote :: (a.value ++ a.quote :: v))) := by
    intro v
    simp [Attribute.text]
  have hquoted : ∀ v, Text.replaceFirst needle word (a.quote :: v) =
      a.quote :: Text.replaceFirst needle word v :=
    replaceFirst_delimiter hneedle a.quote_delimiter
  by_cases hname : needle <:+: a.name
  · left
    refine ⟨a.replaceName needle word hword, fun v => ?_⟩
    rw [hcut, Text.replaceFirst_found hneedle.1 hname]
    simp [Attribute.text, Attribute.replaceName]
  · have hpassed : ∀ v, Text.replaceFirst needle word (a.name ++ (a.beforeEquals ++ '=' :: v)) =
        a.name ++ (a.beforeEquals ++ '=' :: Text.replaceFirst needle word v) := by
      intro v
      rw [Text.replaceFirst_passed hname, a.beforeEquals_blank.skip hneedle,
        replaceFirst_delimiter hneedle rfl]
      intro c w h
      apply hneedle.not_mem
      exact a.beforeEquals_blank.head_delimiter (Text.head_cons rfl) c w h
    by_cases hvalue : needle <:+: a.value
    · left
      refine ⟨a.replaceValue needle word hword, fun v => ?_⟩
      rw [hcut, hpassed, a.afterEquals_blank.skip hneedle, hquoted,
        Text.replaceFirst_found hneedle.1 hvalue]
      simp [Attribute.text, Attribute.replaceValue]
    · right
      intro v
      rw [hcut, hpassed, a.afterEquals_blank.skip hneedle, hquoted,
        Text.replaceFirst_passed hvalue, hquoted, hcut]
      exact Text.head_cons (hneedle.not_mem a.quote_delimiter)

theorem replaceFirst_attributes (hneedle : IsName needle) (hword : IsName word)
    (as : List Attribute) :
    (∃ as', ∀ s, AttributesText as s → ∃ s', AttributesText as' s' ∧
        ∀ v, Text.replaceFirst needle word (s ++ v) = s' ++ v) ∨
      ∀ s, AttributesText as s → ∀ v,
        Text.replaceFirst needle word (s ++ v) = s ++ Text.replaceFirst needle word v := by
  induction as with
  | nil =>
    right
    intro s hs v
    obtain rfl := hs.eq_nil
    rfl
  | cons a as ih =>
    rcases a.replaceFirst hneedle hword with ⟨a', ha'⟩ | hpassed
    · left
      refine ⟨a' :: as, fun s hs => ?_⟩
      cases hs with
      | cons a hne hblank rest =>
        rename_i gap s
        refine ⟨_, AttributesText.cons a' hne hblank rest, fun v => ?_⟩
        rw [List.append_assoc, List.append_assoc, hblank.skip hneedle, ha']
        simp only [List.append_assoc]
    · rcases ih with ⟨as', hfound⟩ | hnone
      · left
        refine ⟨a :: as', fun s hs => ?_⟩
        cases hs with
        | cons a hne hblank rest =>
          rename_i gap s
          obtain ⟨s', hs', hsame⟩ := hfound s rest
          refine ⟨_, AttributesText.cons a hne hblank hs', fun v => ?_⟩
          rw [List.append_assoc, List.append_assoc, hblank.skip hneedle, hpassed, hsame]
          simp only [List.append_assoc]
      · right
        intro s hs v
        cases hs with
        | cons a hne hblank rest =>
          rename_i gap s
          rw [List.append_assoc, List.append_assoc, hblank.skip hneedle, hpassed, hnone s rest]
          simp only [List.append_assoc]

/-- The layouts of a tag in which a word is replaced are layouts of one tag. -/
theorem replaceFirst_tag (hneedle : IsName needle) (hword : IsName word) (tag : Tag) :
    ∃ tag', ∀ s, TagText tag s → ∃ s', TagText tag' s' ∧
      ∀ v, Blank v → Text.replaceFirst needle word (s ++ v) = s' ++ v := by
  have hopening : ∀ v, Text.replaceFirst needle word ('<' :: v) =
      '<' :: Text.replaceFirst needle word v := replaceFirst_delimiter hneedle rfl
  have hend : ∀ {gap v : Text}, Blank gap → Blank v →
      Text.replaceFirst needle word (gap ++ (tag.close ++ v)) = gap ++ (tag.close ++ v) := by
    intro gap v hgap hv
    have hclose : ∀ c ∈ tag.close, isDelimiter c = true := by
      rcases tag.close_cases with h | h <;> rw [h] <;> exact Text.forall_of_all rfl
    rw [hgap.skip hneedle, Text.replaceFirst_skip hneedle.1 (not_mem_of_delimiters hneedle hclose),
      hv.replaceFirst hneedle]
  by_cases hname : needle <:+: tag.name
  · refine ⟨{ tag with
      name := Text.replaceFirst needle word tag.name
      name_ok := tag.name_ok.replaceFirst hword }, fun s hs => ?_⟩
    cases hs with
    | mk hattributes hgap =>
      refine ⟨_, TagText.mk hattributes hgap, fun v hv => ?_⟩
      simp only [List.cons_append, List.append_assoc]
      rw [hopening, Text.replaceFirst_found hneedle.1 hname]
      rfl
  · have hpassed : ∀ {s gap v : Text}, AttributesText tag.attributes s → Blank gap →
        Text.replaceFirst needle word (tag.name ++ (s ++ (gap ++ (tag.close ++ v)))) =
          tag.name ++ Text.replaceFirst needle word (s ++ (gap ++ (tag.close ++ v))) := by
      intro s gap v hs hgap
      apply Text.replaceFirst_passed hname
      intro c w h
      obtain ⟨d, rest, hd, hdelimiter⟩ := tag.name_delimiter v hs hgap
      obtain ⟨rfl, -⟩ := List.cons.inj (hd.symm.trans h)
      exact hneedle.not_mem hdelimiter
    rcases replaceFirst_attributes hneedle hword tag.attributes with ⟨as', hfound⟩ | hnone
    · refine ⟨{ tag with attributes := as' }, fun s hs => ?_⟩
      cases hs with
      | mk hattributes hgap =>
        obtain ⟨s', hs', hsame⟩ := hfound _ hattributes
        refine ⟨_, TagText.mk (t := { tag with attributes := as' }) hs' hgap, fun v hv => ?_⟩
        simp only [List.cons_append, List.append_assoc]
        rw [hopening, hpassed hattributes hgap, hsame]
        rfl
    · refine ⟨tag, fun s hs => ?_⟩
      cases hs with
      | mk hattributes hgap =>
        refine ⟨_, TagText.mk hattributes hgap, fun v hv => ?_⟩
        simp only [List.cons_append, List.append_assoc]
        rw [hopening, hpassed hattributes hgap, hnone _ hattributes, hend hgap hv]

theorem replaceFirst_layout (hneedle : IsName needle) (hword : IsName word) (tag : Tag) :
    ∃ tag', ∀ l, Layout [.tag tag] l →
      Layout [.tag tag'] (Text.replaceFirst needle word l) := by
  obtain ⟨tag', htag'⟩ := replaceFirst_tag hneedle hword tag
  refine ⟨tag', fun l hl => ?_⟩
  cases hl with
  | tag hgap hs h =>
    cases h with
    | nil hafter =>
      obtain ⟨s', hs', hsame⟩ := htag' _ hs
      rw [List.append_assoc, hgap.skip hneedle, hsame _ hafter, ← List.append_assoc]
      exact Layout.tag hgap hs' (Layout.nil hafter)

end Replace

/-! ## Reading the attributes of a tag -/

/-- The first attribute of the text, with white space in front of it, and what follows it. -/
def readAttribute (s : Text) : Option ((Text × Text) × Text) :=
  let start := s.dropWhile isSpace
  let name := start.takeWhile fun c => !isDelimiter c
  if start.length < s.length ∧ name ≠ [] then
    match (start.drop name.length).dropWhile isSpace with
    | '=' :: afterEquals =>
        match afterEquals.dropWhile isSpace with
        | quote :: opened =>
            let value := opened.takeWhile (· ≠ quote)
            match opened.drop value.length with
            | _ :: rest =>
                if quote = '"' ∨ quote = '\'' then some ((name, value), rest) else none
            | [] => none
        | [] => none
    | _ => none
  else none

def readAttributesFuel : Nat → Text → List (Text × Text)
  | 0, _ => []
  | n + 1, s =>
      match readAttribute s with
      | some (found, rest) => found :: readAttributesFuel n rest
      | none => []

/-- The names and values of the attributes at the start of the text, as far as it is well formed;
each takes at least one character of it. -/
def readAttributes (s : Text) : List (Text × Text) := readAttributesFuel s.length s

end Markup
end TdsAdmin
