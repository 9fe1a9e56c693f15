import TdsAdmin.Lib.Markup
import TdsAdmin.Package.Scan

/-!
# The attributes that the scanner takes

On two lines the scanner asks for attributes one after another. A match that fails leaves `$1` as it
is, so an attribute that is not there gets the value of the one asked for before it
(`lastCapture_eq_some_iff`). And a match is looked for in the whole line, in one way of writing:
what it finds need not be the attribute of the tag.

The tag is read here as XML has it, over the end of the line if need be.
-/

set_option autoImplicit false

namespace TdsAdmin
namespace Package

open Pattern (isSpace lit)

/-! ## The tag and the line -/

/-- The attributes of the tag that `opening` starts, with their values. -/
def tagAttributes (opening text : Text) : List (Text × Text) :=
  Markup.readAttributes ((Text.after opening text).dropWhile fun c => !Markup.isDelimiter c)

/-- The value of an attribute of the tag, `none` if it has none of this name. -/
def attributeValue (opening name text : Text) : Option Text :=
  (tagAttributes opening text).lookup name

/-- The text starts with ` name="value"` as the scanner looks for it. -/
def Opens (name value text : Text) : Prop :=
  ∃ before after rest, (∀ c ∈ before, isSpace c = true) ∧ (∀ c ∈ after, isSpace c = true) ∧
    '"' ∉ value ∧ text = ' ' :: name ++ (before ++ '=' :: (after ++ '"' :: (value ++ '"' :: rest)))

/-- Somewhere on the line there is ` name="value"`. -/
def Written (name value line : Text) : Prop := ∃ u w, line = u ++ w ∧ Opens name value w

/-- The first ` name="…"` of the line has this value. -/
def Shows (name value line : Text) : Prop :=
  ∃ u w, line = u ++ w ∧ Opens name value w ∧
    ∀ x y, u = x ++ y → y ≠ [] → ∀ other, ¬ Opens name other (y ++ w)

/-- There is no ` name="…"` on the line. -/
def Silent (name line : Text) : Prop := ∀ value, ¬ Written name value line

/-! ## One match -/

theorem notQuote_iff {v : Text} : (∀ c ∈ v, notQuote c = true) ↔ '"' ∉ v := by
  constructor
  · intro h hmem
    exact absurd (h '"' hmem) (by decide)
  · intro h c hc
    rw [notQuote, bne_iff_ne]
    rintro rfl
    exact h hc

/-- What follows a name in a pattern matches a value in double quotes, and captures it. -/
theorem matchHere_value_iff {P : Pattern} {t : Text} {r : List Text × Text} :
    Pattern.matchHere (valuePattern ++ P) t = some r ↔ ∃ before after v rest m,
      (∀ c ∈ before, isSpace c = true) ∧ (∀ c ∈ after, isSpace c = true) ∧ '"' ∉ v ∧
        t = before ++ '=' :: (after ++ '"' :: (v ++ '"' :: rest)) ∧
        Pattern.matchHere P rest = some m ∧ r = (v :: m.1, m.2) := by
  have hclosing : Pattern.Stops notQuote (lit ['"'] ++ P) := Pattern.stops_lit (by decide)
  have hquote : Pattern.Stops isSpace (lit ['"'] ++ .capture notQuote 0 :: (lit ['"'] ++ P)) :=
    Pattern.stops_lit (by decide)
  have hequals : Pattern.Stops isSpace (lit ['='] ++ .run isSpace ::
      (lit ['"'] ++ .capture notQuote 0 :: (lit ['"'] ++ P))) := Pattern.stops_lit (by decide)
  have hpattern : valuePattern ++ P = .run isSpace :: (lit ['='] ++ .run isSpace ::
      (lit ['"'] ++ .capture notQuote 0 :: (lit ['"'] ++ P))) := rfl
  rw [hpattern]
  constructor
  · intro h
    obtain ⟨b, t, rfl, hb, hbefore⟩ := (Pattern.matchHere_run_iff hequals).mp h
    obtain ⟨t, rfl, hafter⟩ := Pattern.matchHere_lit_iff.mp hbefore
    obtain ⟨c, t, rfl, hc, hopening⟩ := (Pattern.matchHere_run_iff hquote).mp hafter
    obtain ⟨t, rfl, hvalue⟩ := Pattern.matchHere_lit_iff.mp hopening
    obtain ⟨v, t, m, rfl, hv, hend, rfl⟩ := (Pattern.matchHere_capture_iff hclosing).mp hvalue
    obtain ⟨rest, rfl, hrest⟩ := Pattern.matchHere_lit_iff.mp hend
    exact ⟨b, c, v, rest, m, hb, hc, notQuote_iff.mp hv, rfl, hrest, rfl⟩
  · rintro ⟨b, c, v, rest, m, hb, hc, hv, rfl, hrest, rfl⟩
    refine (Pattern.matchHere_run_iff hequals).mpr ⟨b, _, rfl, hb, ?_⟩
    refine Pattern.matchHere_lit_iff.mpr ⟨_, rfl, ?_⟩
    refine (Pattern.matchHere_run_iff hquote).mpr ⟨c, _, rfl, hc, ?_⟩
    refine Pattern.matchHere_lit_iff.mpr ⟨_, rfl, ?_⟩
    refine (Pattern.matchHere_capture_iff hclosing).mpr ⟨v, _, m, rfl, notQuote_iff.mpr hv, ?_, rfl⟩
    exact Pattern.matchHere_lit_iff.mpr ⟨rest, rfl, hrest⟩

/-- The pattern matches at the texts that open with the attribute, and captures its value. -/
theorem matchHere_attribute {name w : Text} {r : List Text × Text} :
    Pattern.matchHere (attributePattern name) w = some r → ∃ v, r.1 = [v] ∧ Opens name v w := by
  intro h
  obtain ⟨t, rfl, hvalue⟩ := Pattern.matchHere_lit_iff.mp h
  rw [← List.append_nil valuePattern] at hvalue
  obtain ⟨b, c, v, rest, m, hb, hc, hv, rfl, hrest, rfl⟩ := matchHere_value_iff.mp hvalue
  cases hrest
  exact ⟨v, rfl, b, c, rest, hb, hc, hv, rfl⟩

theorem matchHere_opens {name v w : Text} (h : Opens name v w) :
    ∃ rest, Pattern.matchHere (attributePattern name) w = some ([v], rest) := by
  obtain ⟨b, c, rest, hb, hc, hv, rfl⟩ := h
  refine ⟨rest, Pattern.matchHere_lit_iff.mpr ⟨_, rfl, ?_⟩⟩
  rw [← List.append_nil valuePattern]
  exact matchHere_value_iff.mpr ⟨b, c, v, rest, ([], rest), hb, hc, hv, rfl, rfl, rfl⟩

/-- Nothing is captured where no attribute opens. -/
theorem matchHere_attribute_none {name w : Text} :
    Pattern.matchHere (attributePattern name) w = none ↔ ∀ v, ¬ Opens name v w := by
  constructor
  · intro h v hv
    obtain ⟨rest, hrest⟩ := matchHere_opens hv
    rw [h] at hrest
    cases hrest
  · intro h
    cases hm : Pattern.matchHere (attributePattern name) w with
    | none => rfl
    | some r =>
      obtain ⟨v, -, hv⟩ := matchHere_attribute hm
      exact absurd hv (h v)

/-- **A match captures the value of the first attribute of that name on the line.** -/
theorem first_eq_some_iff {name v line : Text} :
    (attributePattern name).first line = some v ↔ Shows name v line := by
  constructor
  · intro h
    obtain ⟨vs, hvs, hv⟩ := Option.bind_eq_some_iff.mp h
    obtain ⟨⟨u, r⟩, hr, rfl⟩ := Option.map_eq_some_iff.mp hvs
    obtain ⟨w, rfl, hw, hnone⟩ := Pattern.search_eq_some_iff.mp hr
    obtain ⟨v', hv', hopens⟩ := matchHere_attribute hw
    dsimp only at hv
    rw [hv'] at hv
    cases hv
    exact ⟨u, w, rfl, hopens, fun x y hxy hy => matchHere_attribute_none.mp (hnone x y hxy hy)⟩
  · rintro ⟨u, w, rfl, hopens, hfirst⟩
    obtain ⟨rest, hw⟩ := matchHere_opens hopens
    have hsearch : Pattern.search (attributePattern name) (u ++ w) = some (u, [v], rest) :=
      Pattern.search_eq_some_iff.mpr ⟨w, rfl, hw, fun x y hxy hy =>
        matchHere_attribute_none.mpr (hfirst x y hxy hy)⟩
    rw [Pattern.first, Pattern.captures, hsearch]
    rfl

theorem first_eq_none_iff {name line : Text} :
    (attributePattern name).first line = none ↔ Silent name line := by
  constructor
  · rintro h v ⟨u, w, rfl, hopens⟩
    cases hsearch : Pattern.search (attributePattern name) (u ++ w) with
    | none =>
      exact matchHere_attribute_none.mp (Pattern.search_eq_none_iff.mp hsearch u w rfl) v hopens
    | some r =>
      obtain ⟨x, hx, hr⟩ := Pattern.search_suffix hsearch
      obtain ⟨v', hv', -⟩ := matchHere_attribute hr
      rw [Pattern.first, Pattern.captures, hsearch, Option.map_some, Option.bind_some, hv'] at h
      cases h
  · intro h
    have hsearch : Pattern.search (attributePattern name) line = none := by
      refine Pattern.search_eq_none_iff.mpr fun u w heq => matchHere_attribute_none.mpr ?_
      exact fun v hopens => h v ⟨u, w, heq, hopens⟩
    rw [Pattern.first, Pattern.captures, hsearch]
    rfl

theorem Shows.written {name v line : Text} (h : Shows name v line) : Written name v line := by
  obtain ⟨u, w, heq, hopens, -⟩ := h
  exact ⟨u, w, heq, hopens⟩

/-! ## One match after another -/

/-- `$1` when the line has been asked for the names in turn. -/
def lastCapture (names : List Text) (line : Text) : Option Text :=
  names.foldl (fun dollar1 name => matchAttribute name line dollar1) none

/-- Of the names that stand on the line at all, the last one has this value. -/
def LastShown (names : List Text) (value line : Text) : Prop :=
  ∃ before name after, names = before ++ name :: after ∧ Shows name value line ∧
    ∀ other ∈ after, Silent other line

theorem lastShown_cons {name : Text} {names : List Text} {value line : Text} :
    LastShown (name :: names) value line ↔
      LastShown names value line ∨
        (∀ other ∈ names, Silent other line) ∧ Shows name value line := by
  constructor
  · rintro ⟨before, n, after, heq, hshows, hsilent⟩
    cases before with
    | nil =>
      obtain ⟨rfl, rfl⟩ := List.cons.inj heq
      exact Or.inr ⟨hsilent, hshows⟩
    | cons m before =>
      obtain ⟨-, rfl⟩ := List.cons.inj heq
      exact Or.inl ⟨before, n, after, rfl, hshows, hsilent⟩
  · rintro (⟨before, n, after, rfl, hshows, hsilent⟩ | ⟨hsilent, hshows⟩)
    · exact ⟨name :: before, n, after, rfl, hshows, hsilent⟩
    · exact ⟨[], name, names, rfl, hshows, hsilent⟩

/-- A match that succeeds replaces `$1`, one that fails hands the old one on. -/
theorem matchAttribute_eq_some_iff {name line v : Text} {dollar1 : Option Text} :
    matchAttribute name line dollar1 = some v ↔
      Shows name v line ∨ Silent name line ∧ dollar1 = some v := by
  rw [matchAttribute, Option.or_eq_some_iff, first_eq_some_iff, first_eq_none_iff]

theorem matchAttribute_eq_none_iff {name line : Text} {dollar1 : Option Text} :
    matchAttribute name line dollar1 = none ↔ Silent name line ∧ dollar1 = none := by
  rw [matchAttribute, Option.or_eq_none_iff, first_eq_none_iff]

theorem foldl_eq_some_iff (line v : Text) (names : List Text) (dollar1 : Option Text) :
    names.foldl (fun dollar1 name => matchAttribute name line dollar1) dollar1 = some v ↔
      LastShown names v line ∨ (∀ name ∈ names, Silent name line) ∧ dollar1 = some v := by
  induction names generalizing dollar1 with
  | nil =>
    constructor
    · intro h
      exact Or.inr ⟨fun n hn => absurd hn List.not_mem_nil, h⟩
    · rintro (⟨before, n, after, heq, -⟩ | ⟨-, h⟩)
      · cases before <;> cases heq
      · exact h
  | cons name names ih =>
    rw [List.foldl_cons, ih, matchAttribute_eq_some_iff, lastShown_cons, List.forall_mem_cons]
    tauto

theorem foldl_eq_none_iff (line : Text) (names : List Text) (dollar1 : Option Text) :
    names.foldl (fun dollar1 name => matchAttribute name line dollar1) dollar1 = none ↔
      (∀ name ∈ names, Silent name line) ∧ dollar1 = none := by
  induction names generalizing dollar1 with
  | nil => simp
  | cons name names ih =>
    rw [List.foldl_cons, ih, matchAttribute_eq_none_iff, List.forall_mem_cons]
    tauto

/-- **What is taken is the value of the last name that stands on the line, not of the last
name.** -/
theorem lastCapture_eq_some_iff {names : List Text} {line v : Text} :
    lastCapture names line = some v ↔ LastShown names v line := by
  rw [lastCapture, foldl_eq_some_iff, or_iff_left]
  rintro ⟨-, h⟩
  cases h

theorem lastCapture_eq_none_iff {names : List Text} {line : Text} :
    lastCapture names line = none ↔ ∀ name ∈ names, Silent name line := by
  rw [lastCapture, foldl_eq_none_iff, and_iff_left rfl]

/-! ## The two lines -/

/-- The scanner comes to the line, which is followed by the lines `after`, and takes the attributes
of its header from it. -/
def HandlesHeader (t : Option Text) (lines : List Text) (line : Text) (after : List Text) : Prop :=
  ∃ before s, lines = before ++ line :: after ∧ scanFrom t .initial before = .ok s ∧
    s.state = .start ∧ isTestspecification line = true

/-- As `HandlesHeader` for the identifier. A header is rewritten before it is tested for the tag. -/
def HandlesIdentifier (t : Option Text) (lines : List Text) (line : Text) (after : List Text) :
    Prop :=
  ∃ before original s s', lines = before ++ original :: after ∧ scanFrom t .initial before = .ok s ∧
    testspecificationStep t s original = .ok (s', line) ∧ s'.state = .specification ∧
    isIdentifier line = true

/-- The third value of an `<identifier` line, to which `.0` is appended. -/
def versionOf (line : Text) : Option Text := matchAttribute "version".toList line (testLabelOf line)

/-- The value that has been taken is that of the attribute; if there is no such attribute, then at
least not that of another one. -/
def IsValueOf (actual : Option Text) (line : Text) (taken : Option Text) : Prop :=
  match actual with
  | some value => taken = some value
  | none => ∀ other value, Written other value line → taken ≠ some value

/-- In a package with this content every value is taken from the attribute of its name. -/
structure Faithful (t : Option Text) (content : Text) : Prop where
  purpose : ∀ line after, HandlesHeader t (Text.lines content) line after →
    IsValueOf (attributeValue "<testspecification".toList "purpose".toList (line ++ after.flatten))
      line (testPurpose line)
  publishdate : ∀ line after, HandlesHeader t (Text.lines content) line after →
    isRegistrationPurpose line = true →
    IsValueOf
      (attributeValue "<testspecification".toList "publishdate".toList (line ++ after.flatten))
      line (testPublishDate line)
  uniqueid : ∀ line after, HandlesIdentifier t (Text.lines content) line after →
    IsValueOf (attributeValue "<identifier".toList "uniqueid".toList (line ++ after.flatten))
      line (uniqueIdOf line)
  label : ∀ line after, HandlesIdentifier t (Text.lines content) line after →
    IsValueOf (attributeValue "<identifier".toList "label".toList (line ++ after.flatten))
      line (testLabelOf line)
  version : ∀ line after, HandlesIdentifier t (Text.lines content) line after →
    IsValueOf (attributeValue "<identifier".toList "version".toList (line ++ after.flatten))
      line (versionOf line)

/-! ## When they are -/

/-- The names have been asked for in turn, the last one being that of the attribute. If the tag has
the attribute, then the last of the names that stands on the line has its value; if it has not, then
none of the names stands there. -/
def Legible (names : List Text) (actual : Option Text) (line : Text) : Prop :=
  match actual with
  | some value => LastShown names value line
  | none => ∀ name ∈ names, Silent name line

theorem lastCapture_written {names : List Text} {line v : Text}
    (h : lastCapture names line = some v) : ∃ name, Written name v line := by
  obtain ⟨before, name, after, -, hshows, -⟩ := lastCapture_eq_some_iff.mp h
  exact ⟨name, hshows.written⟩

theorem isValueOf_iff {names : List Text} {actual : Option Text} {line : Text} :
    IsValueOf actual line (lastCapture names line) ↔ Legible names actual line := by
  cases actual with
  | some value => exact lastCapture_eq_some_iff
  | none =>
    show (∀ other value, Written other value line → lastCapture names line ≠ some value) ↔
      ∀ name ∈ names, Silent name line
    rw [← lastCapture_eq_none_iff]
    constructor
    · intro h
      cases htaken : lastCapture names line with
      | none => rfl
      | some value =>
        obtain ⟨other, hwritten⟩ := lastCapture_written htaken
        exact absurd htaken (h other value hwritten)
    · intro h other value _
      rw [h]
      exact nofun

/-- On the two lines every attribute that is taken can be read where the scanner looks for it. -/
structure AllLegible (t : Option Text) (content : Text) : Prop where
  purpose : ∀ line after, HandlesHeader t (Text.lines content) line after →
    Legible ["purpose".toList]
      (attributeValue "<testspecification".toList "purpose".toList (line ++ after.flatten)) line
  publishdate : ∀ line after, HandlesHeader t (Text.lines content) line after →
    isRegistrationPurpose line = true →
    Legible ["purpose".toList, "publisher".toList, "publishdate".toList]
      (attributeValue "<testspecification".toList "publishdate".toList (line ++ after.flatten)) line
  uniqueid : ∀ line after, HandlesIdentifier t (Text.lines content) line after →
    Legible ["uniqueid".toList]
      (attributeValue "<identifier".toList "uniqueid".toList (line ++ after.flatten)) line
  label : ∀ line after, HandlesIdentifier t (Text.lines content) line after →
    Legible ["uniqueid".toList, "label".toList]
      (attributeValue "<identifier".toList "label".toList (line ++ after.flatten)) line
  version : ∀ line after, HandlesIdentifier t (Text.lines content) line after →
    Legible ["uniqueid".toList, "label".toList, "version".toList]
      (attributeValue "<identifier".toList "version".toList (line ++ after.flatten)) line

/-- **Every value is taken from its own attribute exactly when each attribute of the tag can be read
where the scanner looks, and one that the tag does not have is missing together with all those asked
for before it.** -/
theorem faithful_iff (t : Option Text) (content : Text) :
    Faithful t content ↔ AllLegible t content := by
  constructor
  · intro h
    exact
      { purpose := fun line after hline => isValueOf_iff.mp (h.purpose line after hline)
        publishdate := fun line after hline hregistration =>
          isValueOf_iff.mp (h.publishdate line after hline hregistration)
        uniqueid := fun line after hline => isValueOf_iff.mp (h.uniqueid line after hline)
        label := fun line after hline => isValueOf_iff.mp (h.label line after hline)
        version := fun line after hline => isValueOf_iff.mp (h.version line after hline) }
  · intro h
    exact
      { purpose := fun line after hline => isValueOf_iff.mpr (h.purpose line after hline)
        publishdate := fun line after hline hregistration =>
          isValueOf_iff.mpr (h.publishdate line after hline hregistration)
        uniqueid := fun line after hline => isValueOf_iff.mpr (h.uniqueid line after hline)
        label := fun line after hline => isValueOf_iff.mpr (h.label line after hline)
        version := fun line after hline => isValueOf_iff.mpr (h.version line after hline) }

def plainHeader : Text := "<testspecification purpose=\"registration\">\n".toList

def unlabelledIdentifier : Text := "<identifier uniqueid=\"5\" version=\"3\"/>\n".toList

/-- The label of an identifier without a label is its unique id. -/
theorem label_is_uniqueid : ¬ ∀ (t : Option Text) (content : Text), Faithful t content := by
  intro h
  have hhandled : HandlesIdentifier none (Text.lines (plainHeader ++ unlabelledIdentifier))
      unlabelledIdentifier [] :=
    ⟨[plainHeader], unlabelledIdentifier, _, _, by decide, rfl, rfl, rfl, by decide⟩
  have hlabel := (h none (plainHeader ++ unlabelledIdentifier)).label _ _ hhandled
  have hmissing : attributeValue "<identifier".toList "label".toList
      (unlabelledIdentifier ++ [].flatten) = none := by decide
  rw [hmissing] at hlabel
  have htaken : lastCapture ["uniqueid".toList, "label".toList] unlabelledIdentifier =
      some ['5'] := by decide
  obtain ⟨name, hwritten⟩ := lastCapture_written htaken
  exact hlabel name ['5'] hwritten htaken

end Package
end TdsAdmin
