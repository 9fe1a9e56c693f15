import TdsAdmin.Proof.Package.TagLine

/-!
# Two layouts of one package

The scanner works on lines, so it does matter how the tags of a package are spread over lines
(`layout_matters`). It does not matter for what it does not look for, nor how a tag is laid out that
has a line of its own: two such files, `Aligned` to the same parts, are both rejected, or give the
same metadata and packages with the same items.

Of the seven rewritings each either writes the same text for both layouts of a line or leaves both
as they are (`Alike`).
-/

set_option autoImplicit false

namespace TdsAdmin
namespace Package

open Markup (Tag Item Layout SameItems Blank IsName IsFixed)

variable {t : Option Text} {s : Scan} {l l₁ l₂ : Text} {tag : Tag}

/-! ## A turn without the package -/

/-- A rewriting with its effect on the variables. -/
abbrev Step := Scan → Text → Except Die (Scan × Text)

/-- One rewriting after the other. -/
def Step.andThen (f g : Step) : Step := fun s l =>
  match f s l with
  | .ok (s, l) => g s l
  | .error death => .error death

/-- The four rewritings that change the variables. -/
def rewriteSteps (t : Option Text) : Step :=
  Step.andThen (Step.andThen (Step.andThen (testspecificationStep t)
    fun s l => .ok (identifierStep s l)) propertyStep) registrationStep

/-- The line as it is pushed. -/
def pushed (s : Scan) (l : Text) : Text := registrationsegmentStep s (poolpropertyStep s l)

theorem scanLine_eq : scanLine t s l =
    (rewriteSteps t s l).map fun r => r.1.push (pushed r.1 r.2) := by
  simp only [scanLine, rewriteSteps, Step.andThen, bind, Except.bind]
  cases testspecificationStep t s l with
  | error death => rfl
  | ok r =>
    dsimp only
    cases propertyStep (identifierStep r.1 r.2).1 (identifierStep r.1 r.2).2 with
    | error death => rfl
    | ok r' =>
      dsimp only
      cases registrationStep r'.1 r'.2 with
      | error death => rfl
      | ok r'' => rfl

def Scan.withPackage (s : Scan) (package : List Text) : Scan := { s with testPackage := package }

@[simp] theorem Scan.withPackage_state {p : List Text} : (s.withPackage p).state = s.state := rfl
@[simp] theorem Scan.withPackage_testTypeFound {p : List Text} :
    (s.withPackage p).testTypeFound = s.testTypeFound := rfl
@[simp] theorem Scan.withPackage_testLabel {p : List Text} :
    (s.withPackage p).testLabel = s.testLabel := rfl

/-- The step does not look at the package, nor change it. -/
def Step.IgnoresPackage (f : Step) : Prop :=
  ∀ p s l, f (s.withPackage p) l = (f s l).map fun r => (r.1.withPackage p, r.2)

theorem Step.IgnoresPackage.andThen {f g : Step} (hf : f.IgnoresPackage)
    (hg : g.IgnoresPackage) : (f.andThen g).IgnoresPackage := by
  intro p s l
  rw [Step.andThen, Step.andThen, hf]
  cases f s l with
  | error death => rfl
  | ok r => exact hg p r.1 r.2

theorem testspecificationStep_ignoresPackage :
    Step.IgnoresPackage (testspecificationStep t) := by
  intro p s l
  unfold testspecificationStep
  rw [Scan.withPackage_state]
  split_ifs <;> rfl

theorem identifierStep_ignoresPackage :
    Step.IgnoresPackage fun s l => .ok (identifierStep s l) := by
  intro p s l
  unfold identifierStep
  dsimp only
  rw [Scan.withPackage_state]
  split_ifs <;> rfl

theorem applyProperty_ignoresPackage (name value : Text) :
    Step.IgnoresPackage fun s l => applyProperty s l name value := by
  intro p s l
  unfold applyProperty
  dsimp only
  split_ifs
  · cases subjectFor value <;> rfl
  · rfl
  · cases typeFor value <;> rfl
  · rfl

theorem propertyStep_ignoresPackage : Step.IgnoresPackage propertyStep := by
  intro p s l
  unfold propertyStep
  rw [Scan.withPackage_state]
  cases property l with
  | none => rfl
  | some pair =>
    dsimp only
    split_ifs
    · exact applyProperty_ignoresPackage pair.1 pair.2 p s l
    · rfl

theorem registrationStep_ignoresPackage : Step.IgnoresPackage registrationStep := by
  intro p s l
  unfold registrationStep
  rw [Scan.withPackage_state, Scan.withPackage_testTypeFound]
  split_ifs <;> rfl

theorem rewriteSteps_ignoresPackage : (rewriteSteps t).IgnoresPackage :=
  ((testspecificationStep_ignoresPackage.andThen identifierStep_ignoresPackage).andThen
    propertyStep_ignoresPackage).andThen registrationStep_ignoresPackage

theorem scanLine_withPackage (p : List Text) : scanLine t (s.withPackage p) l =
    (rewriteSteps t s l).map fun r => r.1.withPackage (p ++ [pushed r.1 r.2]) := by
  rw [scanLine_eq, rewriteSteps_ignoresPackage p s l]
  cases rewriteSteps t s l with
  | error death => rfl
  | ok r => rfl

/-! ## Lines that are markup -/

/-- The line is white space, or goes from a `<` to a `>`, with white space around. -/
def Closed (l : Text) : Prop :=
  Blank l ∨ ∃ before body after, l = before ++ '<' :: (body ++ '>' :: after) ∧
    Blank before ∧ Blank after

theorem Closed.layout (h : Closed l) : SameItems l l := by
  rcases h with hblank | ⟨before, body, after, rfl, hbefore, hafter⟩
  · exact Markup.sameItems_blank hblank hblank
  · have hfixed : IsFixed ('<' :: (body ++ ['>'])) := ⟨body, rfl⟩
    have hlayout : Layout [.fixed _ hfixed] (before ++ '<' :: (body ++ ['>']) ++ after) :=
      Layout.fixed hbefore (Layout.nil hafter)
    have hcut : before ++ '<' :: (body ++ ['>']) ++ after =
        before ++ '<' :: (body ++ '>' :: after) := by simp
    rw [hcut] at hlayout
    exact ⟨_, hlayout, hlayout⟩

theorem closed_append {before body after : Text} (hbefore : Blank before) (hafter : Blank after) :
    Closed (before ++ '<' :: (body ++ '>' :: after)) :=
  Or.inr ⟨before, body, after, rfl, hbefore, hafter⟩

theorem Closed.replaceFirst {needle word : Text} (hneedle : IsName needle) (h : Closed l) :
    Closed (Text.replaceFirst needle word l) := by
  rcases h with hblank | ⟨before, body, after, rfl, hbefore, hafter⟩
  · rw [hblank.replaceFirst hneedle]
    exact Or.inl hblank
  · rw [hbefore.skip hneedle, Markup.replaceFirst_delimiter hneedle rfl]
    -- the word is found between the `<` and the `>`, or nowhere
    by_cases hfound : needle <:+: body
    · rw [Text.replaceFirst_found hneedle.1 hfound]
      exact closed_append hbefore hafter
    · rw [Text.replaceFirst_passed hfound, Markup.replaceFirst_delimiter hneedle rfl,
        hafter.replaceFirst hneedle]
      · exact closed_append hbefore hafter
      · exact Text.head_cons (hneedle.not_mem rfl)

/-- The step makes markup of markup. -/
def Step.KeepsClosed (f : Step) : Prop :=
  ∀ s l s' l', Closed l → f s l = .ok (s', l') → Closed l'

theorem Step.KeepsClosed.andThen {f g : Step} (hf : f.KeepsClosed) (hg : g.KeepsClosed) :
    (f.andThen g).KeepsClosed := by
  intro s l s' l' hl h
  rw [Step.andThen] at h
  cases hstep : f s l with
  | error death =>
    rw [hstep] at h
    cases h
  | ok r =>
    rw [hstep] at h
    exact hg r.1 r.2 s' l' (hf s l r.1 r.2 hl hstep) h

/-- The text begins with a `<`, up to white space. -/
def Opened (u : Text) : Prop := ∃ before x, u = before ++ '<' :: x ∧ Blank before

theorem Opened.append {u : Text} (h : Opened u) (v : Text) : Opened (u ++ v) := by
  obtain ⟨before, x, rfl, hbefore⟩ := h
  exact ⟨before, x ++ v, by rw [List.append_assoc, List.cons_append], hbefore⟩

/-- The text ends with a `>`, up to white space. -/
def Shut (v : Text) : Prop := ∃ y after, v = y ++ '>' :: after ∧ Blank after

theorem Shut.append {v : Text} (h : Shut v) (u : Text) : Shut (u ++ v) := by
  obtain ⟨y, after, rfl, hafter⟩ := h
  exact ⟨u ++ y, after, (List.append_assoc _ _ _).symm, hafter⟩

theorem Opened.closed {u v : Text} (hu : Opened u) (hv : Shut v) : Closed (u ++ v) := by
  obtain ⟨before, x, rfl, hbefore⟩ := hu
  obtain ⟨y, after, rfl, hafter⟩ := hv
  have hcut : before ++ '<' :: x ++ (y ++ '>' :: after) =
      before ++ '<' :: ((x ++ y) ++ '>' :: after) := by simp
  rw [hcut]
  exact closed_append hbefore hafter

theorem closed_testspecificationLine (tenant date : Option Text) :
    Closed (testspecificationLine tenant date) := by
  have hopened : Opened "<testspecification purpose=\"REGISTRATION\" publisher=\"".toList :=
    ⟨[], "testspecification purpose=\"REGISTRATION\" publisher=\"".toList, by decide, by decide⟩
  have hshut : Shut "\" version=\"1.0\">\n".toList :=
    ⟨"\" version=\"1.0\"".toList, ['\n'], by decide, by decide⟩
  exact (((hopened.append _).append _).append _).closed hshut

theorem closed_identifierLine (uniqueId label version : Option Text) :
    Closed (identifierLine uniqueId label version) := by
  have hopened : Opened "  <identifier uniqueid=\"".toList :=
    ⟨[' ', ' '], "identifier uniqueid=\"".toList, by decide, by decide⟩
  have hshut : Shut "\" />".toList := ⟨"\" /".toList, [], by decide, by decide⟩
  exact (((((((hopened.append _).append _).append _).append _).append _).append _).append _).closed
    hshut

theorem closed_subjectLine (abbreviation name : Text) : Closed (subjectLine abbreviation name) := by
  have hopened : Opened "  <property name=\"subject\" value=\"".toList :=
    ⟨[' ', ' '], "property name=\"subject\" value=\"".toList, by decide, by decide⟩
  have hshut : Shut "\" />\n".toList := ⟨"\" /".toList, ['\n'], by decide, by decide⟩
  exact (((hopened.append _).append _).append _).closed hshut

theorem closed_registrationLines (label : Option Text) : Closed (registrationLines label) := by
  have hopened : Opened "  <property name=\"label\" value=\"".toList :=
    ⟨[' ', ' '], "property name=\"label\" value=\"".toList, by decide, by decide⟩
  have hlast : Shut "  <registration>\n".toList :=
    ⟨"  <registration".toList, ['\n'], by decide, by decide⟩
  have hshut : Shut registrationTail := by
    rw [registrationTail_eq]
    exact hlast.append _
  exact (((hopened.append _).append _).append _).closed hshut

theorem testspecificationStep_keepsClosed : Step.KeepsClosed (testspecificationStep t) := by
  intro s l s' l' hl h
  unfold testspecificationStep at h
  split_ifs at h
  · cases h
    exact closed_testspecificationLine _ _
  · cases h
    exact hl

theorem identifierStep_keepsClosed : Step.KeepsClosed fun s l => .ok (identifierStep s l) := by
  intro s l s' l' hl h
  unfold identifierStep at h
  dsimp only at h
  split_ifs at h
  · cases h
    exact closed_identifierLine _ _ _
  · cases h
    exact hl

theorem applyProperty_keepsClosed (name value : Text) :
    Step.KeepsClosed fun s l => applyProperty s l name value := by
  intro s l s' l' hl h
  unfold applyProperty at h
  dsimp only at h
  split_ifs at h
  · cases hsubject : subjectFor value with
    | none =>
      rw [hsubject] at h
      cases h
    | some p =>
      rw [hsubject] at h
      cases h
      exact closed_subjectLine _ _
  · cases h
    exact hl
  · cases htype : typeFor value with
    | none =>
      rw [htype] at h
      cases h
      exact hl
    | some type =>
      rw [htype] at h
      cases h
      exact hl
  · cases h
    exact hl

theorem propertyStep_keepsClosed : Step.KeepsClosed propertyStep := by
  intro s l s' l' hl h
  unfold propertyStep at h
  cases hp : property l with
  | none =>
    rw [hp] at h
    cases h
    exact hl
  | some pair =>
    rw [hp] at h
    dsimp only at h
    split_ifs at h
    · exact applyProperty_keepsClosed pair.1 pair.2 s l s' l' hl h
    · cases h
      exact hl

theorem registrationStep_keepsClosed : Step.KeepsClosed registrationStep := by
  intro s l s' l' hl h
  unfold registrationStep at h
  split_ifs at h
  · cases h
    exact closed_registrationLines _
  · cases h
    exact hl

theorem rewriteSteps_keepsClosed : (rewriteSteps t).KeepsClosed :=
  ((testspecificationStep_keepsClosed.andThen identifierStep_keepsClosed).andThen
    propertyStep_keepsClosed).andThen registrationStep_keepsClosed

theorem pushed_closed (h : Closed l) : Closed (pushed s l) := by
  have hpool : Closed (poolpropertyStep s l) := by
    unfold poolpropertyStep
    split_ifs
    · exact Or.inl Markup.blank_nil
    · exact h
  unfold pushed registrationsegmentStep
  split_ifs
  · exact (hpool.replaceFirst (by decide)).replaceFirst (by decide)
  · exact hpool

/-! ## The two layouts of a line -/

/-- The step makes the same of both lines, or leaves both as they are. -/
def Alike (f : Step) (l₁ l₂ : Text) : Prop :=
  ∀ s, f s l₁ = f s l₂ ∨ ∃ s', f s l₁ = .ok (s', l₁) ∧ f s l₂ = .ok (s', l₂)

theorem Alike.andThen {f g : Step} (hf : Alike f l₁ l₂) (hg : Alike g l₁ l₂) :
    Alike (f.andThen g) l₁ l₂ := by
  intro s
  rcases hf s with hsame | ⟨s', h₁, h₂⟩
  · left
    rw [Step.andThen, Step.andThen, hsame]
  · rw [Step.andThen, Step.andThen, h₁, h₂]
    exact hg s'

section TagLines

variable (h₁ : TagLine tag l₁) (h₂ : TagLine tag l₂)

include h₁ h₂

theorem has_alike {w : Text} (hw : ∀ c ∈ w, Markup.isDelimiter c = false) :
    Text.has ('<' :: w) l₁ = Text.has ('<' :: w) l₂ :=
  Bool.eq_iff_iff.mpr ((has_tagLine h₁ hw).trans (has_tagLine h₂ hw).symm)

theorem matchAttribute_alike (htakes : TakesAttributes tag) (hun : Unambiguous tag) {n : Text}
    (hn : IsName n) (dollar1 : Option Text) :
    matchAttribute n l₁ dollar1 = matchAttribute n l₂ dollar1 := by
  rw [matchAttribute, matchAttribute, first_tagLine h₁ htakes hun hn,
    first_tagLine h₂ htakes hun hn]

theorem testspecificationStep_alike (hun : Unambiguous tag) :
    Alike (testspecificationStep t) l₁ l₂ := by
  intro s
  have hsame : isTestspecification l₁ = isTestspecification l₂ :=
    has_alike h₁ h₂ (Text.forall_of_all (by decide))
  rw [testspecificationStep, testspecificationStep, ← hsame]
  by_cases htag : isTestspecification l₁ = true ∧ s.state = .start
  · left
    have htakes : TakesAttributes tag :=
      Or.inl ((has_tagLine h₁ (Text.forall_of_all (by decide))).mp htag.1)
    have hpurpose : testPurpose l₁ = testPurpose l₂ :=
      matchAttribute_alike h₁ h₂ htakes hun (by decide) none
    have hpublisher : testPublisher l₁ = testPublisher l₂ := by
      rw [testPublisher, testPublisher, hpurpose]
      exact matchAttribute_alike h₁ h₂ htakes hun (by decide) _
    have hdate : testPublishDate l₁ = testPublishDate l₂ := by
      rw [testPublishDate, testPublishDate, hpublisher]
      exact matchAttribute_alike h₁ h₂ htakes hun (by decide) _
    rw [if_pos htag, if_pos htag, isRegistrationPurpose, isRegistrationPurpose, hpurpose, hdate]
  · right
    rw [if_neg htag, if_neg htag]
    exact ⟨s, rfl, rfl⟩

theorem identifierStep_alike (hun : Unambiguous tag) :
    Alike (fun s l => .ok (identifierStep s l)) l₁ l₂ := by
  intro s
  dsimp only
  have hsame : isIdentifier l₁ = isIdentifier l₂ :=
    has_alike h₁ h₂ (Text.forall_of_all (by decide))
  rw [identifierStep, identifierStep, ← hsame]
  by_cases htag : isIdentifier l₁ = true ∧ s.state = .specification
  · left
    have htakes : TakesAttributes tag :=
      Or.inr ((has_tagLine h₁ (Text.forall_of_all (by decide))).mp htag.1)
    have huniqueId : uniqueIdOf l₁ = uniqueIdOf l₂ :=
      matchAttribute_alike h₁ h₂ htakes hun (by decide) none
    have hlabel : testLabelOf l₁ = testLabelOf l₂ := by
      rw [testLabelOf, testLabelOf, huniqueId]
      exact matchAttribute_alike h₁ h₂ htakes hun (by decide) _
    have hversion : testVersionOf l₁ = testVersionOf l₂ := by
      rw [testVersionOf, testVersionOf, hlabel,
        matchAttribute_alike h₁ h₂ htakes hun (by decide) (testLabelOf l₂)]
    rw [if_pos htag, if_pos htag, huniqueId, hlabel, hversion]
  · right
    rw [if_neg htag, if_neg htag]
    exact ⟨s, rfl, rfl⟩

theorem property_alike : property l₁ = property l₂ := by
  apply Option.ext
  rintro ⟨name, value⟩
  exact (property_tagLine h₁).trans (property_tagLine h₂).symm

theorem registrationStep_alike : Alike registrationStep l₁ l₂ := by
  intro s
  have hsame : isRegistration l₁ = isRegistration l₂ :=
    Bool.eq_iff_iff.mpr ((isRegistration_tagLine h₁).trans (isRegistration_tagLine h₂).symm)
  rw [registrationStep, registrationStep, ← hsame]
  by_cases htag : isRegistration l₁ = true ∧ s.state = .properties
  · left
    rw [if_pos htag, if_pos htag]
  · right
    rw [if_neg htag, if_neg htag]
    exact ⟨s, rfl, rfl⟩

end TagLines

/-- A property either sets a variable or is rewritten, whatever its line looks like. -/
theorem applyProperty_alike (name value : Text) :
    Alike (fun s l => applyProperty s l name value) l₁ l₂ := by
  intro s
  unfold applyProperty
  dsimp only
  split_ifs
  · left
    cases subjectFor value <;> rfl
  · right
    exact ⟨_, rfl, rfl⟩
  · right
    cases typeFor value with
    | none => exact ⟨_, rfl, rfl⟩
    | some type => exact ⟨_, rfl, rfl⟩
  · right
    exact ⟨_, rfl, rfl⟩

theorem propertyStep_alike (h₁ : TagLine tag l₁) (h₂ : TagLine tag l₂) :
    Alike propertyStep l₁ l₂ := by
  intro s
  rw [propertyStep, propertyStep, property_alike h₁ h₂]
  cases property l₂ with
  | none => exact Or.inr ⟨s, rfl, rfl⟩
  | some pair =>
    dsimp only
    split_ifs
    · exact applyProperty_alike pair.1 pair.2 s
    · exact Or.inr ⟨s, rfl, rfl⟩

theorem rewriteSteps_alike (h₁ : TagLine tag l₁) (h₂ : TagLine tag l₂) (hun : Unambiguous tag) :
    Alike (rewriteSteps t) l₁ l₂ :=
  (((testspecificationStep_alike h₁ h₂ hun).andThen (identifierStep_alike h₁ h₂ hun)).andThen
    (propertyStep_alike h₁ h₂)).andThen (registrationStep_alike h₁ h₂)

theorem layout_tagLine (h : TagLine tag l) : Layout [.tag tag] l := by
  cases h with
  | mk hbefore hs hgap hafter hspaced hbare =>
    rename_i before s gap after
    have hlayout := Layout.tag hbefore (Markup.TagText.mk hs hgap) (Layout.nil hafter)
    have hcut : before ++ '<' :: (tag.name ++ s ++ gap ++ tag.close) ++ after =
        before ++ '<' :: (tag.name ++ (s ++ (gap ++ (tag.close ++ after)))) := by simp
    rw [hcut] at hlayout
    exact hlayout

theorem closed_tagLine (h : TagLine tag l) : Closed l := by
  cases h with
  | mk hbefore hs hgap hafter hspaced hbare =>
    rename_i before s gap after
    have hopened : Opened (before ++ '<' :: (tag.name ++ (s ++ gap))) := ⟨before, _, rfl, hbefore⟩
    have hshut : Shut (tag.close ++ after) := by
      rcases tag.close_cases with hc | hc <;> rw [hc]
      · exact ⟨['/'], after, rfl, hafter⟩
      · exact ⟨[], after, rfl, hafter⟩
    have hcut : before ++ '<' :: (tag.name ++ (s ++ gap)) ++ (tag.close ++ after) =
        before ++ '<' :: (tag.name ++ (s ++ (gap ++ (tag.close ++ after)))) := by simp
    rw [← hcut]
    exact hopened.closed hshut

/-- A tag that no rewriting has touched is pushed as a tag, or is a pool property. -/
theorem pushed_alike (h₁ : TagLine tag l₁) (h₂ : TagLine tag l₂) :
    SameItems (pushed s l₁) (pushed s l₂) := by
  have hpool : isPoolproperty l₁ = isPoolproperty l₂ :=
    has_alike h₁ h₂ (Text.forall_of_all (by decide))
  have hsegment : isRegistrationsegment l₁ = isRegistrationsegment l₂ :=
    has_alike h₁ h₂ (Text.forall_of_all (by decide))
  rw [pushed, pushed, poolpropertyStep, poolpropertyStep, ← hpool]
  by_cases hp : isPoolproperty l₁ = true ∧ s.state = .registration
  · rw [if_pos hp, if_pos hp]
    have hnil : registrationsegmentStep s [] = [] := if_neg fun h => absurd h.1 (by decide)
    rw [hnil]
    exact Markup.sameItems_blank Markup.blank_nil Markup.blank_nil
  · rw [if_neg hp, if_neg hp, registrationsegmentStep, registrationsegmentStep, ← hsegment]
    by_cases hs : isRegistrationsegment l₁ = true ∧ s.state = .registration
    · rw [if_pos hs, if_pos hs]
      have hreplaced : ∀ (needle word : Text), IsName needle → IsName word → ∀ tag : Tag,
          ∃ tag', ∀ l, Layout [.tag tag] l →
            Layout [.tag tag'] (Text.replaceFirst needle word l) :=
        fun _ _ hneedle hword => Markup.replaceFirst_layout hneedle hword
      obtain ⟨fixed, hfixed⟩ :=
        hreplaced "fixedform".toList "FIXEDFORM".toList (by decide) (by decide) tag
      obtain ⟨adaptive, hadaptive⟩ :=
        hreplaced "adaptive".toList "ADAPTIVE".toList (by decide) (by decide) fixed
      exact ⟨[.tag adaptive], hadaptive _ (hfixed _ (layout_tagLine h₁)),
        hadaptive _ (hfixed _ (layout_tagLine h₂))⟩
    · rw [if_neg hs, if_neg hs]
      exact ⟨[.tag tag], layout_tagLine h₁, layout_tagLine h₂⟩

/-- **A turn dies on both layouts of a line, or does the same to the variables and pushes two
layouts of one text.** -/
theorem rewriteSteps_tagLine (h₁ : TagLine tag l₁) (h₂ : TagLine tag l₂)
    (hun : Unambiguous tag) :
    (∃ death, rewriteSteps t s l₁ = .error death ∧ rewriteSteps t s l₂ = .error death) ∨
      ∃ s' o₁ o₂, rewriteSteps t s l₁ = .ok (s', o₁) ∧ rewriteSteps t s l₂ = .ok (s', o₂) ∧
        SameItems (pushed s' o₁) (pushed s' o₂) := by
  rcases rewriteSteps_alike h₁ h₂ hun s with hsame | ⟨s', hkept₁, hkept₂⟩
  · cases hturn : rewriteSteps t s l₁ with
    | error death => exact Or.inl ⟨death, rfl, hsame.symm.trans hturn⟩
    | ok r =>
      have hclosed := rewriteSteps_keepsClosed s l₁ r.1 r.2 (closed_tagLine h₁) hturn
      exact Or.inr ⟨r.1, r.2, r.2, rfl, hsame.symm.trans hturn, (pushed_closed hclosed).layout⟩
  · exact Or.inr ⟨s', l₁, l₂, hkept₁, hkept₂, pushed_alike h₁ h₂⟩

/-! ## Two layouts of a file -/

/-- The line holds nothing that the scanner looks for. -/
def Plain (l : Text) : Prop := ∀ opening ∈ scannedTags, ¬ opening <:+: l

theorem Plain.none {w : Text} (h : Plain l) (hw : w ∈ scannedTags) : Text.has w l = false :=
  Text.has_eq_false.mpr (h w hw)

theorem rewriteSteps_plain (h : Plain l) : rewriteSteps t s l = .ok (s, l) := by
  have hheader : isTestspecification l = false := h.none (by decide)
  have hidentifier : isIdentifier l = false := h.none (by decide)
  have hproperty : property l = none := property_none (h _ (by decide))
  have hregistration : isRegistration l = false := h.none (by decide)
  simp [rewriteSteps, Step.andThen, testspecificationStep, identifierStep, propertyStep,
    registrationStep, hheader, hidentifier, hproperty, hregistration]

theorem pushed_plain (h : Plain l) : pushed s l = l := by
  have hpool : isPoolproperty l = false := h.none (by decide)
  have hsegment : isRegistrationsegment l = false := h.none (by decide)
  simp [pushed, poolpropertyStep, registrationsegmentStep, hpool, hsegment]

/-- A piece of a package: what the scanner does not look for, or a tag that it may look for. -/
inductive Part where
  | plain (items : List Item)
  | scanned (tag : Tag)

/-- The lines lay out the parts: each tag that is looked for has a line of its own, and anything
else may be laid out at will, on lines without such a tag. -/
inductive Aligned : List Part → List Text → Prop where
  | nil : Aligned [] []
  | plain {items : List Item} {chunk lines : List Text} {parts : List Part}
      (hplain : ∀ l ∈ chunk, Plain l) (hchunk : Layout items chunk.flatten)
      (rest : Aligned parts lines) : Aligned (.plain items :: parts) (chunk ++ lines)
  | scanned {tag : Tag} {l : Text} {lines : List Text} {parts : List Part} (hl : TagLine tag l)
      (rest : Aligned parts lines) : Aligned (.scanned tag :: parts) (l :: lines)

/-- Plain lines change nothing and are pushed as they are. -/
theorem scanFrom_plain (p : List Text) {chunk : List Text} (h : ∀ l ∈ chunk, Plain l)
    (rest : List Text) : scanFrom t (s.withPackage p) (chunk ++ rest) =
      scanFrom t (s.withPackage (p ++ chunk)) rest := by
  induction chunk generalizing p with
  | nil => rw [List.append_nil, List.nil_append]
  | cons l chunk ih =>
    have hl : Plain l := h l List.mem_cons_self
    have hstep : scanLine t (s.withPackage p) l = .ok (s.withPackage (p ++ [l])) := by
      rw [scanLine_withPackage, rewriteSteps_plain hl]
      show Except.ok (s.withPackage (p ++ [pushed s l])) = _
      rw [pushed_plain hl]
    rw [List.cons_append, scanFrom_cons, hstep]
    show scanFrom t (s.withPackage (p ++ [l])) (chunk ++ rest) = _
    rw [ih _ fun m hm => h m (List.mem_cons_of_mem l hm), List.append_assoc, List.singleton_append]

/-- Two runs end alike: both die of the same, or they leave the same variables and packages with the
same items. -/
def EndAlike (r₁ r₂ : Except Die Scan) : Prop :=
  (∃ death, r₁ = .error death ∧ r₂ = .error death) ∨
    ∃ (s : Scan) (p₁ p₂ : List Text), r₁ = .ok (s.withPackage p₁) ∧ r₂ = .ok (s.withPackage p₂) ∧
      SameItems p₁.flatten p₂.flatten

theorem scanFrom_aligned {parts : List Part} (hun : ∀ tag, .scanned tag ∈ parts → Unambiguous tag)
    {lines₁ lines₂ : List Text} (h₁ : Aligned parts lines₁) (h₂ : Aligned parts lines₂)
    {p₁ p₂ : List Text} (hp : SameItems p₁.flatten p₂.flatten) :
    EndAlike (scanFrom t (s.withPackage p₁) lines₁) (scanFrom t (s.withPackage p₂) lines₂) := by
  induction parts generalizing s lines₁ lines₂ p₁ p₂ with
  | nil =>
    cases h₁
    cases h₂
    exact Or.inr ⟨s, p₁, p₂, rfl, rfl, hp⟩
  | cons part parts ih =>
    have hrest : ∀ tag, .scanned tag ∈ parts → Unambiguous tag :=
      fun tag h => hun tag (List.mem_cons_of_mem part h)
    cases h₁ with
    | plain hplain₁ hchunk₁ rest₁ =>
      cases h₂ with
      | plain hplain₂ hchunk₂ rest₂ =>
        rw [scanFrom_plain _ hplain₁, scanFrom_plain _ hplain₂]
        apply ih hrest rest₁ rest₂
        rw [List.flatten_append, List.flatten_append]
        exact hp.append ⟨_, hchunk₁, hchunk₂⟩
    | scanned hl₁ rest₁ =>
      cases h₂ with
      | scanned hl₂ rest₂ =>
        rw [scanFrom_cons, scanFrom_cons, scanLine_withPackage, scanLine_withPackage]
        rcases rewriteSteps_tagLine hl₁ hl₂ (hun _ List.mem_cons_self) with
          ⟨death, hdeath₁, hdeath₂⟩ | ⟨s', o₁, o₂, hturn₁, hturn₂, hpushed⟩
        · rw [hdeath₁, hdeath₂]
          exact Or.inl ⟨death, rfl, rfl⟩
        · rw [hturn₁, hturn₂]
          apply ih hrest rest₁ rest₂
          rw [List.flatten_append, List.flatten_append, List.flatten_singleton,
            List.flatten_singleton]
          exact hp.append hpushed

/-! ## Two tags -/

theorem value_ok_of_all {v : Text} {q : Char} (h : (v.all fun c => c != q && c != '<') = true) :
    ∀ c ∈ v, c ≠ q ∧ c ≠ '<' := by
  intro c hc
  have hboth := List.all_eq_true.mp h c hc
  rw [Bool.and_eq_true, bne_iff_ne, bne_iff_ne] at hboth
  exact hboth

def purposeAttribute : Markup.Attribute where
  name := "purpose".toList
  beforeEquals := []
  afterEquals := []
  quote := '"'
  value := "registration".toList
  name_ok := by decide
  beforeEquals_blank := by decide
  afterEquals_blank := by decide
  quote_ok := Or.inl rfl
  value_ok := value_ok_of_all (by decide)

def uniqueidAttribute : Markup.Attribute where
  name := "uniqueid".toList
  beforeEquals := []
  afterEquals := []
  quote := '"'
  value := ['5']
  name_ok := by decide
  beforeEquals_blank := by decide
  afterEquals_blank := by decide
  quote_ok := Or.inl rfl
  value_ok := value_ok_of_all (by decide)

def headerTag : Tag where
  name := "testspecification".toList
  attributes := [purposeAttribute]
  selfClosing := false
  name_ok := by decide

def identifierTag : Tag where
  name := "identifier".toList
  attributes := [uniqueidAttribute]
  selfClosing := true
  name_ok := by decide

/-- The tag with one attribute, some white space in front of it and behind the tag. -/
def spell (tag : Tag) (a : Markup.Attribute) (gap after : Text) : Text :=
  '<' :: (tag.name ++ ((gap ++ ' ' :: (a.text ++ [])) ++ ([] ++ (tag.close ++ after))))

theorem tagLine_spell {a : Markup.Attribute} {gap after : Text} (ha : tag.attributes = [a])
    (hgap : Blank gap) (hafter : Blank after) : TagLine tag (spell tag a gap after) := by
  have hspaced : Spaced tag.attributes (gap ++ ' ' :: (a.text ++ [])) := by
    rw [ha]
    exact Spaced.cons a hgap Spaced.nil
  have hattributes : Markup.AttributesText tag.attributes (gap ++ ' ' :: (a.text ++ [])) := by
    have hone : Markup.AttributesText [a] ((gap ++ [' ']) ++ a.text ++ []) :=
      Markup.AttributesText.cons a (by simp) (hgap.append (by decide)) Markup.AttributesText.nil
    rw [ha]
    simpa using hone
  exact @TagLine.mk tag [] _ [] after Markup.blank_nil hattributes Markup.blank_nil hafter
    (fun _ => hspaced) fun _ => rfl

/-! ## The whole file -/

/-- Both files are rejected, or both are accepted with the same metadata, and the packages have the
same tags with the same attributes. -/
def SameOutcome (r₁ r₂ : Except Die Scan) : Prop :=
  (∃ death, r₁ = .error death ∧ r₂ = .error death) ∨
    ∃ s₁ s₂, r₁ = .ok s₁ ∧ r₂ = .ok s₂ ∧ s₁.uniqueId = s₂.uniqueId ∧ s₁.testLabel = s₂.testLabel ∧
      s₁.testVersion = s₂.testVersion ∧ s₁.testSubjectName = s₂.testSubjectName ∧
      s₁.testSubjectAbbreviation = s₂.testSubjectAbbreviation ∧ s₁.testGrades = s₂.testGrades ∧
      s₁.testType = s₂.testType ∧ SameItems s₁.testPackage.flatten s₂.testPackage.flatten

/-- **Two files that lay out the same parts, with a line of its own for each tag that is looked for,
come to the same.** -/
theorem aligned_layouts_agree (t : Option Text) (parts : List Part) (content₁ content₂ : Text)
    (h₁ : Aligned parts (Text.lines content₁)) (h₂ : Aligned parts (Text.lines content₂))
    (hun : ∀ tag, .scanned tag ∈ parts → Unambiguous tag) :
    SameOutcome (scan t (Text.lines content₁)) (scan t (Text.lines content₂)) := by
  have hstart : SameItems ([] : List Text).flatten ([] : List Text).flatten :=
    Markup.sameItems_blank Markup.blank_nil Markup.blank_nil
  rcases scanFrom_aligned (s := .initial) hun h₁ h₂ hstart with hdies | ⟨s, p₁, p₂, hs₁, hs₂, hp⟩
  · exact Or.inl hdies
  · exact Or.inr ⟨s.withPackage p₁, s.withPackage p₂, hs₁, hs₂, rfl, rfl, rfl, rfl, rfl, rfl, rfl,
      hp⟩

/-- The header and the identifier with no more white space than there has to be, and with an empty
line in between and two more blanks. -/
theorem aligned_layouts_agree_spread :
    SameOutcome
      (scan none (Text.lines (spell headerTag purposeAttribute [] ['\n'] ++
        spell identifierTag uniqueidAttribute [] [])))
      (scan none (Text.lines (spell headerTag purposeAttribute [] ['\n'] ++
        ('\n' :: spell identifierTag uniqueidAttribute [' ', ' '] ['\n'])))) := by
  apply aligned_layouts_agree none [.scanned headerTag, .plain [], .scanned identifierTag]
  · have hlines : Text.lines (spell headerTag purposeAttribute [] ['\n'] ++
        spell identifierTag uniqueidAttribute [] []) =
      spell headerTag purposeAttribute [] ['\n'] ::
        ([] ++ [spell identifierTag uniqueidAttribute [] []]) := by decide +kernel
    rw [hlines]
    exact Aligned.scanned (tagLine_spell rfl Markup.blank_nil (by decide))
      (Aligned.plain nofun (Layout.nil Markup.blank_nil)
        (Aligned.scanned (tagLine_spell rfl Markup.blank_nil Markup.blank_nil) Aligned.nil))
  · have hlines : Text.lines (spell headerTag purposeAttribute [] ['\n'] ++
        ('\n' :: spell identifierTag uniqueidAttribute [' ', ' '] ['\n'])) =
      spell headerTag purposeAttribute [] ['\n'] ::
        ([['\n']] ++ [spell identifierTag uniqueidAttribute [' ', ' '] ['\n']]) := by
      decide +kernel
    have hempty : ∀ l ∈ [['\n']], Plain l := by
      intro l hl opening hopening
      rw [List.mem_singleton.mp hl]
      have hnone : ∀ w ∈ scannedTags, Text.has w ['\n'] = false := by decide
      exact Text.has_eq_false.mp (hnone opening hopening)
    rw [hlines]
    exact Aligned.scanned (tagLine_spell rfl Markup.blank_nil (by decide))
      (Aligned.plain hempty (Layout.nil (by decide))
        (Aligned.scanned (tagLine_spell rfl (by decide) (by decide)) Aligned.nil))
  · intro tag htag _ a ha
    have hboth : tag = headerTag ∨ tag = identifierTag := by simpa using htag
    rcases hboth with rfl | rfl
    · rw [List.mem_singleton.mp ha]
      decide
    · rw [List.mem_singleton.mp ha]
      decide

/-- The identifier is lost when it stands on the line of the header. -/
theorem layout_matters : ¬ ∀ (t : Option Text) (items : List Item) (content₁ content₂ : Text),
    Layout items content₁ → Layout items content₂ →
      SameOutcome (scan t (Text.lines content₁)) (scan t (Text.lines content₂)) := by
  intro h
  have hheader : ∀ after, Blank after →
      Layout [.tag headerTag] (spell headerTag purposeAttribute [] after) :=
    fun after hafter => layout_tagLine (tagLine_spell rfl Markup.blank_nil hafter)
  have hidentifier : Layout [.tag identifierTag] (spell identifierTag uniqueidAttribute [] []) :=
    layout_tagLine (tagLine_spell rfl Markup.blank_nil Markup.blank_nil)
  have hsame := h none _ _ _ ((hheader ['\n'] (by decide)).append hidentifier)
    ((hheader [] (by decide)).append hidentifier)
  have hapart : (scan none (Text.lines (spell headerTag purposeAttribute [] ['\n'] ++
      spell identifierTag uniqueidAttribute [] []))).toOption.map Scan.uniqueId =
        some (some ['5']) := by decide +kernel
  have htogether : (scan none (Text.lines (spell headerTag purposeAttribute [] [] ++
      spell identifierTag uniqueidAttribute [] []))).toOption.map Scan.uniqueId = some none := by
    decide +kernel
  rcases hsame with ⟨death, hdeath, -⟩ | ⟨s₁, s₂, h₁, h₂, huniqueId, -⟩
  · rw [hdeath] at hapart
    cases hapart
  · rw [h₁] at hapart
    rw [h₂] at htogether
    have hapart' : s₁.uniqueId = some ['5'] := Option.some.inj hapart
    have htogether' : s₂.uniqueId = none := Option.some.inj htogether
    rw [hapart', htogether'] at huniqueId
    cases huniqueId

end Package
end TdsAdmin
