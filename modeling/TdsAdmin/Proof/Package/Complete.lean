import TdsAdmin.Lib.Markup
import TdsAdmin.Proof.Package.Encoding
import TdsAdmin.Proof.Package.Outline

/-!
# What is uploaded

The insert command is run for every file that does not make the script die: the scanner's state
at the end of the file is never looked at. `sent_iff` says exactly when a record is sent and
which; `uploads_complete_iff` says for which files that record is complete.
-/

set_option autoImplicit false

namespace TdsAdmin
namespace Package

/-! ## When a record is sent -/

theorem prepare_ok_iff {σ : Type} {e : Session} {z : Deflater σ} {filePath : Text}
    {file : Option Text} {d : Data} : prepare e z filePath file = .ok d ↔
      ∃ content s encoded, file = some content ∧ scan e.tenantId (Text.lines content) = .ok s ∧
        encodeTestPackage z s.testPackage = .ok encoded ∧ d = buildData e s encoded := by
  cases file with
  | none => simp [prepare]
  | some content =>
    cases hs : scan e.tenantId (Text.lines content) with
    | error death => simp [prepare, hs, bind, Except.bind]
    | ok s =>
      cases he : encodeTestPackage z s.testPackage with
      | error death => simp [prepare, hs, he, bind, Except.bind]
      | ok encoded => simp [prepare, hs, he, bind, Except.bind, pure, Except.pure, eq_comm]

/-- One record is sent for a file, and only by a run that is told to. -/
theorem sent_iff {σ : Type} {e : Session} {z : Deflater σ} {filePath : Text}
    {file : Option Text} {d : Data} : (processXmlFile e z filePath file).sent = some d ↔
      e.executeParam = true ∧ isXmlPath filePath = true ∧ prepare e z filePath file = .ok d := by
  unfold processXmlFile
  cases isXmlPath filePath with
  | false => simp
  | true =>
    cases prepare e z filePath file with
    | error death => simp
    | ok data => cases e.executeParam <;> simp

/-- A compressor that answers every call. -/
theorem shortStream_encodes (testPackage : List Text) :
    ∃ encoded, encodeTestPackage shortStream testPackage = .ok encoded := by
  have hlines : ∀ (ls : List Text), ∃ ps, shortStream.linePieces () ls = some (ps, ()) := by
    intro ls
    induction ls with
    | nil => exact ⟨[], rfl⟩
    | cons l ls ih =>
      obtain ⟨ps, hps⟩ := ih
      refine ⟨[0x78, 0x9c] :: ps, ?_⟩
      rw [Deflater.linePieces, show shortStream.deflate () l = some ([0x78, 0x9c], ()) from rfl,
        Option.bind_some, hps]
      rfl
  obtain ⟨ps, hps⟩ := hlines testPackage
  have hpieces : ∃ qs, shortStream.pieces testPackage = some qs :=
    ⟨_, by
      rw [Deflater.pieces, show shortStream.init = some () from rfl, Option.bind_some, hps]
      rfl⟩
  obtain ⟨qs, hqs⟩ := hpieces
  exact ⟨_, encodeTestPackage_eq hqs⟩

/-! ## Complete records -/

/-- The file has a `<testspecification>` whose purpose is `registration`. -/
def HasRegistration (content : Text) : Prop :=
  ∃ (tag : Markup.Tag) (text : Text), Markup.TagText tag text ∧ text <:+: content ∧
    tag.name = "testspecification".toList ∧ ∃ a ∈ tag.attributes,
      a.name = "purpose".toList ∧ Text.lower a.value = "registration".toList

/-- The file the record comes from is a registration package that was read to the end, and
nothing is missing from the record. -/
structure Complete (e : Session) (filePath content : Text) (d : Data) : Prop where
  path : ".xml".toList <:+ Text.lower filePath
  element : HasRegistration content
  scanned : ∃ s, scan e.tenantId (Text.lines content) = .ok s ∧ s.state = .registration
  name : d.name.isSome
  label : d.label.isSome
  version : d.version.isSome
  subjectName : d.subjectName.isSome
  subjectAbbreviation : d.subjectAbbreviation.isSome
  type : d.type.isSome

/-- Whatever is sent for the file, by whatever compressor, is complete. -/
def UploadsComplete (e : Session) (filePath : Text) (file : Option Text) : Prop :=
  ∀ (σ : Type) (z : Deflater σ) (d : Data), (processXmlFile e z filePath file).sent = some d →
    ∃ content, file = some content ∧ Complete e filePath content d

/-- The outline has what the record needs: a unique id on the identifier line and a subject. -/
def Registered.Filled {t : Option Text} {lines : List Text} (R : Registered t lines) : Prop :=
  ((attributePattern "uniqueid".toList).first R.identifier.item).isSome ∧
    ∃ l ∈ R.properties, (subjectValue l).isSome

/-- Nothing is sent, or the path ends in `.xml` and the file has the element and an outline in
which nothing is missing. -/
def Uploadable (e : Session) (filePath : Text) (file : Option Text) : Prop :=
  e.executeParam = false ∨ isXmlPath filePath = false ∨ file = none ∨
    ∃ content, file = some content ∧ (Rejected e.tenantId (Text.lines content) ∨
      ".xml".toList <:+ Text.lower filePath ∧ HasRegistration content ∧
        ∃ R : Registered e.tenantId (Text.lines content), R.Filled)

theorem getLast?_isSome {α β : Type} {f : α → Option β} {l : List α} :
    (l.filterMap f).getLast?.isSome ↔ ∃ a ∈ l, (f a).isSome := by
  rw [List.getLast?_isSome, ne_eq, List.filterMap_eq_nil_iff]
  simp only [not_forall, Option.isSome_iff_ne_none, ne_eq, exists_prop]

namespace Registered

variable {t : Option Text} {lines : List Text} (R : Registered t lines)

theorem final_testVersion : R.final.testVersion = some (testVersionOf R.identifier.item) := rfl

/-- A label is always set with a unique id: a failed match of `label` leaves the unique id. -/
theorem final_testLabel_isSome (h : R.final.uniqueId.isSome) : R.final.testLabel.isSome := by
  have hlabel : R.final.testLabel
      = ((attributePattern "label".toList).first R.identifier.item).or R.final.uniqueId := rfl
  rw [hlabel, Option.isSome_or, h, Bool.or_true]

theorem final_subject_iff (f : Text × Text → Text) :
    ((R.properties.filterMap subjectPair).getLast?.map f).isSome ↔
      ∃ l ∈ R.properties, (subjectValue l).isSome := by
  rw [Option.isSome_map, getLast?_isSome]
  refine exists_congr fun l => and_congr_right fun hl => ?_
  cases hs : subjectValue l with
  | none => simp [subjectPair, hs]
  | some v =>
    have hknown := R.subjects l hl v hs
    simpa [subjectPair, hs] using hknown

theorem final_testType_isSome : R.final.testType.isSome := by
  obtain ⟨l, hl, ht⟩ := R.type
  rw [R.final_testType, Option.isSome_or, Bool.or_eq_true, getLast?_isSome]
  rcases List.mem_append.mp hl with hl | hl
  · exact Or.inr ⟨l, hl, ht⟩
  · exact Or.inl (List.mem_singleton.mp hl ▸ ht)

/-- The record made of the outline has every value exactly when the outline is filled. -/
theorem filled_iff : R.Filled ↔ R.final.uniqueId.isSome ∧ R.final.testLabel.isSome ∧
    R.final.testVersion.isSome ∧ R.final.testSubjectName.isSome ∧
    R.final.testSubjectAbbreviation.isSome ∧ R.final.testType.isSome := by
  rw [Filled, ← R.final_uniqueId, R.final_testSubjectName, R.final_testSubjectAbbreviation,
    R.final_subject_iff, R.final_subject_iff, R.final_testVersion]
  constructor
  · rintro ⟨hid, hs⟩
    exact ⟨hid, R.final_testLabel_isSome hid, rfl, hs, hs, R.final_testType_isSome⟩
  · rintro ⟨hid, -, -, hs, -, -⟩
    exact ⟨hid, hs⟩

end Registered

/-- **What a run sends is complete exactly when nothing is sent, or the file ends in `.xml`, is
a registration package and has an outline with an id and a subject.** -/
theorem uploads_complete_iff (e : Session) (filePath : Text) (file : Option Text) :
    UploadsComplete e filePath file ↔ Uploadable e filePath file := by
  constructor
  · intro h
    cases hexec : e.executeParam with
    | false => exact Or.inl hexec
    | true =>
      cases hxml : isXmlPath filePath with
      | false => exact Or.inr (Or.inl hxml)
      | true =>
        cases file with
        | none => exact Or.inr (Or.inr (Or.inl rfl))
        | some content =>
          refine Or.inr (Or.inr (Or.inr ⟨content, rfl, ?_⟩))
          -- a file that is read to the end is sent, by a compressor that does not fail
          have hsent : ∀ s, scan e.tenantId (Text.lines content) = .ok s →
              ∃ d, Complete e filePath content d ∧ ∃ encoded, d = buildData e s encoded := by
            intro s hs
            obtain ⟨encoded, henc⟩ := shortStream_encodes s.testPackage
            have hprep : prepare e shortStream filePath (some content)
                = .ok (buildData e s encoded) :=
              prepare_ok_iff.mpr ⟨content, s, encoded, rfl, hs, henc, rfl⟩
            obtain ⟨content', hc, hcomplete⟩ := h Unit shortStream _
              (sent_iff.mpr ⟨hexec, hxml, hprep⟩)
            cases hc
            exact ⟨_, hcomplete, encoded, rfl⟩
          rcases scan_cases e.tenantId (Text.lines content) with hrej | ⟨⟨R⟩⟩ | ⟨s, hs, hstate⟩
          · exact Or.inl hrej
          · obtain ⟨d, hcomplete, encoded, rfl⟩ := hsent _ R.scan
            exact Or.inr ⟨hcomplete.path, hcomplete.element, R, R.filled_iff.mpr
              ⟨hcomplete.name, hcomplete.label, hcomplete.version, hcomplete.subjectName,
                hcomplete.subjectAbbreviation, hcomplete.type⟩⟩
          · obtain ⟨d, hcomplete, -⟩ := hsent s hs
            obtain ⟨s', hs', hstate'⟩ := hcomplete.scanned
            rw [hs, Except.ok.injEq] at hs'
            exact absurd (hs' ▸ hstate') hstate
  · intro h σ z d hd
    obtain ⟨hexec, hxml, hprep⟩ := sent_iff.mp hd
    obtain ⟨content, s, encoded, rfl, hs, -, rfl⟩ := prepare_ok_iff.mp hprep
    rcases h with h | h | h | ⟨content', hc, hrej | ⟨hpath, helement, R, hfilled⟩⟩
    · exact absurd hexec (by simp [h])
    · exact absurd hxml (by simp [h])
    · cases h
    · cases hc
      obtain ⟨death, hdeath⟩ := hrej.scan
      rw [hs] at hdeath
      cases hdeath
    · cases hc
      rw [R.scan, Except.ok.injEq] at hs
      subst hs
      obtain ⟨hid, hlabel, hversion, hname, habbr, htype⟩ := R.filled_iff.mp hfilled
      exact ⟨content, rfl, hpath, helement, ⟨R.final, R.scan, rfl⟩, hid, hlabel, hversion, hname,
        habbr, htype⟩

/-- An empty file is uploaded with nothing in it. -/
theorem empty_file_uploaded : ¬ ∀ (e : Session) (filePath : Text) (file : Option Text),
    UploadsComplete e filePath file := by
  intro h
  have hsent : ((processXmlFile shortSession shortStream "a.xml".toList (some [])).sent.map
      Data.name) = some none := by decide +kernel
  obtain ⟨d, hd, hname⟩ := Option.map_eq_some_iff.mp hsent
  obtain ⟨content, -, hcomplete⟩ := h shortSession "a.xml".toList (some []) Unit shortStream d hd
  exact absurd hcomplete.name (by rw [hname]; decide)

end Package
end TdsAdmin
