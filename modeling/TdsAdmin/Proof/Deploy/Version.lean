import TdsAdmin.Deploy.Job

/-!
# Reading the version off the name of a file

The job cuts the version out of `ARTIFACT-VERSION.war` by removing what looks like the artifact and
what looks like `.war`, wherever that is found. Since the first ends in a dash and no match of
either reaches across the end of the version, what is left is what `sed` leaves of the version
itself (`readVersion_eq`), and that is the version when it matches neither (`readVersion_iff`).
-/

set_option autoImplicit false

namespace TdsAdmin
namespace Deploy

/-! ## Matches do not reach across -/

theorem matchesHere_snoc {d : Char} (hd : d ≠ '.') : ∀ {regexp s : Text},
    Sed.matchesHere (regexp ++ [d]) s = true → s[regexp.length]? = some d
  | [], [], h => by simp at h
  | [], c :: s, h => by simpa [hd] using h
  | e :: regexp, [], h => by simp at h
  | e :: regexp, c :: s, h => by
    rw [List.cons_append, Sed.matchesHere_cons, Bool.and_eq_true] at h
    simpa using matchesHere_snoc hd h.2

/-- A regular expression that ends in a dash does not match into a text without one. -/
theorem matchesHere_dash {v : Text} (hv : '-' ∉ v) (regexp t : Text) :
    Sed.matchesHere (regexp ++ ['-']) (t ++ v) = Sed.matchesHere (regexp ++ ['-']) t := by
  by_cases hlength : (regexp ++ ['-']).length ≤ t.length
  · exact Sed.matchesHere_append hlength v
  · have hshort : t.length ≤ regexp.length := by
      rw [List.length_append, List.length_singleton, not_le] at hlength
      exact Nat.lt_succ_iff.mp hlength
    have hleft : Sed.matchesHere (regexp ++ ['-']) (t ++ v) = false := by
      rw [← Bool.not_eq_true]
      intro h
      have hat := matchesHere_snoc (by decide) h
      rw [List.getElem?_append_right hshort] at hat
      exact hv (List.mem_of_getElem? hat)
    have hright : Sed.matchesHere (regexp ++ ['-']) t = false := by
      rw [← Bool.not_eq_true]
      intro h
      exact hlength (Sed.length_le_of_matchesHere h)
    rw [hleft, hright]

/-- Nor does `.war` match into another one. -/
theorem matchesHere_war : ∀ {t : Text}, t ≠ [] →
    Sed.matchesHere ".war".toList (t ++ ".war".toList) = Sed.matchesHere ".war".toList t
  | [], h => absurd rfl h
  | [a], _ => by simp
  | [a, b], _ => by simp
  | [a, b, c], _ => by simp
  | a :: b :: c :: d :: t, _ => Sed.matchesHere_append (by simp) ".war".toList

/-! ## What is left -/

/-- A version in which `sed` finds nothing to remove. -/
structure Clean (id version : Name) : Prop where
  artifact : Sed.Clear (id.text ++ ['-']) version.text
  war : Sed.Clear ".war".toList version.text

variable {id file version : Name}

theorem erase_id (hfile : file.text = fileName id version ++ ".war".toList) :
    Sed.erase (id.text ++ ['-']) file.text
      = Sed.erase (id.text ++ ['-']) version.text ++ ".war".toList := by
  have hne : id.text ++ ['-'] ≠ [] := by simp
  have hdash : '-' ∉ ".war".toList := by simp
  have hfile : file.text = (id.text ++ ['-']) ++ (version.text ++ ".war".toList) := by
    simp [hfile, fileName]
  have hdrop : file.text.drop (id.text ++ ['-']).length = version.text ++ ".war".toList := by
    rw [hfile]
    exact List.drop_left
  have hstart : Sed.matchesHere (id.text ++ ['-']) file.text = true := by
    rw [hfile]
    exact Sed.matchesHere_self _ _
  have hwar : Sed.erase (id.text ++ ['-']) ".war".toList = ".war".toList := by
    rw [Sed.erase_eq_iff]
    intro u hu _
    rw [← List.nil_append u, matchesHere_dash (fun h => hdash (hu.subset h))]
    cases id.text <;> simp
  rw [Sed.erase_found hne hstart, hdrop,
    Sed.erase_append hne fun t _ _ => matchesHere_dash hdash id.text t, hwar]

theorem readVersion_eq (hfile : file.text = fileName id version ++ ".war".toList) :
    (readVersion id file).text
      = Sed.erase ".war".toList (Sed.erase (id.text ++ ['-']) version.text) := by
  have hne : ".war".toList ≠ [] := by simp
  have hend : Sed.erase ".war".toList ".war".toList = [] := by
    rw [Sed.erase_found hne (by simp)]
    rfl
  show Sed.erase ".war".toList (Sed.erase (id.text ++ ['-']) file.text) = _
  rw [erase_id hfile, Sed.erase_append hne fun t _ ht => matchesHere_war ht, hend,
    List.append_nil]

/-- **The version is read exactly when nothing in it looks like the artifact or like `.war`.** -/
theorem readVersion_iff (hfile : file.text = fileName id version ++ ".war".toList) :
    (readVersion id file).text = version.text ↔ Clean id version := by
  rw [readVersion_eq hfile]
  constructor
  · intro h
    -- the first pass cannot have removed anything, since the second only removes more
    have hfirst := Sed.eraseFrom_sublist (id.text ++ ['-']) 0 version.text
    have hsecond := Sed.eraseFrom_sublist ".war".toList 0
      (Sed.erase (id.text ++ ['-']) version.text)
    have hkept : Sed.erase (id.text ++ ['-']) version.text = version.text := by
      apply hfirst.eq_of_length_le
      calc version.text.length
          = (Sed.erase ".war".toList (Sed.erase (id.text ++ ['-']) version.text)).length := by
            rw [h]
        _ ≤ (Sed.erase (id.text ++ ['-']) version.text).length := hsecond.length_le
    rw [hkept] at h
    exact ⟨Sed.erase_eq_iff.mp hkept, Sed.erase_eq_iff.mp h⟩
  · intro h
    rw [Sed.erase_eq_iff.mpr h.artifact, Sed.erase_eq_iff.mpr h.war]

/-- The file that is packed has the name it is looked for by exactly when the version is read. -/
theorem entry_iff (hfile : file.text = fileName id version ++ ".war".toList) :
    file.text = fileName id (readVersion id file) ++ ".war".toList ↔ Clean id version := by
  rw [← readVersion_iff hfile, hfile, List.append_left_inj, fileName, fileName,
    List.append_right_inj, List.cons_inj_right]
  exact eq_comm

end Deploy
end TdsAdmin
