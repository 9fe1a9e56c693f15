import TdsAdmin.Proof.Portal.Publish

/-!
# When the row of a component is its own

A property counts for a component if its key holds the name of the component anywhere, with the
spaces left out. So the properties of another component count as well where its name, or one of the
endings behind it, holds that name; and any key that holds `iconRelativePath` sets the path in
every row. Otherwise the rows of a component do not depend on the properties of the other one
(`row_own`).
-/

set_option autoImplicit false

namespace TdsAdmin
namespace Portal

/-! ## Who a property belongs to -/

def endings : List Text := [".url".toList, ".displayname".toList, ".icon".toList]

/-- The key of a property. -/
def keyOf (property : Datum) : Text := ((property.get "propertyKey".toList).getD .undef).text

/-- The key is built from the name of the component. -/
def belongsTo (D : Text) (property : Datum) : Bool :=
  endings.any fun e => keyOf property == noSpaces D ++ e

/-- The properties that do not belong to the component. -/
def others (D : Text) (properties : List Datum) : List Datum :=
  properties.filter (!belongsTo D ·)

/-! ## The rows of a component -/

/-- The names of the components, as far as the loop comes. -/
def namesOf : List Datum → List Text
  | [] => []
  | c :: rest =>
      match c.get "component".toList with
      | none => []
      | some component => component.text :: namesOf rest

/-- The role and the component of each row. -/
def visited : List Datum → List (Text × Text)
  | [] => []
  | r :: rest =>
      match r.get "role".toList, mappingsOf r with
      | some role, some components =>
          (namesOf components).map (Prod.mk role.text) ++
            if components.all Datum.isRecord then visited rest else []
      | _, _ => []

/-- The rows that are written for a component. -/
def rowsFor (C : Text) (p : Prepared) : List Text :=
  (((visited p.roles).zip (rolesLoop p.properties p.icon_path p.roles).rows).filter
    fun x => x.1.2 == C).map Prod.snd

/-- The rows of `C` are the same whatever properties of `D` there are, and wherever. -/
def Independent (C D : Text) : Prop :=
  ∀ (r r' : Responses) (p p' : Prepared), prepare r = some p → prepare r' = some p' →
    p.roles = p'.roles → others D p.properties = others D p'.properties →
    rowsFor C p = rowsFor C p'

/-- No key of `D` is taken for one of `C`, or for that of the path. -/
def Foreign (C D : Text) : Prop :=
  ∀ e ∈ endings, ¬ noSpaces C <:+: noSpaces D ++ e ∧ ¬ icon_relative_path <:+: noSpaces D ++ e

/-! ## What the loops write -/

section Loops

variable (properties : List Datum) (icon_path : Text)

theorem componentsLoop_written (role : Text) (components : List Datum) :
    (componentsLoop properties icon_path role components).rows =
      (namesOf components).map (row properties icon_path role) := by
  induction components with
  | nil => rfl
  | cons c rest ih =>
    rw [componentsLoop, namesOf]
    cases c.get "component".toList with
    | none => rfl
    | some component =>
      show [_] ++ (componentsLoop properties icon_path role rest).rows = _
      rw [ih]
      rfl

/-- **The loops write a row for each component they come to, and which these are does not depend on
the properties.** -/
theorem rolesLoop_written (roles : List Datum) :
    (rolesLoop properties icon_path roles).rows =
      (visited roles).map fun x => row properties icon_path x.1 x.2 := by
  induction roles with
  | nil => rfl
  | cons r rest ih =>
    rw [rolesLoop, visited, ← mappingsOf]
    cases r.get "role".toList with
    | none => rfl
    | some role =>
      cases mappingsOf r with
      | none => rfl
      | some components =>
        have hrows := componentsLoop_written properties icon_path role.text components
        have hdied := componentsLoop_died properties icon_path role.text components
        show (Output.andThen _ _).rows = List.map _ (_ ++ _)
        rw [Output.andThen, List.map_append, List.map_map]
        by_cases hall : components.all Datum.isRecord = true
        · rw [if_neg, if_pos hall, hrows, ih]
          · rfl
          · intro h
            obtain ⟨c, hc, hother⟩ := hdied.mp h
            rw [List.all_eq_true.mp hall c hc] at hother
            cases hother
        · rw [if_pos, if_neg hall, hrows]
          · exact (List.append_nil _).symm
          · obtain ⟨c, hc, hother⟩ := List.all_eq_false.mp (Bool.not_eq_true _ ▸ hall)
            exact hdied.mpr ⟨c, hc, Bool.not_eq_true _ ▸ hother⟩

end Loops

theorem rowsFor_eq (C : Text) (p : Prepared) : rowsFor C p =
    ((visited p.roles).filter fun x => x.2 == C).map fun x =>
      row p.properties p.icon_path x.1 C := by
  unfold rowsFor
  rw [rolesLoop_written]
  induction visited p.roles with
  | nil => rfl
  | cons x rest ih =>
    rw [List.map_cons, List.zip_cons_cons, List.filter_cons, List.filter_cons]
    by_cases hx : (x.2 == C) = true
    · rw [if_pos hx, if_pos hx, List.map_cons, List.map_cons, ih, beq_iff_eq.mp hx]
    · rw [if_neg hx, if_neg hx, ih]

/-! ## Properties that do not count -/

section Skipped

variable {C D : Text}

/-- What is known of a property of `D`. -/
theorem belongsTo_key {property : Datum} (h : belongsTo D property = true) :
    ∃ e ∈ endings, keyOf property = noSpaces D ++ e := by
  obtain ⟨e, he, hkey⟩ := List.any_eq_true.mp h
  exact ⟨e, he, beq_iff_eq.mp hkey⟩

/-- A property with a key is a record. -/
theorem belongsTo_record {property : Datum} (h : belongsTo D property = true) :
    property.isRecord = true := by
  obtain ⟨e, he, hkey⟩ := belongsTo_key h
  rw [← Datum.get_isSome property "propertyKey".toList]
  cases hget : property.get "propertyKey".toList with
  | some key => rfl
  | none =>
    unfold keyOf at hkey
    rw [hget] at hkey
    -- an ending is not empty
    have hempty : e = [] := (List.append_eq_nil_iff.mp hkey.symm).2
    rw [hempty] at he
    exact absurd he (by decide)

theorem propertyFor_others (h : ∀ e ∈ endings, ¬ noSpaces C <:+: noSpaces D ++ e)
    (properties : List Datum) (ending : Text) :
    propertyFor properties (noSpaces C) ending =
      propertyFor (others D properties) (noSpaces C) ending := by
  unfold propertyFor others
  generalize ([] : Text) = found
  induction properties generalizing found with
  | nil => rfl
  | cons property rest ih =>
    cases hown : belongsTo D property with
    | false =>
      rw [List.filter_cons_of_pos (by rw [hown]; rfl), List.foldl_cons, List.foldl_cons, ih]
    | true =>
      obtain ⟨e, he, hkey⟩ := belongsTo_key hown
      have hnot : Text.has (noSpaces C) (keyOf property) = false := by
        rw [hkey]
        exact Text.has_eq_false.mpr (h e he)
      rw [List.filter_cons_of_neg (by rw [hown]; exact Bool.false_ne_true), List.foldl_cons, ih]
      show List.foldl _ (if (Text.has (noSpaces C) (keyOf property) && _) = true then _ else found)
        _ = _
      rw [hnot, Bool.false_and, if_neg Bool.false_ne_true]

theorem iconPath_others (h : ∀ e ∈ endings, ¬ icon_relative_path <:+: noSpaces D ++ e)
    (properties : List Datum) : iconPath properties = iconPath (others D properties) := by
  unfold iconPath others
  generalize "not_found".toList = path
  induction properties generalizing path with
  | nil => rfl
  | cons property rest ih =>
    cases hown : belongsTo D property with
    | false =>
      rw [List.filter_cons_of_pos (by rw [hown]; rfl), List.foldlM_cons, List.foldlM_cons]
      exact congrArg _ (funext ih)
    | true =>
      obtain ⟨e, he, hkey⟩ := belongsTo_key hown
      have hrecord := belongsTo_record hown
      obtain ⟨key, hgetkey⟩ := Option.isSome_iff_exists.mp
        ((Datum.get_isSome property "propertyKey".toList).trans hrecord)
      obtain ⟨value, hgetvalue⟩ := Option.isSome_iff_exists.mp
        ((Datum.get_isSome property "propertyValue".toList).trans hrecord)
      have hnot : keyHas icon_relative_path property = some false := by
        unfold keyOf at hkey
        rw [hgetkey] at hkey
        unfold keyHas
        rw [hgetkey, Option.map_some]
        exact congrArg some (Text.has_eq_false.mpr (hkey ▸ h e he))
      rw [List.filter_cons_of_neg (by rw [hown]; exact Bool.false_ne_true), List.foldlM_cons,
        ← ih, hnot, hgetvalue]
      rfl

end Skipped

theorem prepare_iconPath {r : Responses} {p : Prepared} (h : prepare r = some p) :
    iconPath p.properties = some p.icon_path := by
  simp only [prepare, Option.bind_eq_bind, Option.bind_eq_some_iff] at h
  obtain ⟨_, -, _, -, _, -, _, -, _, -, properties, -, path, hpath, _, -, _, -, roles, -, hp⟩ := h
  cases hp
  exact hpath

/-- **The rows of a component do not depend on the properties of a foreign one.** -/
theorem row_own {C D : Text} (h : Foreign C D) : Independent C D := by
  intro r r' p p' hp hp' hroles hothers
  have hpath : p.icon_path = p'.icon_path := by
    have hicon : ∀ e ∈ endings, ¬ icon_relative_path <:+: noSpaces D ++ e := fun e he => (h e he).2
    apply Option.some.inj
    rw [← prepare_iconPath hp, ← prepare_iconPath hp', iconPath_others hicon, hothers,
      ← iconPath_others hicon]
  have hproperty : ∀ ending, propertyFor p.properties (noSpaces C) ending =
      propertyFor p'.properties (noSpaces C) ending := by
    intro ending
    have hname : ∀ e ∈ endings, ¬ noSpaces C <:+: noSpaces D ++ e := fun e he => (h e he).1
    rw [propertyFor_others hname, hothers, ← propertyFor_others hname]
  rw [rowsFor_eq, rowsFor_eq, hroles]
  refine List.map_congr_left fun x _ => ?_
  rw [row, row, hproperty, hproperty, hproperty, hpath]

/-! ## Properties that count -/

/-- A run with one component and no role name. -/
def answers (C : Text) (properties : List Datum) : Responses where
  token := some (.hash [])
  component := some (.hash [("properties".toList, .array properties)])
  mapping := some (.hash [("value".toList, .hash [("roles".toList, .array [.hash
    [("mappings".toList, .array [.hash [("component".toList, .scalar C)]])]])])])

/-- A property with the value `x`. -/
def property (key : Text) : Datum :=
  .hash [("propertyKey".toList, .scalar key), ("propertyValue".toList, .scalar ['x'])]

theorem propertyFor_one (key component ending : Text) :
    propertyFor [property key] component ending =
      if Text.has component key && endsWith ending key then ['x'] else [] := rfl

theorem iconPath_one (key : Text) : iconPath [property key] =
    some (if Text.has icon_relative_path key then ['x'] else "not_found".toList) := rfl

theorem prepare_answers (C : Text) {properties : List Datum} {path : Text}
    (h : iconPath properties = some path) : ∃ p, prepare (answers C properties) = some p ∧
      p.properties = properties ∧ p.roles = [.hash
        [("mappings".toList, .array [.hash [("component".toList, .scalar C)]])]] ∧
      rowsFor C p = [row properties path [] C] := by
  refine ⟨⟨properties, path, _⟩, ?_, rfl, rfl, ?_⟩
  · show (iconPath properties).bind _ = _
    rw [h]
    rfl
  · rw [rowsFor_eq]
    have hvisited : [(([] : Text), C)].filter (fun x => x.2 == C) = [([], C)] :=
      List.filter_cons_of_pos (beq_self_eq_true C)
    show List.map _ ([(([] : Text), C)].filter fun x => x.2 == C) = _
    rw [hvisited]
    rfl

theorem row_length (properties : List Datum) (path role component : Text) :
    (row properties path role component).length = role.length + component.length + 5 +
      (propertyFor properties (noSpaces component) ".displayname".toList).length +
      (propertyFor properties (noSpaces component) ".url".toList).length + path.length +
      (propertyFor properties (noSpaces component) ".icon".toList).length := by
  unfold row
  simp only [List.length_append, List.length_cons, List.length_nil]
  omega

theorem propertyFor_length (key component ending : Text) :
    (propertyFor [property key] component ending).length ≤ 1 := by
  rw [propertyFor_one]
  split
  · exact Nat.le_refl 1
  · exact Nat.zero_le 1

/-- The property of a key that holds the name of the component is in its row. -/
theorem propertyFor_found {component key : Text} (D : Text) {e : Text}
    (hkey : key = D ++ e) (h : component <:+: key) :
    (propertyFor [property key] component e).length = 1 := by
  have hends : endsWith e key = true := by
    rw [endsWith, Bool.or_eq_true, List.isSuffixOf_iff_suffix, hkey]
    exact Or.inl (List.suffix_append D e)
  rw [propertyFor_one, Text.has_iff.mpr h, hends]
  rfl

/-- One property of `D` that is taken for one of `C`, or for the path, shows in the row. -/
theorem row_changed {C D e : Text} (he : e ∈ endings)
    (h : noSpaces C <:+: noSpaces D ++ e ∨ icon_relative_path <:+: noSpaces D ++ e) :
    ¬ Independent C D := by
  intro hsame
  obtain ⟨p, hp, hproperties, hroles, hrows⟩ := @prepare_answers C [] _ rfl
  obtain ⟨p', hp', hproperties', hroles', hrows'⟩ :=
    prepare_answers C (iconPath_one (noSpaces D ++ e))
  have hown : belongsTo D (property (noSpaces D ++ e)) = true :=
    List.any_eq_true.mpr ⟨e, he, beq_iff_eq.mpr rfl⟩
  have hothers : others D p.properties = others D p'.properties := by
    rw [hproperties, hproperties', others, others,
      List.filter_cons_of_neg (by rw [hown]; exact Bool.false_ne_true)]
  have hrow := hsame _ _ p p' hp hp' (hroles.trans hroles'.symm) hothers
  rw [hrows, hrows'] at hrow
  -- the two rows do not even have the same length
  have hlength := congrArg List.length (List.cons.inj hrow).1
  rw [row_length, row_length] at hlength
  have hnone : ∀ ending, (propertyFor [] (noSpaces C) ending).length = 0 := fun _ => rfl
  have hfound : "not_found".toList.length = 9 := rfl
  rw [hnone, hnone, hnone, hfound] at hlength
  have hdisplayname := propertyFor_length (noSpaces D ++ e) (noSpaces C) ".displayname".toList
  have hurl := propertyFor_length (noSpaces D ++ e) (noSpaces C) ".url".toList
  have hicon := propertyFor_length (noSpaces D ++ e) (noSpaces C) ".icon".toList
  cases hpath : Text.has icon_relative_path (noSpaces D ++ e) with
  | true =>
    rw [hpath, if_pos rfl, List.length_singleton] at hlength
    omega
  | false =>
    rw [hpath, if_neg Bool.false_ne_true, hfound] at hlength
    have hname := h.resolve_right (Text.has_eq_false.mp hpath)
    have hone := propertyFor_found (noSpaces D) rfl hname
    simp only [endings, List.mem_cons, List.not_mem_nil, or_false] at he
    rcases he with rfl | rfl | rfl
    · omega
    · omega
    · omega

/-- **The rows of a component depend on no property of another one exactly when none of the keys of
that one is taken for its own, or for the key of the path.** -/
theorem row_independent_iff (C D : Text) : Independent C D ↔ Foreign C D := by
  constructor
  · intro h e he
    refine ⟨fun hname => ?_, fun hpath => ?_⟩
    · exact row_changed he (Or.inl hname) h
    · exact row_changed he (Or.inr hpath) h
  · exact row_own

/-- `Test` is a part of `Test Bank`. -/
theorem test_bank_in_row : ¬ ∀ C D : Text, C ≠ D → Independent C D := by
  intro h
  have hname : noSpaces "Test".toList <:+: noSpaces "Test Bank".toList ++ ".url".toList :=
    ⟨[], "Bank.url".toList, rfl⟩
  exact row_changed List.mem_cons_self (Or.inl hname) (h _ _ (by decide))

end Portal
end TdsAdmin
