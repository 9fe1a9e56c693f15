import TdsAdmin.Portal.Mapping

/-!
# When a failed dump is published

The driver looks at the size of the file, and the file has a row in it as soon as one component has
been written. So a dump that dies is published unless it dies before its first row: in the roles,
that is, nothing may come in front of the one that it cannot read but roles without components
(`rolesLoop_no_rows`).
-/

set_option autoImplicit false

namespace TdsAdmin
namespace Portal

/-! ## The roles -/

/-- The components of a role, if it has a list of them. -/
def mappingsOf (role : Datum) : Option (List Datum) :=
  (role.get "mappings".toList).bind Datum.asArray

/-- The script can read the role: it has a list of components, and each of them is a record. -/
def Sound (role : Datum) : Prop :=
  ∃ components, mappingsOf role = some components ∧ ∀ c ∈ components, c.isRecord = true

/-- The script dies at the role before it has written a component of it. -/
def FailsAtOnce (role : Datum) : Prop :=
  mappingsOf role = none ∨ ∃ c rest, mappingsOf role = some (c :: rest) ∧ c.isRecord = false

/-- In front of a role at which the script dies at once there are only roles without components. -/
def FailsUnwritten (roles : List Datum) : Prop :=
  ∃ before role after, roles = before ++ role :: after ∧
    (∀ x ∈ before, mappingsOf x = some []) ∧ FailsAtOnce role

section Loops

variable (properties : List Datum) (icon_path role : Text)

theorem componentsLoop_record {c : Datum} (h : c.isRecord = true) (rest : List Datum) :
    ∃ text, componentsLoop properties icon_path role (c :: rest) =
      Output.andThen ⟨[row properties icon_path role text], false⟩
        (componentsLoop properties icon_path role rest) := by
  rw [← Datum.get_isSome c "component".toList] at h
  obtain ⟨component, hcomponent⟩ := Option.isSome_iff_exists.mp h
  refine ⟨component.text, ?_⟩
  rw [componentsLoop, hcomponent]

theorem componentsLoop_other {c : Datum} (h : c.isRecord = false) (rest : List Datum) :
    componentsLoop properties icon_path role (c :: rest) = ⟨[], true⟩ := by
  rw [← Datum.get_isSome c "component".toList] at h
  rw [componentsLoop, Option.isNone_iff_eq_none.mp (Option.isSome_eq_false_iff.mp h)]

theorem componentsLoop_died (components : List Datum) :
    (componentsLoop properties icon_path role components).died = true ↔
      ∃ c ∈ components, c.isRecord = false := by
  induction components with
  | nil => simp [componentsLoop]
  | cons c rest ih =>
    cases hc : c.isRecord with
    | true =>
      obtain ⟨text, hstep⟩ := componentsLoop_record properties icon_path role hc rest
      rw [hstep]
      show (componentsLoop properties icon_path role rest).died = true ↔ _
      have hgood : ¬ c.isRecord = false := by simp [hc]
      rw [ih, List.exists_mem_cons_iff, or_iff_right hgood]
    | false =>
      rw [componentsLoop_other properties icon_path role hc]
      exact iff_of_true rfl ⟨c, List.mem_cons_self, hc⟩

/-- Nothing is written of a role only if it has no component, or its first one is no record. -/
theorem componentsLoop_rows (components : List Datum) :
    (componentsLoop properties icon_path role components).rows = [] ↔
      components = [] ∨ ∃ c rest, components = c :: rest ∧ c.isRecord = false := by
  cases components with
  | nil => exact iff_of_true rfl (Or.inl rfl)
  | cons c rest =>
    cases hc : c.isRecord with
    | true =>
      obtain ⟨text, hstep⟩ := componentsLoop_record properties icon_path role hc rest
      rw [hstep]
      refine iff_of_false (List.cons_ne_nil _ _) ?_
      rintro (h | ⟨d, ds, heq, hd⟩)
      · cases h
      · obtain ⟨rfl, -⟩ := List.cons.inj heq
        rw [hc] at hd
        cases hd
    | false =>
      rw [componentsLoop_other properties icon_path role hc]
      exact iff_of_true rfl (Or.inr ⟨c, rest, rfl, hc⟩)

theorem rolesLoop_unreadable {r : Datum} (h : mappingsOf r = none) (rest : List Datum) :
    rolesLoop properties icon_path (r :: rest) = ⟨[], true⟩ := by
  rw [rolesLoop]
  split
  · rename_i hmappings
    rw [mappingsOf, hmappings] at h
    cases h
  · rfl

theorem rolesLoop_readable {r : Datum} {components : List Datum}
    (h : mappingsOf r = some components) (rest : List Datum) :
    ∃ role, rolesLoop properties icon_path (r :: rest) =
      (componentsLoop properties icon_path role components).andThen
        (rolesLoop properties icon_path rest) := by
  have hrecord : (r.get "role".toList).isSome = true := by
    rw [Datum.get_isSome, ← Datum.get_isSome r "mappings".toList]
    cases hget : r.get "mappings".toList with
    | none =>
      rw [mappingsOf, hget] at h
      cases h
    | some d => rfl
  obtain ⟨role, hrole⟩ := Option.isSome_iff_exists.mp hrecord
  refine ⟨role.text, ?_⟩
  rw [mappingsOf] at h
  rw [rolesLoop, hrole, h]

theorem sound_iff {r : Datum} {components : List Datum} (h : mappingsOf r = some components) :
    Sound r ↔ ¬ ∃ c ∈ components, c.isRecord = false := by
  constructor
  · rintro ⟨found, hfound, hall⟩ ⟨c, hc, hother⟩
    obtain rfl := Option.some.inj (h.symm.trans hfound)
    rw [hall c hc] at hother
    cases hother
  · intro hnone
    refine ⟨components, h, fun c hc => ?_⟩
    cases hrecord : c.isRecord with
    | true => rfl
    | false => exact absurd ⟨c, hc, hrecord⟩ hnone

theorem not_sound {r : Datum} (h : mappingsOf r = none) : ¬ Sound r := by
  rintro ⟨components, hsome, -⟩
  rw [h] at hsome
  cases hsome

/-- The loop dies exactly when there is a role that it cannot read. -/
theorem rolesLoop_died (roles : List Datum) :
    (rolesLoop properties icon_path roles).died = true ↔ ∃ r ∈ roles, ¬ Sound r := by
  induction roles with
  | nil => simp [rolesLoop]
  | cons r rest ih =>
    cases hmappings : mappingsOf r with
    | none =>
      rw [rolesLoop_unreadable properties icon_path hmappings]
      exact iff_of_true rfl ⟨r, List.mem_cons_self, not_sound hmappings⟩
    | some components =>
      obtain ⟨role, hstep⟩ := rolesLoop_readable properties icon_path hmappings rest
      have hdied := componentsLoop_died properties icon_path role components
      rw [hstep, Output.andThen]
      -- the loop dies in this role, or goes on behind it
      split
      · rename_i hfirst
        refine iff_of_true hfirst ⟨r, List.mem_cons_self, fun hsound => ?_⟩
        exact (sound_iff hmappings).mp hsound (hdied.mp hfirst)
      · rename_i hfirst
        have hsound : Sound r := (sound_iff hmappings).mpr (mt hdied.mpr hfirst)
        show (rolesLoop properties icon_path rest).died = true ↔ _
        rw [ih, List.exists_mem_cons_iff, or_iff_right (not_not_intro hsound)]

theorem failsUnwritten_cons {r : Datum} {rest : List Datum} : FailsUnwritten (r :: rest) ↔
    FailsAtOnce r ∨ mappingsOf r = some [] ∧ FailsUnwritten rest := by
  constructor
  · rintro ⟨before, t, after, heq, hempty, hfails⟩
    cases before with
    | nil =>
      obtain ⟨rfl, -⟩ := List.cons.inj heq
      exact Or.inl hfails
    | cons b before =>
      obtain ⟨rfl, htail⟩ := List.cons.inj heq
      exact Or.inr ⟨hempty _ List.mem_cons_self,
        before, t, after, htail, fun x hx => hempty x (List.mem_cons_of_mem _ hx), hfails⟩
  · rintro (hfails | ⟨hnone, before, t, after, rfl, hempty, hfails⟩)
    · exact ⟨[], r, rest, rfl, fun x hx => absurd hx List.not_mem_nil, hfails⟩
    · exact ⟨r :: before, t, after, rfl, List.forall_mem_cons.mpr ⟨hnone, hempty⟩, hfails⟩

/-- **The loop dies without having written a row exactly when there are only roles without
components in front of one at which it dies at once.** -/
theorem rolesLoop_no_rows (roles : List Datum) :
    (rolesLoop properties icon_path roles).died = true ∧
        (rolesLoop properties icon_path roles).rows = [] ↔
      FailsUnwritten roles := by
  induction roles with
  | nil =>
    refine iff_of_false (fun h => absurd h.1 Bool.false_ne_true) ?_
    rintro ⟨before, t, after, heq, -⟩
    simp at heq
  | cons r rest ih =>
    rw [failsUnwritten_cons]
    cases hmappings : mappingsOf r with
    | none =>
      rw [rolesLoop_unreadable properties icon_path hmappings]
      exact iff_of_true ⟨rfl, rfl⟩ (Or.inl (Or.inl hmappings))
    | some components =>
      obtain ⟨role, hstep⟩ := rolesLoop_readable properties icon_path hmappings rest
      have hdied := componentsLoop_died properties icon_path role components
      have hrows := componentsLoop_rows properties icon_path role components
      have hfails : FailsAtOnce r ↔ ∃ c rest, components = c :: rest ∧ c.isRecord = false := by
        rw [FailsAtOnce, hmappings]
        simp
      rw [hstep, hfails, Output.andThen]
      split
      · -- it dies in this role: what counts is whether it has written of it
        rename_i hfirst
        rw [and_iff_right hfirst, hrows]
        obtain ⟨c, hc, hother⟩ := hdied.mp hfirst
        constructor
        · rintro (hnone | hbad)
          · rw [hnone] at hc
            exact absurd hc List.not_mem_nil
          · exact Or.inl hbad
        · rintro (hbad | ⟨hnone, -⟩)
          · exact Or.inr hbad
          · rw [Option.some.inj hnone] at hc
            exact absurd hc List.not_mem_nil
      · -- it gets through the role, so its components were records, and nothing is written only if
        -- there were none
        rename_i hfirst
        have hgood : ¬ ∃ c rest, components = c :: rest ∧ c.isRecord = false := by
          rintro ⟨c, rest, rfl, hother⟩
          exact hfirst (hdied.mpr ⟨c, List.mem_cons_self, hother⟩)
        show (rolesLoop properties icon_path rest).died = true ∧
          (componentsLoop properties icon_path role components).rows ++
            (rolesLoop properties icon_path rest).rows = [] ↔ _
        rw [List.append_eq_nil_iff, hrows, or_iff_left hgood, or_iff_right hgood, ← ih,
          Option.some_inj]
        exact and_left_comm

theorem row_ne_nil (component : Text) : row properties icon_path role component ≠ [] :=
  List.append_ne_nil_of_right_ne_nil _ (List.cons_ne_nil _ _)

theorem mem_andThen {first next : Output} {x : Text} (h : x ∈ (first.andThen next).rows) :
    x ∈ first.rows ∨ x ∈ next.rows := by
  rw [Output.andThen] at h
  split at h
  · exact Or.inl h
  · exact List.mem_append.mp h

theorem componentsLoop_row_ne_nil (components : List Datum) :
    ∀ x ∈ (componentsLoop properties icon_path role components).rows, x ≠ [] := by
  induction components with
  | nil => intro x hx; exact absurd hx List.not_mem_nil
  | cons c rest ih =>
    intro x hx
    cases hc : c.isRecord with
    | true =>
      obtain ⟨text, hstep⟩ := componentsLoop_record properties icon_path role hc rest
      rw [hstep] at hx
      rcases mem_andThen hx with hx | hx
      · rw [List.mem_singleton.mp hx]
        exact row_ne_nil properties icon_path role text
      · exact ih x hx
    | false =>
      rw [componentsLoop_other properties icon_path role hc] at hx
      exact absurd hx List.not_mem_nil

theorem rolesLoop_row_ne_nil (roles : List Datum) :
    ∀ x ∈ (rolesLoop properties icon_path roles).rows, x ≠ [] := by
  induction roles with
  | nil => intro x hx; exact absurd hx List.not_mem_nil
  | cons r rest ih =>
    intro x hx
    cases hmappings : mappingsOf r with
    | none =>
      rw [rolesLoop_unreadable properties icon_path hmappings] at hx
      exact absurd hx List.not_mem_nil
    | some components =>
      obtain ⟨role, hstep⟩ := rolesLoop_readable properties icon_path hmappings rest
      rw [hstep] at hx
      rcases mem_andThen hx with hx | hx
      · exact componentsLoop_row_ne_nil properties icon_path role components x hx
      · exact ih x hx

/-- A row is never empty, so neither is a file with one. -/
theorem rows_flatten (roles : List Datum) :
    (rolesLoop properties icon_path roles).rows.flatten = [] ↔
      (rolesLoop properties icon_path roles).rows = [] := by
  have hrow := rolesLoop_row_ne_nil properties icon_path roles
  constructor
  · intro h
    cases hrows : (rolesLoop properties icon_path roles).rows with
    | nil => rfl
    | cons x xs =>
      rw [hrows] at h hrow
      exact absurd (List.append_eq_nil_iff.mp h).1 (hrow x List.mem_cons_self)
  · intro h
    rw [h]
    rfl

end Loops

/-! ## The driver -/

/-- The published file is as it was, and a mail has been sent. -/
def Reported (s s' : Site) : Prop :=
  s'.component_output = s.component_output ∧ s'.mails = s.mails + 1

theorem publish_reported (r : Responses) (writable : Bool) (s : Site) :
    Reported s (publish r writable s) ↔
      hasSize (((dumpComponentMapping r writable).1).or s.output_temp) = false := by
  rw [Reported, publish]
  split
  · rename_i hsize
    rw [hsize]
    refine iff_of_false (fun h => ?_) (by decide)
    exact absurd h.2 (Nat.ne_of_lt (Nat.lt_succ_self s.mails))
  · rename_i hsize
    exact iff_of_true ⟨rfl, rfl⟩ (Bool.eq_false_iff.mpr hsize)

theorem hasSize_eq_false {content : Text} : hasSize (some content) = false ↔ content = [] := by
  cases content <;> simp [hasSize]

/-- **A failed dump leaves the published file alone and is reported exactly when it fails before
the file is opened, with no old file in its place, or fails before its first row.** -/
theorem failed_dump_reported_iff (r : Responses) (writable : Bool) (s : Site) :
    ((dumpComponentMapping r writable).2 = true → Reported s (publish r writable s)) ↔
      (prepare r = none ∨ writable = false → hasSize s.output_temp = false) ∧
      ∀ p, prepare r = some p → writable = true →
        (∀ role ∈ p.roles, Sound role) ∨ FailsUnwritten p.roles := by
  rw [publish_reported, dumpComponentMapping]
  cases prepare r with
  | none =>
    -- nothing is opened, so the driver looks at the file of an earlier run
    dsimp only
    rw [Option.none_or]
    constructor
    · intro h
      exact ⟨fun _ => h rfl, fun p hp => by cases hp⟩
    · rintro ⟨h, -⟩ -
      exact h (Or.inl rfl)
  | some p =>
    cases writable with
    | false =>
      constructor
      · intro h
        exact ⟨fun _ => h rfl, fun p _ hwritable => by cases hwritable⟩
      · rintro ⟨h, -⟩ -
        exact h (Or.inr rfl)
    | true =>
      have hdied := rolesLoop_died p.properties p.icon_path p.roles
      have hunwritten := rolesLoop_no_rows p.properties p.icon_path p.roles
      have hsize : hasSize (some (rolesLoop p.properties p.icon_path p.roles).rows.flatten) =
          false ↔ (rolesLoop p.properties p.icon_path p.roles).rows = [] :=
        hasSize_eq_false.trans (rows_flatten p.properties p.icon_path p.roles)
      show ((rolesLoop p.properties p.icon_path p.roles).died = true →
        hasSize (some (rolesLoop p.properties p.icon_path p.roles).rows.flatten) = false) ↔ _
      rw [hsize]
      constructor
      · intro h
        refine ⟨fun hearly => ?_, ?_⟩
        · rcases hearly with hnone | hfalse
          · cases hnone
          · cases hfalse
        · rintro q hq -
          obtain rfl := Option.some.inj hq
          by_cases hfails : (rolesLoop p.properties p.icon_path p.roles).died = true
          · exact Or.inr (hunwritten.mp ⟨hfails, h hfails⟩)
          · left
            intro role hrole
            by_contra hother
            exact hfails (hdied.mpr ⟨role, hrole, hother⟩)
      · rintro ⟨-, h⟩ hfails
        rcases h p rfl rfl with hsound | hbefore
        · obtain ⟨role, hrole, hother⟩ := hdied.mp hfails
          exact absurd (hsound role hrole) hother
        · exact (hunwritten.mpr hbefore).2

/-- Two roles, the second without a list of components. -/
def truncatedAnswer : Responses where
  token := some (.hash [("access_token".toList, .scalar ['t'])])
  component := some (.hash [("properties".toList, .array [])])
  mapping := some (.hash [("value".toList, .hash [("roles".toList, .array [
    .hash [("role".toList, .scalar ['S']),
      ("mappings".toList, .array [.hash [("component".toList, .scalar ['R'])]])],
    .hash [("role".toList, .scalar ['T'])]])])])

/-- The dump dies at the second role, and the row of the first one is published. -/
theorem truncated_dump_published : ¬ ∀ (r : Responses) (writable : Bool) (s : Site),
    (dumpComponentMapping r writable).2 = true → Reported s (publish r writable s) := by
  intro h
  have hsize := (publish_reported _ _ _).mp (h truncatedAnswer true ⟨some ['x'], none, none, 0⟩ rfl)
  exact absurd hsize (by decide)

end Portal
end TdsAdmin
