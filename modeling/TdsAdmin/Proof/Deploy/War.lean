import Mathlib.Data.List.Nodup
import TdsAdmin.Deploy.War

/-!
# What a deployment changes

The tests do not exclude each other, and the file that is to be deployed is moved away by the first
branch that is taken. Every later branch, and every branch when there is no such file, removes its
application and puts in its place what an earlier deployment has left in `latestversion`, if
anything (`deploy_webapps`).
-/

set_option autoImplicit false

namespace TdsAdmin
namespace Deploy

variable {γ : Type}

/-! ## One branch -/

section Replace

variable {file app x : Text} {s : Server γ}

theorem replaceWar_app (h : file ≠ app) : (replaceWar file app s).webapps app =
    (s.latestversion file).or (s.latestversion app) := by
  show (s.latestversion.mv file app).cp (s.webapps.rm app) app app = _
  rw [Files.cp_self, Files.rm_self, Option.or_none, Files.mv_target h]

theorem replaceWar_other (hx : x ≠ app) : (replaceWar file app s).webapps x = s.webapps x :=
  (Files.cp_other hx).trans (Files.rm_other hx)

theorem replaceWar_unpacked (x : Text) :
    (replaceWar file app s).unpacked x = if x = app then none else s.unpacked x := by
  show s.unpacked.rm app x = _
  by_cases hx : x = app
  · rw [if_pos hx, hx, Files.rm_self]
  · rw [if_neg hx, Files.rm_other hx]

theorem replaceWar_file (h : file ≠ app) : (replaceWar file app s).latestversion file = none :=
  Files.mv_source h

theorem replaceWar_latest (hf : x ≠ file) (ha : x ≠ app) :
    (replaceWar file app s).latestversion x = s.latestversion x := Files.mv_other hf ha

end Replace

/-! ## The chain -/

/-- The applications whose tests succeed. -/
def recognised (script : Script) (artifact : Name) : List Text :=
  (script.branches.filter fun b => Text.has b.pattern artifact.text).map Branch.app

theorem deploy_eq (script : Script) (artifact version : Name) (s : Server γ) :
    script.deploy artifact version s = (recognised script artifact).foldl
      (fun s app => replaceWar (fileName artifact version) app s) s := by
  rw [Script.deploy, recognised, List.foldl_map, List.foldl_filter]
  rfl

/-- Where a branch takes the war from. -/
def source (file : Text) (s : Server γ) (apps : List Text) (app : Text) : Option γ :=
  if apps.head? = some app then (s.latestversion file).or (s.latestversion app)
  else s.latestversion app

/-- **Each application that is recognised ends up with what its branch finds, the others stay.** -/
theorem run_webapps {file : Text} {apps : List Text} (s : Server γ) (hnodup : apps.Nodup)
    (hfile : file ∉ apps) (x : Text) :
    (apps.foldl (fun s app => replaceWar file app s) s).webapps x =
      if x ∈ apps then source file s apps x else s.webapps x := by
  induction apps generalizing s with
  | nil => rfl
  | cons app apps ih =>
    obtain ⟨happ, hnodup⟩ := List.nodup_cons.mp hnodup
    have hne : file ≠ app := fun h => hfile (h ▸ List.mem_cons_self)
    have hrest : file ∉ apps := fun h => hfile (List.mem_cons_of_mem app h)
    rw [List.foldl_cons, ih (replaceWar file app s) hnodup hrest]
    by_cases hx : x = app
    · -- its own branch, and no later one
      subst hx
      rw [if_neg happ, if_pos List.mem_cons_self, replaceWar_app hne, source,
        if_pos List.head?_cons]
    · by_cases hmem : x ∈ apps
      · -- a later branch: by then the file has been moved away
        have hfound : source file (replaceWar file app s) apps x = s.latestversion x := by
          have hxf : x ≠ file := fun h => hrest (h ▸ hmem)
          rw [source, replaceWar_file hne, replaceWar_latest hxf hx, Option.none_or, ite_self]
        have hlater : source file s (app :: apps) x = s.latestversion x := by
          rw [source, List.head?_cons, if_neg fun h => hx (Option.some.inj h).symm]
        rw [if_pos hmem, if_pos (List.mem_cons_of_mem app hmem), hfound, hlater]
      · have hnot : x ∉ app :: apps := by simp [hx, hmem]
        rw [if_neg hmem, if_neg hnot, replaceWar_other hx]

theorem run_unpacked {file : Text} (apps : List Text) (s : Server γ) (x : Text) :
    (apps.foldl (fun s app => replaceWar file app s) s).unpacked x =
      if x ∈ apps then none else s.unpacked x := by
  induction apps generalizing s with
  | nil => rfl
  | cons app apps ih =>
    rw [List.foldl_cons, ih, replaceWar_unpacked]
    by_cases hx : x = app
    · rw [if_pos hx, ite_self, if_pos (hx ▸ List.mem_cons_self)]
    · rw [if_neg hx]
      by_cases hmem : x ∈ apps
      · rw [if_pos hmem, if_pos (List.mem_cons_of_mem app hmem)]
      · have hnot : x ∉ app :: apps := by simp [hx, hmem]
        rw [if_neg hmem, if_neg hnot]

theorem recognised_nodup (script : Script) (artifact : Name) :
    (recognised script artifact).Nodup := by
  have hall : (script.branches.map Branch.app).Nodup := by
    cases script <;> decide
  exact hall.sublist (List.filter_sublist.map _)

/-- The file is never called like the application it is for: its name is longer. -/
theorem fileName_not_recognised (script : Script) (artifact version : Name) :
    fileName artifact version ∉ recognised script artifact := by
  intro hmem
  obtain ⟨b, hb, happ⟩ := List.mem_map.mp hmem
  obtain ⟨hb, hfound⟩ := List.mem_filter.mp hb
  have hshort : ∀ b ∈ script.branches, b.app.length ≤ b.pattern.length := by
    cases script <;> decide
  have hpattern := (Text.has_iff.mp hfound).length_le
  have hlength := congrArg List.length happ
  rw [fileName, List.length_append, List.length_cons] at hlength
  have := hshort b hb
  omega

/-- **What a run does to the applications.** -/
theorem deploy_webapps (script : Script) (artifact version : Name) (s : Server γ) (x : Text) :
    (script.deploy artifact version s).webapps x =
        (if x ∈ recognised script artifact
          then source (fileName artifact version) s (recognised script artifact) x
          else s.webapps x) ∧
      (script.deploy artifact version s).unpacked x =
        if x ∈ recognised script artifact then none else s.unpacked x := by
  rw [deploy_eq]
  constructor
  · exact run_webapps s (recognised_nodup script artifact)
      (fileName_not_recognised script artifact version) x
  · exact run_unpacked (recognised script artifact) s x

/-! ## All or nothing -/

section Deployment

variable (script : Script) (artifact version : Name) (s : Server γ)

/-- The run changes this application. -/
def Changes (x : Text) : Prop :=
  ¬ ((script.deploy artifact version s).webapps x = s.webapps x ∧
    (script.deploy artifact version s).unpacked x = s.unpacked x)

/-- What a deployment is to do: it changes at most one application; it gives the one that the
artifact is for the content of the file; and without a file it leaves every war where it is. -/
structure AllOrNothing : Prop where
  one : ∀ x y, Changes script artifact version s x → Changes script artifact version s y → x = y
  deployed : ∀ content, s.latestversion (fileName artifact version) = some content →
    ∀ app, (recognised script artifact).head? = some app →
      (script.deploy artifact version s).webapps app = some content
  kept : s.latestversion (fileName artifact version) = none →
    ∀ app content, s.webapps app = some content →
      (script.deploy artifact version s).webapps app = some content

/-- An application that already is as the run leaves it. -/
def Settled (app : Text) : Prop :=
  s.webapps app = source (fileName artifact version) s (recognised script artifact) app ∧
    s.unpacked app = none

variable {script artifact version s}

theorem changes_iff {x : Text} : Changes script artifact version s x ↔
    x ∈ recognised script artifact ∧ ¬ Settled script artifact version s x := by
  obtain ⟨hwebapps, hunpacked⟩ := deploy_webapps script artifact version s x
  rw [Changes, hwebapps, hunpacked, Settled]
  by_cases hx : x ∈ recognised script artifact
  · rw [if_pos hx, if_pos hx, eq_comm, and_iff_right hx, eq_comm (a := none)]
  · rw [if_neg hx, if_neg hx]
    exact iff_of_false (fun h => h ⟨rfl, rfl⟩) fun h => hx h.1

/-- The file goes to the first application that is recognised. -/
theorem first_deployed {content : γ}
    (hfile : s.latestversion (fileName artifact version) = some content) {app : Text}
    (happ : (recognised script artifact).head? = some app) :
    (script.deploy artifact version s).webapps app = some content := by
  rw [(deploy_webapps script artifact version s app).1, if_pos (List.mem_of_head? happ), source,
    if_pos happ, hfile]
  rfl

/-- Without the file every branch takes what was left behind. -/
theorem source_missing (hfile : s.latestversion (fileName artifact version) = none) (app : Text) :
    source (fileName artifact version) s (recognised script artifact) app =
      s.latestversion app := by
  rw [source, hfile, Option.none_or, ite_self]

variable (script artifact version s)

/-- **A run is all or nothing exactly when at most one of the applications that are recognised is
not as it leaves it, and, without the file, every one of them that is deployed has been left behind
in `latestversion` as it is.** -/
theorem allOrNothing_iff : AllOrNothing script artifact version s ↔
    (∀ x ∈ recognised script artifact, ∀ y ∈ recognised script artifact,
      ¬ Settled script artifact version s x → ¬ Settled script artifact version s y → x = y) ∧
    (s.latestversion (fileName artifact version) = none →
      ∀ app ∈ recognised script artifact, ∀ content, s.webapps app = some content →
        s.latestversion app = some content) := by
  constructor
  · intro h
    constructor
    · intro x hx y hy hsx hsy
      exact h.one x y (changes_iff.mpr ⟨hx, hsx⟩) (changes_iff.mpr ⟨hy, hsy⟩)
    · intro hfile app happ content hcontent
      have hkept := h.kept hfile app content hcontent
      rw [(deploy_webapps script artifact version s app).1, if_pos happ,
        source_missing hfile] at hkept
      exact hkept
  · rintro ⟨hone, hleft⟩
    constructor
    · intro x y hx hy
      obtain ⟨hx, hsx⟩ := changes_iff.mp hx
      obtain ⟨hy, hsy⟩ := changes_iff.mp hy
      exact hone x hx y hy hsx hsy
    · intro content hfile app happ
      exact first_deployed hfile happ
    · intro hfile app content hcontent
      rw [(deploy_webapps script artifact version s app).1]
      by_cases happ : app ∈ recognised script artifact
      · rw [if_pos happ, source_missing hfile]
        exact hleft hfile app happ content hcontent
      · rw [if_neg happ]
        exact hcontent

end Deployment

/-- An artifact whose file has not been copied to the server, where an older war is running. -/
def forgotten : Server Nat where
  webapps := fun name => if name = "student".toList then some 1 else none
  unpacked := fun _ => none
  latestversion := fun _ => none
  oldversion := fun _ => none

/-- The older war is removed. -/
theorem missing_file_undeploys : ¬ ∀ (script : Script) (artifact version : Name)
    (s : Server Nat), AllOrNothing script artifact version s := by
  intro h
  have hkept := (h .tds ⟨"student".toList, by decide⟩ ⟨"2".toList, by decide⟩ forgotten).kept rfl
    "student".toList 1 rfl
  rw [(deploy_webapps _ _ _ _ _).1] at hkept
  exact absurd hkept (by decide)

end Deploy
end TdsAdmin
