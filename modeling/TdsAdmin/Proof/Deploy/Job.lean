import TdsAdmin.Lib.System
import TdsAdmin.Proof.Deploy.War
import TdsAdmin.Proof.Deploy.Version

/-!
# What a history of jobs leaves on the server

A `Shelf` is what a server is for: the war of each application, and the one before it. A job puts
the wars it has downloaded there one after the other. What it works with on the way is left over
from earlier jobs, above all the archives in the workspace, which only grow; but the archive of an
artifact holds nothing but builds of this artifact (`OwnEntries`), so that nothing in it is ever
taken for an application. Hence a history of jobs is a history of puts (`history_puts`), and of
those the last one decides (`last_put_decides`).
-/

set_option autoImplicit false

namespace TdsAdmin
namespace Deploy

variable {γ : Type}

/-! ## Putting a war on the shelf -/

/-- The archive of an artifact holds nothing but builds of this artifact. -/
def OwnEntries (archives : Text → Files γ) : Prop :=
  ∀ (id : Name) (x : Text), archives id.text x ≠ none → ∃ v : Name, x = fileName id v

/-- No application is called like a build. -/
theorem OwnEntries.app {archives : Text → Files γ} (h : OwnEntries archives) {script : Script}
    {id : Name} {app : Text} (happ : app ∈ recognised script id) :
    archives id.text app = none := by
  by_contra hentry
  obtain ⟨v, rfl⟩ := h id app hentry
  exact fileName_not_recognised script id v happ

theorem OwnEntries.zip {archives : Text → Files γ} (h : OwnEntries archives) (d : Download γ) :
    OwnEntries (Function.update archives d.id.text (zip (archives d.id.text) d)) := by
  intro id x hx
  by_cases hid : id.text = d.id.text
  · rw [hid, Function.update_self, Deploy.zip] at hx
    by_cases hentry : x = fileName d.id d.version
    · refine ⟨d.version, hentry.trans ?_⟩
      rw [fileName, fileName, hid]
    · apply h id x
      rw [hid]
      split at hx
      · rwa [Function.update_of_ne hentry] at hx
      · exact hx
  · rw [Function.update_of_ne hid] at hx
    exact h id x hx

/-! ## One artifact -/

/-- A download that is called as a build of its artifact, with a version that can be read. -/
structure Download.WellNamed (d : Download γ) : Prop where
  id : d.id.text ≠ []
  build : ∃ version : Name, version.text ≠ [] ∧
    d.file.text = fileName d.id version ++ ".war".toList ∧ Clean d.id version

theorem Download.WellNamed.version {d : Download γ} (h : d.WellNamed) : d.version.text ≠ [] := by
  obtain ⟨version, hne, hfile, hclean⟩ := h.build
  rw [Download.version, (readVersion_iff hfile).mpr hclean]
  exact hne

theorem Download.WellNamed.zip {d : Download γ} (h : d.WellNamed) (archive : Files γ) :
    zip archive d (fileName d.id d.version) = some d.war := by
  obtain ⟨version, -, hfile, hclean⟩ := h.build
  have hentry : d.file.text = fileName d.id d.version ++ ".war".toList :=
    (entry_iff hfile).mpr hclean
  rw [Deploy.zip, if_pos hentry, Function.update_self]

section Aside

variable (script : Script) (s : Server γ)

variable {script s}

theorem setAside_other {x : Text} (hroot : x ≠ "ROOT".toList) (hcopy : x ≠ "ROOT-copy".toList)
    (hnested : x ≠ "ROOT-copy/ROOT".toList) : (script.setAside s).unpacked x = s.unpacked x := by
  unfold Script.setAside setRootAside
  split
  · split
    · rfl
    · split
      · exact Files.mv_other hroot hcopy
      · split
        · exact Files.mv_other hroot hnested
        · rfl
  · rfl

/-- An unpacked `ROOT` without a war is taken away, whichever artifact is deployed. -/
theorem setAside_root (hguarded : script.guarded = true)
    (hwar : s.webapps "ROOT".toList = none) (hfree : s.unpacked "ROOT-copy".toList = none ∨
      s.unpacked "ROOT-copy/ROOT".toList = none) :
    (script.setAside s).unpacked "ROOT".toList = none := by
  have hcopy : "ROOT".toList ≠ "ROOT-copy".toList := by decide
  have hnested : "ROOT".toList ≠ "ROOT-copy/ROOT".toList := by decide
  have hnot : ¬ (s.webapps "ROOT".toList).isSome = true := by
    rw [hwar]
    exact Bool.false_ne_true
  rw [Script.setAside, if_pos hguarded, setRootAside, if_neg hnot]
  split
  · exact Files.mv_source hcopy
  · rename_i htaken
    rw [Option.isNone_iff_eq_none] at htaken
    rw [if_pos (Option.isNone_iff_eq_none.mpr (hfree.resolve_left htaken))]
    exact Files.mv_source hnested

end Aside

section Arguments

variable {job : Job γ} {d : Download γ}

/-- `wardeploy.sh` refuses the job because tomcat answers. -/
def refuses (script : Script) (response : Text) : Bool :=
  script.guarded && response == "200".toList

variable (script : Script) (response : Text)

theorem wardeploy_started (args : List Name) (s : State γ) :
    (wardeploy script args response s).started = s.started := by
  unfold wardeploy
  dsimp only
  split
  · rfl
  · split <;> split <;> rfl

end Arguments

/-- The artifacts before the first that cannot be downloaded. -/
def downloaded (answers : List (Answer γ)) : List (Answer γ) :=
  answers.takeWhile fun a => a.download.isSome

/-- Every file that the job downloads is called as it should be. -/
def Job.WellNamed (job : Job γ) : Prop :=
  ∀ a ∈ job.answers, ∀ d, a.download = some d → d.WellNamed

/-- Starting tomcat changes nothing else. -/
theorem run_eq (script : Script) (job : Job γ) (s : State γ) : job.run script s =
    { (job.each script job.answers { s with started := false }).1 with
      started := (job.run script s).started } := by
  rw [Job.run]
  split <;> (rename_i heq; rw [heq])

section History

variable {script : Script} {server : Server γ} {history : List (Job γ)} {s : State γ}

end History

/-! ## Two jobs for the student application -/

/-- What artifactory answers for a build that it has. -/
def release (id version : Name) (war : Nat) : Answer Nat where
  login := "200".toList
  searchPath := [id, version, ⟨fileName id version ++ ".war".toList, by
    simpa [fileName] using ⟨List.all_eq_true.mp id.isName, rfl, List.all_eq_true.mp version.isName,
      rfl, rfl, rfl, rfl⟩⟩]
  check := "200".toList
  stored := some war
  response := "503".toList

def exampleJob (answers : List (Answer Nat)) : Job Nat where
  project := ⟨"tds".toList, rfl⟩
  isProject := by decide
  dropdb := [⟨"no".toList, rfl⟩]
  answers := answers

def student : Name := ⟨"student".toList, rfl⟩

/-- A job for one build of the student application. -/
def build (version : Name) (war : Nat) : Job Nat := exampleJob [release student version war]

end Deploy
end TdsAdmin
