import TdsAdmin.Proof.Backup.Retention

/-!
# What an unreadable backup does to the others

The second loop hands the last word of every backup's description to `Delta_Days`, which dies when
there is no date in it. So the loop ends at the first backup without one, and the expired backups
that are listed below it stay (`requests_eq_filter_iff`).
-/

set_option autoImplicit false

namespace TdsAdmin
namespace Backup

variable {ι : Type} {today : Date}

/-- A description that begins like that of a backup and does not end in a date. -/
def unreadable (s : Snapshot ι) : Bool := isBackup s && (snapshotDate s).isNone

theorem expired_of_unreadable {s : Snapshot ι} (h : unreadable s = true) :
    expired today s = false := by
  obtain ⟨-, hnone⟩ := Bool.and_eq_true_iff.mp h
  rw [expired, Option.isNone_iff_eq_none.mp hnone, Option.any_none, Bool.and_false]

/-- The loop at a snapshot whose date can be read, or need not be. -/
theorem removalRequests_readable {s : Snapshot ι} (h : unreadable s = false)
    (rest : List (Snapshot ι)) : removalRequests today (s :: rest) =
      (if expired today s then [s] else []) ++ removalRequests today rest := by
  rw [removalRequests, expired]
  cases hbackup : isBackup s with
  | false => rfl
  | true =>
    rw [unreadable, hbackup, Bool.true_and] at h
    cases hdate : snapshotDate s with
    | none =>
      rw [hdate] at h
      cases h
    | some date => simp

/-- It dies at one whose date cannot be read. -/
theorem removalRequests_unreadable {s : Snapshot ι} (h : unreadable s = true)
    (rest : List (Snapshot ι)) : removalRequests today (s :: rest) = [] := by
  obtain ⟨hbackup, hnone⟩ := Bool.and_eq_true_iff.mp h
  rw [removalRequests, if_pos hbackup, Option.isNone_iff_eq_none.mp hnone]

/-- A list of one is judged by its description. -/
theorem removalRequests_singleton (s : Snapshot ι) :
    removalRequests today [s] = [s].filter (expired today) := by
  cases h : unreadable s with
  | true =>
    rw [removalRequests_unreadable h, List.filter_singleton, expired_of_unreadable h]
    rfl
  | false =>
    rw [removalRequests_readable h, List.filter_singleton, removalRequests, List.append_nil]
    cases expired today s <;> rfl

/-- **The loop asks for every expired backup exactly when none of them is listed below one that
it cannot read.** -/
theorem requests_eq_filter_iff (today : Date) (list : List (Snapshot ι)) :
    removalRequests today list = list.filter (expired today) ↔
      ∀ before s after, list = before ++ s :: after → unreadable s = true →
        ∀ t ∈ after, expired today t = false := by
  induction list with
  | nil => simp [removalRequests]
  | cons x list ih =>
    cases hx : unreadable x with
    | true =>
      rw [removalRequests_unreadable hx, List.filter_cons_of_neg (by
        rw [expired_of_unreadable hx]
        exact Bool.false_ne_true)]
      constructor
      · intro h
        -- Nothing below `x` has expired, so the later unreadable ones do no harm either.
        have hnone : ∀ t ∈ list, expired today t = false := by
          intro t ht
          simpa using List.filter_eq_nil_iff.mp h.symm t ht
        intro before s after hsplit _ t ht
        cases before with
        | nil =>
          obtain ⟨-, rfl⟩ := List.cons.inj hsplit
          exact hnone t ht
        | cons b before =>
          obtain ⟨-, rfl⟩ := List.cons.inj hsplit
          exact hnone t (by simp [ht])
      · intro h
        refine (List.filter_eq_nil_iff.mpr fun t ht => ?_).symm
        rw [h [] x list rfl hx t ht]
        exact Bool.false_ne_true
    | false =>
      have hstep : removalRequests today (x :: list) = (x :: list).filter (expired today) ↔
          removalRequests today list = list.filter (expired today) := by
        rw [removalRequests_readable hx, List.filter_cons]
        cases expired today x with
        | true => exact List.cons_inj_right x
        | false => exact Iff.rfl
      rw [hstep, ih]
      constructor
      · intro h before s after hsplit hs
        cases before with
        | nil =>
          obtain ⟨rfl, -⟩ := List.cons.inj hsplit
          rw [hx] at hs
          cases hs
        | cons b before =>
          obtain ⟨-, htail⟩ := List.cons.inj hsplit
          exact h before s after htail hs
      · intro h before s after hsplit hs
        exact h (x :: before) s after (by rw [hsplit, List.cons_append]) hs

/-- The loop from any point on, with the account as it is there. -/
theorem removeSteps_requests [DecidableEq ι] (list account : Account ι) :
    list.foldlM (removeStep today) account =
      if list.any unreadable then none
      else some ((removalRequests today list).foldl
        (fun account s => deleteSnapshot account s.snapshotId) account) := by
  induction list generalizing account with
  | nil => rfl
  | cons s list ih =>
    rw [List.foldlM_cons, List.any_cons]
    cases h : unreadable s with
    | true =>
      obtain ⟨hbackup, hnone⟩ := Bool.and_eq_true_iff.mp h
      rw [removeStep, if_pos hbackup, Option.isNone_iff_eq_none.mp hnone]
      rfl
    | false =>
      have hdated : isBackup s = true → (snapshotDate s).isSome = true := by
        intro hbackup
        rw [unreadable, hbackup, Bool.true_and] at h
        exact Option.isNone_eq_false_iff.mp h
      rw [removeStep_eq account hdated, removalRequests_readable h, Bool.false_or]
      cases expired today s with
      | true => exact ih (deleteSnapshot account s.snapshotId)
      | false => exact ih account

/-- The run of the loop: the account without what it asked for, unless it died. -/
theorem removeSnapshots_requests [DecidableEq ι] (account : Account ι) :
    removeSnapshots today account =
      if account.any unreadable then none
      else some ((removalRequests today account).foldl
        (fun account s => deleteSnapshot account s.snapshotId) account) :=
  removeSteps_requests account account

/-- An expired backup. -/
def oldBackup : Snapshot Nat := ⟨2, [], "Backup web:sda 1/1/2023".toList⟩

/-- A backup that someone has described by hand. -/
def handWritten : Snapshot Nat := ⟨1, [], "Backup of web".toList⟩

/-- No rule that looks at one description at a time says what the loop asks for. -/
theorem removal_depends_on_others : ¬ ∃ rule : Date → Text → Bool,
    ∀ (today : Date) (list : List (Snapshot Nat)),
      removalRequests today list = list.filter fun s => rule today s.description := by
  rintro ⟨rule, hrule⟩
  have halone : removalRequests january3 [oldBackup] = [oldBackup] := by
    rw [removalRequests_singleton, List.filter_singleton,
      show expired january3 oldBackup = true by decide +kernel]
    rfl
  have hbelow : removalRequests january3 [handWritten, oldBackup] = [] :=
    removalRequests_unreadable (by decide +kernel) _
  rw [hrule] at halone hbelow
  -- Alone the backup is asked for, below the other one it is not.
  have hwanted := (List.filter_eq_self.mp halone) oldBackup (by simp)
  have hunwanted := (List.filter_eq_nil_iff.mp hbelow) oldBackup (by simp)
  exact hunwanted hwanted

end Backup
end TdsAdmin
