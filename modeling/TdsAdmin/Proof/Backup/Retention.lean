import Mathlib.Data.List.Nodup
import Mathlib.Data.List.TakeWhile
import TdsAdmin.Backup.Script

/-!
# The retention window

The day a backup was made is nowhere but in its description, so the first thing to prove is
that the description is read back as it was written, whatever the instance is called
(`snapshotDate_description`). One run then does two things to the account: it appends the
snapshots of the day, and it filters out those that have expired (`removeSnapshots_eq`).

`Reachable` is every history of such runs on days that do not go back, with anything else
happening to the account in between as long as it leaves the backups alone. `Inv` says of the
account what the log of the runs says: the backups that are there are the ones made in the
window of the last run.
-/

set_option autoImplicit false

namespace TdsAdmin
namespace Backup

variable {ι : Type}

/-! ## The description -/

theorem isDigit_not_space {c : Char} (h : Text.isDigit c = true) : Pattern.isSpace c = false := by
  by_contra hs
  simp only [Pattern.isSpace, Bool.not_eq_false, Bool.or_eq_true, beq_iff_eq] at hs
  rcases hs with ((((rfl | rfl) | rfl) | rfl) | rfl) | rfl <;> exact absurd h (by decide)

theorem dateText_no_space (today : Date) : ∀ c ∈ dateText today, Pattern.isSpace c = false := by
  intro c hc
  simp only [dateText, List.mem_append, List.mem_cons] at hc
  rcases hc with h | rfl | h | rfl | h
  · exact isDigit_not_space (Text.decimal_digits _ c h)
  · decide
  · exact isDigit_not_space (Text.decimal_digits _ c h)
  · decide
  · exact isDigit_not_space (Text.decimal_digits _ c h)

theorem lastField_append {u v : Text} (hv : v ≠ []) (h : ∀ c ∈ v, Pattern.isSpace c = false) :
    lastField (u ++ ' ' :: v) = some v := by
  have hempty : (!v.isEmpty) = true := by simpa using hv
  rw [lastField, List.splitOnP_append_cons u v (by decide), List.splitOnP_eq_singleton h,
    List.filter_append, List.filter_singleton, hempty]
  simp

/-- A number, a slash and the rest of the pattern. -/
theorem matchHere_number {P : Pattern} (n : Nat) (s : Text) :
    Pattern.matchHere (.capture Text.isDigit 1 :: .one (· == '/') :: P)
        (Text.decimal n ++ '/' :: s)
      = (Pattern.matchHere P s).map fun r => (Text.decimal n :: r.1, r.2) := by
  have hstop : ∀ c u, '/' :: s = c :: u → Text.isDigit c = false := by
    intro c u h
    rw [← (List.cons.inj h).1]
    decide
  have hpos : 1 ≤ (Text.decimal n).length := List.length_pos_iff.mpr (Text.decimal_ne_nil n)
  rw [Pattern.matchHere_capture (P := .one (· == '/') :: P)
      (Pattern.stops_lit (w := []) (P := P) (by decide)),
    Pattern.takeWhile_run (Text.decimal_digits n) hstop,
    Pattern.dropWhile_run (Text.decimal_digits n) hstop, if_pos hpos]
  rfl

theorem datePattern_dateText (today : Date) : datePattern.captures (dateText today)
    = some [Text.decimal today.month, Text.decimal today.day, Text.decimal today.year] := by
  have hlast : (Text.decimal today.year).takeWhile Text.isDigit = Text.decimal today.year :=
    List.takeWhile_eq_self_iff.mpr (Text.decimal_digits _)
  have hyear : Pattern.matchHere [.capture Text.isDigit 1] (Text.decimal today.year)
      = some ([Text.decimal today.year], (Text.decimal today.year).dropWhile Text.isDigit) := by
    rw [Pattern.matchHere_capture_last, hlast]
    rw [hlast]
    exact List.length_pos_iff.mpr (Text.decimal_ne_nil _)
  have hmatch : Pattern.matchHere datePattern (dateText today)
      = some ([Text.decimal today.month, Text.decimal today.day, Text.decimal today.year],
        (Text.decimal today.year).dropWhile Text.isDigit) := by
    rw [datePattern, dateText, matchHere_number, matchHere_number, hyear]
    rfl
  rw [Pattern.captures, Pattern.search_here hmatch]
  rfl

/-- **The day is read back from the description**, whatever the name and the device. -/
theorem snapshotDate_description (s : Snapshot ι) {name : Option Text} {device : Text}
    {today : Date} (h : s.description = description name device today) :
    snapshotDate s = some today := by
  have hne : dateText today ≠ [] := by simp [dateText]
  have hdesc : description name device today
      = (BACKUP_KEYWORD ++ ' ' :: (name.getD [] ++ ':' :: device)) ++ ' ' :: dateText today := by
    simp [description]
  rw [snapshotDate, h, hdesc, lastField_append hne (dateText_no_space today), Option.bind_some,
    datePattern_dateText]
  simp only [Text.ofDecimal_decimal, Date.ofNumbers_self]

theorem isBackup_description (s : Snapshot ι) {name : Option Text} {device : Text}
    {today : Date} (h : s.description = description name device today) : isBackup s = true := by
  rw [isBackup, h, description, List.isPrefixOf_iff_prefix]
  exact List.prefix_append _ _

/-! ## Creating -/

/-- What the first loop has done so far. -/
structure Creates (today : Date) (account : Account ι) (c : Creating ι) : Prop where
  appended : c.account = account ++ c.created
  described : ∀ s ∈ c.created, ∃ name device, s.description = description name device today
  distinct : (c.account.map Snapshot.snapshotId).Nodup

theorem createSnapshot_creates {ec2 : Ec2 ι} {today : Date} {account : Account ι}
    {c : Creating ι} (h : Creates today account c) (device : BlockDevice) :
    Creates today account (createSnapshot ec2 today c device) where
  appended := by
    simp only [createSnapshot]
    rw [h.appended, List.append_assoc]
  described := by
    intro s hs
    simp only [createSnapshot, List.mem_append, List.mem_singleton] at hs
    rcases hs with hs | rfl
    · exact h.described s hs
    · exact ⟨_, _, rfl⟩
  distinct := by
    simp only [createSnapshot, List.map_append, List.map_cons, List.map_nil]
    refine List.nodup_append.mpr ⟨h.distinct, List.nodup_singleton _, ?_⟩
    rintro a ha b hb rfl
    obtain ⟨s, hs, rfl⟩ := List.mem_map.mp ha
    exact ec2.fresh_new c.account s hs (List.mem_singleton.mp hb)

theorem foldl_creates {α : Type} {today : Date} {account : Account ι}
    {f : Creating ι → α → Creating ι}
    (hf : ∀ c, Creates today account c → ∀ x, Creates today account (f c x)) :
    ∀ (l : List α) {c : Creating ι}, Creates today account c →
      Creates today account (l.foldl f c)
  | [], _, h => h
  | x :: l, c, h => foldl_creates hf l (hf c h x)

theorem createSnapshots_creates (ec2 : Ec2 ι) (today : Date) {account : Account ι}
    (hdistinct : (account.map Snapshot.snapshotId).Nodup) (reservations : List (List Instance)) :
    Creates today account (createSnapshots ec2 today reservations account) := by
  have hinstance : ∀ c, Creates today account c → ∀ i,
      Creates today account (backupInstance ec2 today c i) := by
    intro c hc i
    rw [backupInstance]
    split
    · exact hc
    · exact foldl_creates (fun _ h => createSnapshot_creates h) _
        ⟨hc.appended, hc.described, hc.distinct⟩
  refine foldl_creates (fun _ h instances => foldl_creates hinstance instances h) reservations ?_
  exact ⟨(List.append_nil _).symm, by simp, hdistinct⟩

/-! ## Removing -/

/-- The backup is more than `DAYS_TO_KEEP` days old. -/
def expired (today : Date) (s : Snapshot ι) : Bool :=
  isBackup s && (snapshotDate s).any fun date => Date.deltaDays date today > DAYS_TO_KEEP

def backups (account : Account ι) : Account ι := account.filter isBackup

theorem Creates.backups_account {today : Date} {account : Account ι} {c : Creating ι}
    (h : Creates today account c) : backups c.account = backups account ++ c.created := by
  rw [h.appended, backups, List.filter_append]
  refine congrArg _ (List.filter_eq_self.mpr fun s hs => ?_)
  obtain ⟨name, device, hdesc⟩ := h.described s hs
  exact isBackup_description s hdesc

/-- A backup made today has not expired. -/
theorem Creates.not_expired {today : Date} {account : Account ι} {c : Creating ι}
    (h : Creates today account c) {s : Snapshot ι} (hs : s ∈ c.created) :
    expired today s = false := by
  obtain ⟨name, device, hdesc⟩ := h.described s hs
  rw [expired, isBackup_description s hdesc, snapshotDate_description s hdesc]
  simp [Date.deltaDays, DAYS_TO_KEEP]

variable [DecidableEq ι]

theorem removeStep_eq {today : Date} {s : Snapshot ι} (account : Account ι)
    (hdated : isBackup s = true → (snapshotDate s).isSome) :
    removeStep today account s
      = some (if expired today s then deleteSnapshot account s.snapshotId else account) := by
  unfold removeStep expired
  cases hb : isBackup s with
  | false => rfl
  | true =>
    obtain ⟨date, hdate⟩ := Option.isSome_iff_exists.mp (hdated hb)
    simp [hdate]

/-- Going through the list removes the snapshots that share an identifier with an expired one. -/
theorem foldlM_removeStep {today : Date} : ∀ {l account : Account ι},
    (∀ s ∈ l, isBackup s = true → (snapshotDate s).isSome) →
    l.foldlM (removeStep today) account = some (account.filter fun s =>
      !l.any fun x => expired today x && decide (x.snapshotId = s.snapshotId))
  | [], account, _ => by simp
  | x :: l, account, h => by
    rw [List.foldlM_cons, removeStep_eq account (h x (by simp))]
    simp only [bind, Option.bind]
    rw [foldlM_removeStep fun s hs => h s (by simp [hs])]
    cases hx : expired today x with
    | false => simp [hx]
    | true =>
      simp only [↓reduceIte, deleteSnapshot, List.filter_filter, List.any_cons, hx, Bool.true_and,
        Bool.not_or]
      congr 1
      refine List.filter_congr fun s _ => ?_
      by_cases hs : s.snapshotId = x.snapshotId
      · simp [hs]
      · simp [hs, Ne.symm hs]

/-- **The second loop filters the account.** -/
theorem removeSnapshots_eq {today : Date} {account : Account ι}
    (hdistinct : (account.map Snapshot.snapshotId).Nodup)
    (hdated : ∀ s ∈ account, isBackup s = true → (snapshotDate s).isSome) :
    removeSnapshots today account = some (account.filter fun s => !expired today s) := by
  rw [removeSnapshots, foldlM_removeStep hdated]
  refine congrArg some (List.filter_congr fun s hs => ?_)
  congr 1
  rw [Bool.eq_iff_iff, List.any_eq_true]
  constructor
  · rintro ⟨x, hx, h⟩
    rw [Bool.and_eq_true, decide_eq_true_eq] at h
    rw [← List.inj_on_of_nodup_map hdistinct hx hs h.2]
    exact h.1
  · exact fun h => ⟨s, hs, by simp [h]⟩

/-! ## One run -/

/-- One run on an account in which every backup is dated: it does not die, the backups that are
there afterwards are the ones that had not expired and the ones it made, and the identifiers
are still distinct. -/
theorem backupAllEbsVolumes_spec (ec2 : Ec2 ι) (today : Date) (reservations : List (List Instance))
    (account : Account ι) (hdistinct : (account.map Snapshot.snapshotId).Nodup)
    (hdated : ∀ s ∈ backups account, (snapshotDate s).isSome) :
    ∃ created account', backupAllEbsVolumes ec2 today reservations account
        = some (created, account') ∧
      (∀ s ∈ created, isBackup s = true ∧ snapshotDate s = some today) ∧
      (account'.map Snapshot.snapshotId).Nodup ∧
      backups account' = (backups account).filter (fun s => !expired today s) ++ created := by
  have hc := createSnapshots_creates ec2 today hdistinct reservations
  have hcreated : ∀ s ∈ (createSnapshots ec2 today reservations account).created,
      isBackup s = true ∧ snapshotDate s = some today := by
    intro s hs
    obtain ⟨name, device, hdesc⟩ := hc.described s hs
    exact ⟨isBackup_description s hdesc, snapshotDate_description s hdesc⟩
  have hall : ∀ s ∈ (createSnapshots ec2 today reservations account).account,
      isBackup s = true → (snapshotDate s).isSome := by
    intro s hs hb
    rw [hc.appended, List.mem_append] at hs
    rcases hs with hs | hs
    · exact hdated s (List.mem_filter.mpr ⟨hs, hb⟩)
    · rw [(hcreated s hs).2]
      rfl
  refine ⟨_, (createSnapshots ec2 today reservations account).account.filter
    fun s => !expired today s, ?_, hcreated, ?_, ?_⟩
  · rw [backupAllEbsVolumes, removeSnapshots_eq hc.distinct hall]
    rfl
  · exact hc.distinct.sublist (List.filter_sublist.map _)
  · have hcomm : backups ((createSnapshots ec2 today reservations account).account.filter
        fun s => !expired today s)
        = (backups (createSnapshots ec2 today reservations account).account).filter
            fun s => !expired today s := List.filter_comm _ _ _
    rw [hcomm, hc.backups_account, List.filter_append]
    refine congrArg _ (List.filter_eq_self.mpr fun s hs => ?_)
    rw [hc.not_expired hs]
    rfl

/-! ## Histories -/

/-- The account, every backup that was ever made with the day it was made, and the day of the
last run. -/
structure World (ι : Type) where
  account : Account ι
  log : List (Snapshot ι × Date)
  last : Option Date

/-- The histories of an account that starts without backups and in which only the script makes
or removes them. -/
inductive Reachable (ec2 : Ec2 ι) : World ι → Prop where
  | start {account : Account ι} (hdistinct : (account.map Snapshot.snapshotId).Nodup)
      (hnone : backups account = []) : Reachable ec2 ⟨account, [], none⟩
  | run {w : World ι} (h : Reachable ec2 w) (today : Date)
      (hday : ∀ last, w.last = some last → last ≤ today) (reservations : List (List Instance))
      {created account : Account ι}
      (hrun : backupAllEbsVolumes ec2 today reservations w.account = some (created, account)) :
      Reachable ec2 ⟨account, w.log ++ created.map fun s => (s, today), some today⟩
  /-- Anything else that happens to the account leaves its backups as they are. -/
  | others {w : World ι} (h : Reachable ec2 w) {account : Account ι}
      (hdistinct : (account.map Snapshot.snapshotId).Nodup)
      (hsame : (backups account).Perm (backups w.account)) :
      Reachable ec2 { w with account := account }

/-- The day is in the window of the last run. -/
def recent (last : Option Date) (day : Date) : Bool :=
  last.any fun today => decide (Date.Within 3 day today)

structure Inv (w : World ι) : Prop where
  distinct : (w.account.map Snapshot.snapshotId).Nodup
  dated : ∀ x ∈ w.log, isBackup x.1 = true ∧ snapshotDate x.1 = some x.2
  past : ∀ x ∈ w.log, ∃ last, w.last = some last ∧ x.2 ≤ last
  kept : (backups w.account).Perm ((w.log.filter fun x => recent w.last x.2).map Prod.fst)

omit [DecidableEq ι] in
/-- A backup expires when its day leaves the window. -/
theorem expired_iff {today day : Date} {s : Snapshot ι} (hb : isBackup s = true)
    (hd : snapshotDate s = some day) (hle : day ≤ today) :
    (!expired today s) = decide (Date.Within 3 day today) := by
  have hnum := Date.dayNumber_le hle
  have hdelta : Date.deltaDays day today > DAYS_TO_KEEP ↔ ¬ Date.Within 3 day today := by
    rw [Date.within_iff hle]
    simp only [Date.deltaDays, DAYS_TO_KEEP]
    omega
  rw [expired, hb, hd, Option.any_some, Bool.true_and, decide_eq_decide.mpr hdelta, decide_not,
    Bool.not_not]

omit [DecidableEq ι] in
/-- The days of the log are no later than a run after it. -/
theorem Inv.past_today {w : World ι} (hi : Inv w) {today : Date}
    (hday : ∀ last, w.last = some last → last ≤ today) {x : Snapshot ι × Date} (hx : x ∈ w.log) :
    ∃ last, w.last = some last ∧ x.2 ≤ last ∧ x.2 ≤ today := by
  obtain ⟨last, hlast, hle⟩ := hi.past x hx
  refine ⟨last, hlast, hle, fun hlt => ?_⟩
  have h1 := Date.dayNumber_lt hlt
  have h2 := Date.dayNumber_le hle
  have h3 := Date.dayNumber_le (hday last hlast)
  omega

omit [DecidableEq ι] in
/-- What was kept until now and has not expired is what the moved window keeps. -/
theorem Inv.kept_today {w : World ι} (hi : Inv w) {today : Date}
    (hday : ∀ last, w.last = some last → last ≤ today) :
    ((backups w.account).filter fun s => !expired today s).Perm
      ((w.log.filter fun x => decide (Date.Within 3 x.2 today)).map Prod.fst) := by
  refine (hi.kept.filter _).trans (List.Perm.of_eq ?_)
  rw [List.filter_map, List.filter_filter]
  refine congrArg _ (List.filter_congr fun x hx => ?_)
  obtain ⟨hb, hd⟩ := hi.dated x hx
  obtain ⟨last, hlast, hle, hle'⟩ := hi.past_today hday hx
  have hmoved : Date.Within 3 x.2 today → Date.Within 3 x.2 last := by
    rw [Date.within_iff hle, Date.within_iff hle']
    have := Date.dayNumber_le (hday last hlast)
    omega
  rw [Function.comp_apply, expired_iff hb hd hle', recent, hlast, Option.any_some,
    ← Bool.decide_and, decide_eq_decide]
  exact and_iff_left_of_imp hmoved

/-- What a run does to the invariant: the window moves on, and the run's own backups are in it. -/
theorem Inv.run {w : World ι} (hi : Inv w) (ec2 : Ec2 ι) {today : Date}
    (hday : ∀ last, w.last = some last → last ≤ today) (reservations : List (List Instance)) :
    ∃ created account, backupAllEbsVolumes ec2 today reservations w.account
        = some (created, account) ∧
      Inv ⟨account, w.log ++ created.map fun s => (s, today), some today⟩ := by
  have hdated : ∀ s ∈ backups w.account, (snapshotDate s).isSome := by
    intro s hs
    obtain ⟨x, hx, rfl⟩ := List.mem_map.mp (hi.kept.mem_iff.mp hs)
    rw [(hi.dated x (List.mem_of_mem_filter hx)).2]
    rfl
  obtain ⟨created, account, hrun, hcreated, hdistinct, hbackups⟩ :=
    backupAllEbsVolumes_spec ec2 today reservations w.account hi.distinct hdated
  refine ⟨created, account, hrun, hdistinct, ?_, ?_, ?_⟩
  · intro x hx
    rcases List.mem_append.mp hx with hx | hx
    · exact hi.dated x hx
    · obtain ⟨s, hs, rfl⟩ := List.mem_map.mp hx
      exact hcreated s hs
  · intro x hx
    rcases List.mem_append.mp hx with hx | hx
    · obtain ⟨-, -, -, hle⟩ := hi.past_today hday hx
      exact ⟨today, rfl, hle⟩
    · obtain ⟨s, hs, rfl⟩ := List.mem_map.mp hx
      exact ⟨today, rfl, Date.le_refl today⟩
  · -- the run's own backups are in the window of its day
    have hnew : ((created.map fun s => (s, today)).filter fun x =>
        decide (Date.Within 3 x.2 today)).map Prod.fst = created := by
      have hin : Date.Within 3 today today := ⟨0, by omega, rfl⟩
      rw [List.filter_map, List.map_map, List.filter_eq_self.mpr (by simp [hin])]
      exact List.map_id _
    have hrecent : ∀ x : Snapshot ι × Date,
        recent (some today) x.2 = decide (Date.Within 3 x.2 today) := fun x => rfl
    simp only [hrecent, hbackups, List.filter_append, List.map_append, hnew]
    exact (hi.kept_today hday).append_right created

theorem Reachable.inv {ec2 : Ec2 ι} {w : World ι} (h : Reachable ec2 w) : Inv w := by
  induction h with
  | start hdistinct hnone =>
    exact ⟨hdistinct, by simp, by simp, by rw [hnone]; exact List.Perm.refl _⟩
  | run _ today hday reservations hrun ih =>
    obtain ⟨created, account, hrun', hinv⟩ := ih.run ec2 hday reservations
    rw [hrun, Option.some.injEq, Prod.mk.injEq] at hrun'
    obtain ⟨rfl, rfl⟩ := hrun'
    exact hinv
  | others _ hdistinct hsame ih => exact ⟨hdistinct, ih.dated, ih.past, hsame.trans ih.kept⟩

/-- **After any history, a run on a day that is not before the last one goes through, and the
backups that are there then are exactly those made in the three days before, and on the day
itself.** -/
theorem retention_window (ec2 : Ec2 ι) {w : World ι} (h : Reachable ec2 w) (today : Date)
    (hday : ∀ last, w.last = some last → last ≤ today) (reservations : List (List Instance)) :
    ∃ created account, backupAllEbsVolumes ec2 today reservations w.account
        = some (created, account) ∧
      (backups account).Perm (((w.log ++ created.map fun s => (s, today)).filter fun x =>
        decide (Date.Within 3 x.2 today)).map Prod.fst) := by
  obtain ⟨created, account, hrun, hinv⟩ := h.inv.run ec2 hday reservations
  exact ⟨created, account, hrun, hinv.kept⟩

/-! A history over the end of a year: a run on 30 December, and one four days later. -/

/-- Identifiers that grow. -/
def countingEc2 : Ec2 Nat where
  fresh account := account.foldr (fun s n => s.snapshotId + n + 1) 0
  fresh_new account := by
    have hlt : ∀ (l : Account Nat), ∀ s ∈ l,
        s.snapshotId < l.foldr (fun s n => s.snapshotId + n + 1) 0 := by
      intro l
      induction l with
      | nil => simp
      | cons x l ih =>
        intro s hs
        rw [List.foldr_cons]
        rcases List.mem_cons.mp hs with rfl | hs
        · omega
        · have := ih s hs
          omega
    exact fun s hs => Nat.ne_of_lt (hlt account s hs)

def webServer : Instance where
  state := "running".toList
  tagSet := some [⟨"Name".toList, "web 1:a/b".toList⟩]
  blockDeviceMapping := some [⟨"/dev/sda1".toList, "vol-1".toList⟩]

def december30 : Date := ⟨2023, 12, 30, by decide, by decide, by decide⟩
def january3 : Date := ⟨2024, 1, 3, by decide, by decide, by decide⟩

theorem retention_window_newYear : ∃ created₁ account₁ created₂ account₂,
    backupAllEbsVolumes countingEc2 december30 [[webServer]] [] = some (created₁, account₁) ∧
      backupAllEbsVolumes countingEc2 january3 [[webServer]] account₁
        = some (created₂, account₂) ∧
      (backups account₂).Perm (((([] ++ created₁.map fun s => (s, december30)) ++
        created₂.map fun s => (s, january3)).filter fun x : Snapshot Nat × Date =>
          decide (Date.Within 3 x.2 january3)).map Prod.fst) := by
  obtain ⟨created₁, account₁, hrun, -⟩ := backupAllEbsVolumes_spec countingEc2 december30
    [[webServer]] [] (by simp) (by simp [backups])
  have hstart : Reachable countingEc2 ⟨[], [], none⟩ := .start (by simp) rfl
  have hreach := hstart.run december30 (by simp) [[webServer]] hrun
  obtain ⟨created₂, account₂, hrun₂, hperm⟩ := retention_window countingEc2 hreach january3
    (by rintro last h; cases h; exact fun hlt => absurd (Date.dayNumber_lt hlt) (by decide))
    [[webServer]]
  exact ⟨created₁, account₁, created₂, account₂, hrun, hrun₂, hperm⟩

end Backup
end TdsAdmin
