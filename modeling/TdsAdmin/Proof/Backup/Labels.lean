import TdsAdmin.Proof.Backup.Retention

/-!
# Whose name a snapshot carries

The name is a variable of the whole script: an instance that has no `Name` tag is backed up under
the name of one before it. The loops are taken apart into the running instances, and what is written
for each of them into its own tags and the name that it found (`createSnapshots_labels`).
-/

set_option autoImplicit false

namespace TdsAdmin
namespace Backup

variable {ι : Type}

def Instance.tags (i : Instance) : List Tag := i.tagSet.getD []

def Instance.devices (i : Instance) : List BlockDevice := i.blockDeviceMapping.getD []

def Instance.isRunning (i : Instance) : Bool := decide (i.state = "running".toList)

/-- The instances that are backed up, in the order of the listing. -/
def runningInstances (reservations : List (List Instance)) : List Instance :=
  reservations.flatten.filter Instance.isRunning

def Tag.isName (tag : Tag) : Bool := decide (tag.key = "Name".toList)

/-- The value of the last `Name` tag. -/
def lastName (tags : List Tag) : Option Text :=
  ((tags.filter Tag.isName).map Tag.value).getLast?

/-- The name of an instance: its own `Name` tag. -/
def Instance.name (i : Instance) : Option Text := lastName i.tags

/-! ## One instance -/

theorem prettyNameFrom_eq (name : Option Text) (tagSet : Option (List Tag)) :
    prettyNameFrom name tagSet = (lastName (tagSet.getD [])).or name := by
  rw [prettyNameFrom]
  generalize tagSet.getD [] = tags
  induction tags generalizing name with
  | nil => rfl
  | cons tag tags ih =>
    rw [List.foldl_cons, ih, lastName, lastName]
    by_cases hkey : tag.key = "Name".toList
    · have hname : tag.isName = true := decide_eq_true hkey
      rw [if_pos hkey, List.filter_cons_of_pos hname, List.map_cons, List.getLast?_cons]
      cases ((tags.filter Tag.isName).map Tag.value).getLast? <;> rfl
    · have hname : ¬ tag.isName = true := mt of_decide_eq_true hkey
      rw [if_neg hkey, List.filter_cons_of_neg hname]

theorem description_inj {m n : Option Text} {device : Text} {today : Date} :
    description m device today = description n device today ↔ m.getD [] = n.getD [] := by
  constructor
  · intro h
    exact List.append_cancel_right (List.cons.inj (List.append_cancel_left h)).2
  · intro h
    rw [description, description, h]

/-- What the snapshots of some volumes say: the volume and the description. -/
def labels (today : Date) (name : Option Text) (devices : List BlockDevice) : List (Text × Text) :=
  devices.map fun d => (d.volumeId, description name d.deviceName today)

theorem labels_inj {today : Date} {m n : Option Text} {devices : List BlockDevice} :
    labels today m devices = labels today n devices ↔ devices = [] ∨ m.getD [] = n.getD [] := by
  cases devices with
  | nil => exact iff_of_true rfl (Or.inl rfl)
  | cons d devices =>
    rw [labels, labels]
    constructor
    · intro h
      exact Or.inr (description_inj.mp (congrArg Prod.snd (List.cons.inj h).1))
    · rintro (h | h)
      · cases h
      · exact List.map_congr_left fun d _ => congrArg (d.volumeId, ·) (description_inj.mpr h)

/-- There are as many labels whatever the name. -/
theorem labels_append_inj {today : Date} {m n : Option Text} {devices : List BlockDevice}
    {u v : List (Text × Text)} : labels today m devices ++ u = labels today n devices ++ v ↔
      labels today m devices = labels today n devices ∧ u = v := by
  constructor
  · intro h
    apply List.append_inj h
    rw [labels, labels, List.length_map, List.length_map]
  · rintro ⟨hlabels, rfl⟩
    rw [hlabels]

/-! ## The run -/

/-- What is written for the instances from any point on, with the name found there. -/
def labelsFrom (today : Date) : Option Text → List Instance → List (Text × Text)
  | _, [] => []
  | name, i :: rest =>
      labels today (i.name.or name) i.devices ++ labelsFrom today (i.name.or name) rest

/-- What a snapshot says. -/
def Snapshot.label (s : Snapshot ι) : Text × Text := (s.volumeId, s.description)

theorem createSnapshot_label (ec2 : Ec2 ι) (today : Date) : ∀ (devices : List BlockDevice)
    (c : Creating ι),
    (devices.foldl (createSnapshot ec2 today) c).prettyName = c.prettyName ∧
      (devices.foldl (createSnapshot ec2 today) c).created.map Snapshot.label =
        c.created.map Snapshot.label ++ labels today c.prettyName devices := by
  intro devices
  induction devices with
  | nil => exact fun c => ⟨rfl, (List.append_nil _).symm⟩
  | cons d devices ih =>
    intro c
    obtain ⟨hname, hcreated⟩ := ih (createSnapshot ec2 today c d)
    refine ⟨hname, hcreated.trans ?_⟩
    show (c.created ++ [_]).map Snapshot.label ++ _ = _
    rw [List.map_append, List.append_assoc]
    rfl

theorem backupInstance_label (ec2 : Ec2 ι) (today : Date) : ∀ (instances : List Instance)
    (c : Creating ι),
    (instances.foldl (backupInstance ec2 today) c).created.map Snapshot.label =
      c.created.map Snapshot.label ++ labelsFrom today c.prettyName
        (instances.filter Instance.isRunning) := by
  intro instances
  induction instances with
  | nil => exact fun c => (List.append_nil _).symm
  | cons i instances ih =>
    intro c
    rw [List.foldl_cons, ih]
    by_cases hrunning : i.state = "running".toList
    · obtain ⟨hname, hcreated⟩ := createSnapshot_label ec2 today i.devices
        { c with prettyName := prettyNameFrom c.prettyName i.tagSet }
      have hstep : backupInstance ec2 today c i = i.devices.foldl (createSnapshot ec2 today)
          { c with prettyName := prettyNameFrom c.prettyName i.tagSet } :=
        if_neg (not_not.mpr hrunning)
      have hown : prettyNameFrom c.prettyName i.tagSet = i.name.or c.prettyName :=
        prettyNameFrom_eq _ _
      have hkept : i.isRunning = true := decide_eq_true hrunning
      rw [hstep, hcreated, hname, List.filter_cons_of_pos hkept, labelsFrom]
      dsimp only
      rw [hown, List.append_assoc]
    · have hstep : backupInstance ec2 today c i = c := if_pos hrunning
      have hskipped : ¬ i.isRunning = true := mt of_decide_eq_true hrunning
      rw [hstep, List.filter_cons_of_neg hskipped]

/-- **The snapshots of a run, as the loops label them.** -/
theorem createSnapshots_labels (ec2 : Ec2 ι) (today : Date) (reservations : List (List Instance))
    (account : Account ι) :
    (createSnapshots ec2 today reservations account).created.map Snapshot.label =
      labelsFrom today none (runningInstances reservations) := by
  rw [createSnapshots, ← List.foldl_flatten, backupInstance_label]
  rfl

/-! ## The right names -/

theorem lastName_append (tags more : List Tag) :
    lastName (tags ++ more) = (lastName more).or (lastName tags) := by
  rw [lastName, List.filter_append, List.map_append, List.getLast?_append]
  rfl

/-- From any point on, the labels are right exactly when the name found by an instance without a
name of its own is empty, unless it has no volume. -/
theorem labelsFrom_own_iff (today : Date) (found : List Tag) (instances : List Instance) :
    labelsFrom today (lastName found) instances =
        instances.flatMap (fun i => labels today i.name i.devices) ↔
      ∀ before i after, instances = before ++ i :: after →
        i.devices = [] ∨ i.name.isSome = true ∨
          (lastName (found ++ before.flatMap Instance.tags)).getD [] = [] := by
  induction instances generalizing found with
  | nil => simp [labelsFrom]
  | cons i instances ih =>
    have hfound : i.name.or (lastName found) = lastName (found ++ i.tags) :=
      (lastName_append found i.tags).symm
    have hhead : labels today (i.name.or (lastName found)) i.devices =
        labels today i.name i.devices ↔
          i.devices = [] ∨ i.name.isSome = true ∨ (lastName found).getD [] = [] := by
      rw [labels_inj]
      cases i.name with
      | some name => simp
      | none => simp
    -- the name that goes on to the rest is the last one of the tags up to here
    rw [labelsFrom, List.flatMap_cons, labels_append_inj, hhead, hfound, ih]
    constructor
    · rintro ⟨hfirst, hrest⟩ before j after heq
      cases before with
      | nil =>
        obtain ⟨rfl, -⟩ := List.cons.inj heq
        simpa using hfirst
      | cons b before =>
        obtain ⟨rfl, htail⟩ := List.cons.inj heq
        simpa using hrest before j after htail
    · intro h
      constructor
      · simpa using h [] i instances rfl
      · intro before j after heq
        simpa using h (i :: before) j after (by rw [heq, List.cons_append])

/-- **Every snapshot carries the name of its own instance exactly when an instance that has a volume
and no `Name` tag comes before any that has one, or the last name before it is empty.** -/
theorem labels_own_iff (ec2 : Ec2 ι) (today : Date) (reservations : List (List Instance))
    (account : Account ι) :
    (createSnapshots ec2 today reservations account).created.map Snapshot.label =
        (runningInstances reservations).flatMap (fun i => labels today i.name i.devices) ↔
      ∀ before i after, runningInstances reservations = before ++ i :: after →
        i.devices = [] ∨ i.name.isSome = true ∨
          (lastName (before.flatMap Instance.tags)).getD [] = [] := by
  rw [createSnapshots_labels]
  exact labelsFrom_own_iff today [] (runningInstances reservations)

/-- A server without tags. -/
def namelessServer : Instance where
  state := "running".toList
  tagSet := none
  blockDeviceMapping := some [⟨"sda".toList, "vol-2".toList⟩]

/-- Its volume is backed up under the name of the server before it. -/
theorem nameless_server_mislabelled : ¬ ∀ (today : Date) (reservations : List (List Instance))
    (account : Account Nat),
    (createSnapshots countingEc2 today reservations account).created.map Snapshot.label =
      (runningInstances reservations).flatMap fun i => labels today i.name i.devices := by
  intro h
  have hlabels := h january3 [[webServer, namelessServer]] []
  rw [createSnapshots_labels] at hlabels
  exact absurd hlabels (by decide +kernel)

end Backup
end TdsAdmin
