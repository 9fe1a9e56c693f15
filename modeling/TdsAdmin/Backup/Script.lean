import TdsAdmin.Lib.Calendar
import TdsAdmin.Lib.Pattern

/-!
# `backup_all_ebs_volumes.pl`

One run makes a snapshot of every volume of every running instance and then removes the backups
that are too old. What it knows about the age of a backup is what it reads in the description:
the day is written there as text when the snapshot is made, behind the instance's name, and
read back on every later run.

The EC2 account is the list of its snapshots. Which identifier a new snapshot gets is up to
EC2; all that is known is that no snapshot of the account has it (`Ec2.fresh_new`). Every call
succeeds.
-/

set_option autoImplicit false

namespace TdsAdmin
namespace Backup

structure Tag where
  key : Text
  value : Text

structure BlockDevice where
  deviceName : Text
  volumeId : Text

/-- An instance as `describe_instances` lists it; `none` is an `undef` list. -/
structure Instance where
  state : Text
  tagSet : Option (List Tag)
  blockDeviceMapping : Option (List BlockDevice)

structure Snapshot (ι : Type) where
  snapshotId : ι
  volumeId : Text
  description : Text

/-- The snapshots of the owner, in the order in which `describe_snapshots` lists them. -/
abbrev Account (ι : Type) := List (Snapshot ι)

structure Ec2 (ι : Type) where
  fresh : Account ι → ι
  fresh_new : ∀ account, ∀ s ∈ account, s.snapshotId ≠ fresh account

def BACKUP_KEYWORD : Text := "Backup".toList
def DAYS_TO_KEEP : Int := 3

/-! ## Creating -/

/-- `$month/$day/$year` -/
def dateText (today : Date) : Text :=
  Text.decimal today.month ++ '/' :: (Text.decimal today.day ++ '/' :: Text.decimal today.year)

/-- `$description`; an undefined name counts as the empty string. -/
def description (prettyName : Option Text) (deviceName : Text) (today : Date) : Text :=
  BACKUP_KEYWORD ++ ' ' :: (prettyName.getD [] ++ ':' :: (deviceName ++ ' ' :: dateText today))

/-- The tags of one instance: the last `Name` wins, and without one the name of the instance
before stays. -/
def prettyNameFrom (prettyName : Option Text) (tagSet : Option (List Tag)) : Option Text :=
  (tagSet.getD []).foldl (fun name tag => if tag.key = "Name".toList then some tag.value else name)
    prettyName

/-- What the first loop carries: the name, the account, and the snapshots this run made. -/
structure Creating (ι : Type) where
  prettyName : Option Text
  account : Account ι
  created : List (Snapshot ι)

variable {ι : Type}

/-- `create_snapshot` -/
def createSnapshot (ec2 : Ec2 ι) (today : Date) (c : Creating ι) (device : BlockDevice) :
    Creating ι :=
  let snapshot : Snapshot ι :=
    ⟨ec2.fresh c.account, device.volumeId, description c.prettyName device.deviceName today⟩
  { c with account := c.account ++ [snapshot], created := c.created ++ [snapshot] }

def backupInstance (ec2 : Ec2 ι) (today : Date) (c : Creating ι) (i : Instance) : Creating ι :=
  if i.state ≠ "running".toList then c
  else (i.blockDeviceMapping.getD []).foldl (createSnapshot ec2 today)
    { c with prettyName := prettyNameFrom c.prettyName i.tagSet }

/-- The loop over the reservations. -/
def createSnapshots (ec2 : Ec2 ι) (today : Date) (reservations : List (List Instance))
    (account : Account ι) : Creating ι :=
  reservations.foldl (fun c instances => instances.foldl (backupInstance ec2 today) c)
    ⟨none, account, []⟩

/-! ## Removing -/

/-- `/^$BACKUP_KEYWORD/` -/
def isBackup (s : Snapshot ι) : Bool := BACKUP_KEYWORD.isPrefixOf s.description

/-- `(split(' ',$snapshot->description))[-1]` -/
def lastField (s : Text) : Option Text :=
  ((s.splitOnP Pattern.isSpace).filter fun w => !w.isEmpty).getLast?

/-- `/(\d+)\/(\d+)\/(\d+)/` -/
def datePattern : Pattern :=
  [.capture Text.isDigit 1, .one (· == '/'), .capture Text.isDigit 1, .one (· == '/'),
    .capture Text.isDigit 1]

/-- `$snap_month`, `$snap_day` and `$snap_year` as a date, if the description ends in one. -/
def snapshotDate (s : Snapshot ι) : Option Date :=
  match (lastField s.description).bind datePattern.captures with
  | some [month, day, year] =>
      Date.ofNumbers (Text.ofDecimal year) (Text.ofDecimal month) (Text.ofDecimal day)
  | _ => none

/-- `delete_snapshot` -/
def deleteSnapshot [DecidableEq ι] (account : Account ι) (snapshotId : ι) : Account ι :=
  account.filter fun s => s.snapshotId ≠ snapshotId

/-- One turn of the second loop; `none` when `Delta_Days` dies, since there is no such date. -/
def removeStep [DecidableEq ι] (today : Date) (account : Account ι) (s : Snapshot ι) :
    Option (Account ι) :=
  if isBackup s then
    (snapshotDate s).map fun date =>
      if Date.deltaDays date today > DAYS_TO_KEEP then deleteSnapshot account s.snapshotId
      else account
  else some account

def removeSnapshots [DecidableEq ι] (today : Date) (account : Account ι) : Option (Account ι) :=
  account.foldlM (removeStep today) account

/-- The snapshots that the second loop asks EC2 to delete, in order, as far as it comes. -/
def removalRequests (today : Date) : List (Snapshot ι) → List (Snapshot ι)
  | [] => []
  | s :: rest =>
      if isBackup s then
        match snapshotDate s with
        | none => []
        | some date =>
            (if Date.deltaDays date today > DAYS_TO_KEEP then [s] else []) ++
              removalRequests today rest
      else removalRequests today rest

/-- One run of the script: the snapshots it makes and the account it leaves. -/
def backupAllEbsVolumes [DecidableEq ι] (ec2 : Ec2 ι) (today : Date)
    (reservations : List (List Instance)) (account : Account ι) :
    Option (List (Snapshot ι) × Account ι) :=
  let c := createSnapshots ec2 today reservations account
  (removeSnapshots today c.account).map fun account => (c.created, account)

end Backup
end TdsAdmin
