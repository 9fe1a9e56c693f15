import TdsAdmin.Inventory.Ec2

/-!
# What is listed

One call for everything lists some instances, one after the other (`listings`), and what it leaves
is known by them: the groups are the outcome of the entries of all of them, and the index and the
variables of an address are those of the last instance that has it.

Most groups have names that cannot be mistaken for a region or a zone (`IsPlace`): they hold an
underscore or a dot, or no hyphen. What is put into a region or a zone is therefore known
(`push_mem_entries`, `pushGroup_mem_entries`).
-/

set_option autoImplicit false

namespace TdsAdmin
namespace Inventory

open Grouping (Entry Groups)

/-! ## One after the other -/

structure Listing where
  region : Text
  dest : Text
  host : Host

def Listing.zone (l : Listing) : Text := l.host.zone

section Runs

variable (s : Settings)

def entries (records : Records) (l : Listing) : List (Entry Text Text) :=
  match l.host with
  | .ec2 i => instanceEntries s records l.region i l.dest
  | .rds i => rdsEntries s l.region i l.dest

def record (records : Records) (inv : Ec2Inventory) (l : Listing) : Ec2Inventory :=
  inv.record l.region l.dest l.host (entries s records l)

def regionListings (api : Api) (region : Text) : List Listing :=
  ((reservedInstances s api region).filterMap fun i =>
    (instanceDest s i).map fun dest => ⟨region, dest, .ec2 i⟩) ++
  if s.rdsEnabled then ((api.dbInstances region).getD []).filterMap fun i =>
    (rdsDest s i).map fun dest => ⟨region, dest, .rds i⟩ else []

def listings (api : Api) : List Listing := s.regions.flatMap (regionListings s api)

variable {s} {records : Records}

theorem getInstances_eq (region : Text) (instances : List Instance) (inv : Ec2Inventory) :
    instances.foldl (addInstance s records region) inv =
      (instances.filterMap fun i => (instanceDest s i).map fun dest =>
        (⟨region, dest, .ec2 i⟩ : Listing)).foldl (record s records) inv := by
  induction instances generalizing inv with
  | nil => rfl
  | cons i instances ih =>
    rw [List.foldl_cons, ih, List.filterMap_cons]
    unfold addInstance
    cases instanceDest s i <;> rfl

theorem getRdsInstances_eq (region : Text) (instances : List RdsInstance) (inv : Ec2Inventory) :
    instances.foldl (addRdsInstance s region) inv =
      (instances.filterMap fun i => (rdsDest s i).map fun dest =>
        (⟨region, dest, .rds i⟩ : Listing)).foldl (record s records) inv := by
  induction instances generalizing inv with
  | nil => rfl
  | cons i instances ih =>
    rw [List.foldl_cons, ih, List.filterMap_cons]
    unfold addRdsInstance
    cases rdsDest s i <;> rfl

theorem getRegion_eq (api : Api) (inv : Ec2Inventory) (region : Text) :
    getRegion s api inv region =
      (regionListings s api region).foldl (record s (route53Records s api)) inv := by
  unfold getRegion regionListings
  rw [List.foldl_append, getInstancesByRegion, getInstances_eq]
  split
  · rw [getRdsInstancesByRegion, getRdsInstances_eq]
  · rfl

/-- **A call for everything lists one instance after the other.** -/
theorem doApiCalls_eq (api : Api) (inv : Ec2Inventory) : doApiCallsUpdateCache s api inv =
    (listings s api).foldl (record s (route53Records s api)) inv := by
  unfold doApiCallsUpdateCache listings
  rw [List.foldl_flatMap]
  congr 1
  funext inv region
  exact getRegion_eq api inv region

theorem groups_records (ls : List Listing) (inv : Ec2Inventory) :
    (ls.foldl (record s records) inv).groups = inv.groups.run (ls.flatMap (entries s records)) := by
  induction ls generalizing inv with
  | nil => rfl
  | cons l ls ih =>
    rw [List.foldl_cons, ih, List.flatMap_cons, Groups.run_append]
    rfl

/-- **The groups are the outcome of the entries of everything that is listed.** -/
theorem groups_eq (api : Api) (inv : Ec2Inventory) : (doApiCallsUpdateCache s api inv).groups =
    inv.groups.run ((listings s api).flatMap (entries s (route53Records s api))) := by
  rw [doApiCalls_eq, groups_records]

end Runs

/-! ## Domain names -/

theorem mem_addRecord {records : Records} {name resource other found : Text} :
    found ∈ addRecord name records resource other ↔
      found ∈ records other ∨ (other = resource ∧ found = name) := by
  unfold addRecord
  split
  · rename_i h
    rw [List.mem_insert_iff]
    simp [h, or_comm]
  · rename_i h
    simp [h]

theorem mem_addRecords {name other found : Text} (resources : List Text) (records : Records) :
    found ∈ resources.foldl (addRecord name) records other ↔
      found ∈ records other ∨ (other ∈ resources ∧ found = name) := by
  induction resources generalizing records with
  | nil => simp
  | cons resource resources ih =>
    rw [List.foldl_cons, ih, mem_addRecord, List.mem_cons, or_and_right, or_assoc]

theorem mem_addRecordSets {other found : Text} (sets : List RecordSet) (records : Records) :
    found ∈ sets.foldl addRecordSet records other ↔ found ∈ records other ∨
      ∃ set ∈ sets, other ∈ set.resourceRecords ∧ found = Dns.unrooted set.name := by
  induction sets generalizing records with
  | nil => simp
  | cons set sets ih =>
    rw [List.foldl_cons, ih, addRecordSet, mem_addRecords, List.exists_mem_cons_iff, or_assoc]

theorem mem_addZones {other found : Text} (zones : List HostedZone) (records : Records) :
    found ∈ zones.foldl addZone records other ↔ found ∈ records other ∨
      ∃ zone ∈ zones, ∃ set ∈ zone.rrsets,
        other ∈ set.resourceRecords ∧ found = Dns.unrooted set.name := by
  induction zones generalizing records with
  | nil => simp
  | cons zone zones ih =>
    rw [List.foldl_cons, ih, addZone, mem_addRecordSets, List.exists_mem_cons_iff, or_assoc]

/-- The record sets of the zones that are not excluded. -/
def shownSets (s : Settings) (api : Api) : List RecordSet :=
  (api.zones.filter fun zone =>
    !s.route53ExcludedZones.contains zone.name.dropLast).flatMap HostedZone.rrsets

/-- **A name leads to a resource as the record sets of Route 53 say.** -/
theorem mem_route53Records {s : Settings} {api : Api} (h : s.route53Enabled = true)
    {resource name : Text} : name ∈ route53Records s api resource ↔
      ∃ set ∈ shownSets s api, resource ∈ set.resourceRecords ∧ name = Dns.unrooted set.name := by
  unfold route53Records getRoute53Records
  rw [if_pos h, mem_addZones, shownSets]
  simp only [List.mem_flatMap, List.not_mem_nil, false_or]
  apply Iff.intro
  · intro ⟨zone, hzone, set, hset, hname⟩
    exact ⟨set, ⟨zone, hzone, hset⟩, hname⟩
  · intro ⟨set, ⟨zone, hzone, hset⟩, hname⟩
    exact ⟨zone, hzone, set, hset, hname⟩

theorem mem_instanceNames {records : Records} {i : Instance} {name : Text} :
    name ∈ getInstanceRoute53Names records i ↔
      ∃ attrib value, i.attr attrib = some value ∧ name ∈ records value := by
  have hall : ∀ attrib, attrib ∈ instanceAttributes := by
    intro attrib
    cases attrib <;> decide
  rw [getInstanceRoute53Names, List.mem_dedup, List.mem_flatMap]
  apply Iff.intro
  · intro ⟨attrib, _, hname⟩
    cases hvalue : i.attr attrib with
    | none => simp [hvalue] at hname
    | some value =>
      rw [hvalue] at hname
      exact ⟨attrib, value, hvalue, hname⟩
  · intro ⟨attrib, value, hvalue, hname⟩
    exact ⟨attrib, hall attrib, by rw [hvalue]; exact hname⟩

/-! ## Names of groups -/

/-- A region or a zone has a name of this form. -/
structure IsPlace (key : Text) : Prop where
  no_underscore : '_' ∉ key
  no_dot : '.' ∉ key
  hyphen : '-' ∈ key

theorem underscore_mem_toSafe {word : Text} (h : '_' ∈ word) : '_' ∈ toSafe word := by
  apply List.mem_map.mpr
  exact ⟨'_', h, rfl⟩

theorem dot_not_mem_toSafe (word : Text) : '.' ∉ toSafe word := by
  intro h
  obtain ⟨c, -, hc⟩ := List.mem_map.mp h
  split at hc
  · rename_i hplain
    rw [hc] at hplain
    simp at hplain
  · simp at hc

theorem not_isPlace_safe {word : Text} (hword : '_' ∈ word) : ¬ IsPlace (toSafe word) :=
  fun h => h.no_underscore (underscore_mem_toSafe hword)

theorem not_isPlace_fixed {key : Text} (hkey : '-' ∉ key) : ¬ IsPlace key :=
  fun h => hkey h.hyphen

/-! ## Entries -/

section Members

variable {s : Settings} {key host child : Text} {pairs : List (Text × Text)}

@[simp] theorem push_mem_nested : .push key host ∉ nested s pairs := by
  unfold nested
  split <;> simp

@[simp] theorem only_mem_nested : .only key host ∉ nested s pairs := by
  unfold nested
  split <;> simp

@[simp] theorem pushGroup_mem_nested : .pushGroup key child ∈ nested s pairs ↔
    s.nestedGroups = true ∧ (key, child) ∈ pairs := by
  unfold nested
  split
  · rename_i h
    simp [h]
  · rename_i h
    simp [h]

theorem push_mem_placed {region id zone dest : Text} :
    .push key host ∈ placedEntries s region id zone dest ↔
      host = dest ∧ (key = zone ∨ (key = region ∧ s.nestedGroups = false)) := by
  unfold placedEntries
  by_cases h : s.nestedGroups = true
  · simp [h, and_comm]
  · simp [h]
    tauto

theorem pushGroup_mem_placed {region id zone dest : Text} :
    .pushGroup key child ∈ placedEntries s region id zone dest ↔ s.nestedGroups = true ∧
      ((key = "instances".toList ∧ child = id) ∨ (key = "regions".toList ∧ child = region) ∨
        (key = region ∧ child = zone)) := by
  unfold placedEntries
  by_cases h : s.nestedGroups = true <;> simp [h]

theorem only_mem_placed {region id zone dest : Text} :
    .only key host ∈ placedEntries s region id zone dest ↔ key = id ∧ host = dest := by
  unfold placedEntries
  by_cases h : s.nestedGroups = true <;> simp [h]

/-- The names that Route 53 gives hold a dot. -/
def Dotted (records : Records) : Prop := ∀ resource, ∀ name ∈ records resource, '.' ∈ name

/-- A step that has nothing to do with a place. -/
def Elsewhere (e : Entry Text Text) : Prop := ¬ IsPlace e.key ∧ ∀ key host, e ≠ .only key host

theorem elsewhere_push (h : ¬ IsPlace key) : Elsewhere (.push key host) :=
  ⟨h, fun _ _ heq => by cases heq⟩

theorem elsewhere_nested {e : Entry Text Text} (h : ∀ p ∈ pairs, ¬ IsPlace p.1)
    (he : e ∈ nested s pairs) : Elsewhere e := by
  unfold nested at he
  split at he
  · obtain ⟨p, hp, rfl⟩ := List.mem_map.mp he
    exact ⟨h p hp, fun _ _ heq => by cases heq⟩
  · cases he

theorem elsewhere_grouped {dest parent group : Text} (hparent : '-' ∉ parent)
    (hgroup : ¬ IsPlace group) {e : Entry Text Text} (he : e ∈ grouped s dest parent group) :
    Elsewhere e := by
  rcases List.mem_cons.mp he with rfl | he
  · exact elsewhere_push hgroup
  · apply elsewhere_nested _ he
    intro p hp
    rw [List.mem_singleton.mp hp]
    exact not_isPlace_fixed hparent

theorem elsewhere_tag {dest : Text} {tag : Text × Text} {e : Entry Text Text}
    (he : e ∈ tagEntries s dest tag) : Elsewhere e := by
  rcases List.mem_cons.mp he with rfl | he
  · exact elsewhere_push (not_isPlace_safe (by simp))
  · apply elsewhere_nested _ he
    intro p hp
    rcases List.mem_cons.mp hp with rfl | hp
    · exact not_isPlace_fixed (by simp)
    · rw [List.mem_singleton.mp hp]
      exact not_isPlace_safe (by simp)

/-- Where a listed instance is. -/
def Listing.placed (s : Settings) (l : Listing) : List (Entry Text Text) :=
  placedEntries s l.region l.host.id l.zone l.dest

/-- **An instance is put into places by the first of its entries, and by no other.** -/
theorem mem_entries {records : Records} (hdotted : Dotted records) {l : Listing}
    {e : Entry Text Text} (he : e ∈ entries s records l) : e ∈ l.placed s ∨ Elsewhere e := by
  unfold entries at he
  unfold Listing.placed Listing.zone
  cases hhost : l.host with
  | ec2 i =>
    rw [hhost] at he
    simp only [instanceEntries, List.mem_append, List.mem_flatMap, List.mem_singleton] at he
    rcases he with (((((he | he) | he) | he) | he) | he) | he
    · exact Or.inl he
    · exact Or.inr (elsewhere_grouped (by simp) (not_isPlace_safe (by simp)) he)
    · obtain ⟨name, -, he⟩ := he
      exact Or.inr (elsewhere_grouped (by simp) (not_isPlace_safe (by simp)) he)
    · obtain ⟨name, -, he⟩ := he
      exact Or.inr (elsewhere_grouped (by simp) (not_isPlace_safe (by simp)) he)
    · obtain ⟨tag, -, he⟩ := he
      exact Or.inr (elsewhere_tag he)
    · split at he
      · obtain ⟨name, hname, he⟩ := List.mem_flatMap.mp he
        obtain ⟨attrib, value, -, hrecord⟩ := mem_instanceNames.mp hname
        have hplace : ¬ IsPlace name := fun h => h.no_dot (hdotted value name hrecord)
        exact Or.inr (elsewhere_grouped (by simp) hplace he)
      · cases he
    · rw [he]
      exact Or.inr (elsewhere_push (not_isPlace_fixed (by simp)))
  | rds i =>
    rw [hhost] at he
    simp only [rdsEntries, List.mem_append, List.mem_flatMap, List.mem_singleton] at he
    rcases he with ((((he | he) | he) | he) | he) | he
    · exact Or.inl he
    · exact Or.inr (elsewhere_grouped (by simp) (not_isPlace_safe (by simp)) he)
    · obtain ⟨name, -, he⟩ := he
      exact Or.inr (elsewhere_grouped (by simp) (not_isPlace_safe (by simp)) he)
    · exact Or.inr (elsewhere_grouped (by simp) (not_isPlace_safe (by simp)) he)
    · exact Or.inr (elsewhere_grouped (by simp) (not_isPlace_safe (by simp)) he)
    · rw [he]
      exact Or.inr (elsewhere_push (not_isPlace_fixed (by simp)))

theorem placed_mem_entries {records : Records} {l : Listing} {e : Entry Text Text}
    (he : e ∈ l.placed s) : e ∈ entries s records l := by
  unfold entries
  unfold Listing.placed Listing.zone at he
  cases hhost : l.host with
  | ec2 i =>
    rw [hhost] at he
    simp only [instanceEntries, List.mem_append]
    exact Or.inl (Or.inl (Or.inl (Or.inl (Or.inl (Or.inl he)))))
  | rds i =>
    rw [hhost] at he
    simp only [rdsEntries, List.mem_append]
    exact Or.inl (Or.inl (Or.inl (Or.inl (Or.inl he))))

theorem push_mem_entries {records : Records} (hdotted : Dotted records) (hkey : IsPlace key)
    {l : Listing} : .push key host ∈ entries s records l ↔
      host = l.dest ∧ (key = l.zone ∨ (key = l.region ∧ s.nestedGroups = false)) := by
  have hplaced : .push key host ∈ l.placed s ↔
      host = l.dest ∧ (key = l.zone ∨ (key = l.region ∧ s.nestedGroups = false)) := push_mem_placed
  rw [← hplaced]
  apply Iff.intro
  · intro h
    exact (mem_entries hdotted h).resolve_right fun helse => helse.1 hkey
  · exact placed_mem_entries

theorem pushGroup_mem_entries {records : Records} (hdotted : Dotted records) (hkey : IsPlace key)
    {l : Listing} : .pushGroup key child ∈ entries s records l ↔
      s.nestedGroups = true ∧ key = l.region ∧ child = l.zone := by
  have hplaced : .pushGroup key child ∈ l.placed s ↔
      s.nestedGroups = true ∧ key = l.region ∧ child = l.zone := by
    have hinstances : key ≠ "instances".toList := fun heq =>
      not_isPlace_fixed (by simp) (heq ▸ hkey)
    have hregions : key ≠ "regions".toList := fun heq =>
      not_isPlace_fixed (by simp) (heq ▸ hkey)
    rw [Listing.placed, pushGroup_mem_placed]
    simp only [hinstances, hregions, false_and, false_or]
  rw [← hplaced]
  apply Iff.intro
  · intro h
    exact (mem_entries hdotted h).resolve_right fun helse => helse.1 hkey
  · exact placed_mem_entries

theorem only_mem_entries {records : Records} {l : Listing} :
    .only key host ∈ entries s records l ↔ key = l.host.id ∧ host = l.dest := by
  unfold entries
  cases hhost : l.host with
  | ec2 i =>
    have hnames : .only key host ∉ (if s.route53Enabled then (getInstanceRoute53Names records
        i).flatMap (grouped s l.dest "route53".toList) else []) := by
      split <;> simp [grouped]
    simp only [instanceEntries, List.mem_append, hnames]
    simp [only_mem_placed, grouped, tagEntries, Host.id]
  | rds i => simp [rdsEntries, only_mem_placed, grouped, Host.id]

end Members

/-! ### A region -/

def web : Instance where
  id := "i-1".toList
  state := "running".toList
  subnetId := none
  publicDnsName := some "ec2-2.aws.com".toList
  privateDnsName := some "ip-10.internal".toList
  ipAddress := some "54.1.1.1".toList
  privateIpAddress := some "10.1.1.1".toList
  placement := "us-east-1a".toList
  instanceType := "m1.small".toList
  keyName := none
  groups := ["web".toList]
  tags := [("Env".toList, "dev".toList)]

def data : RdsInstance where
  id := "data".toList
  status := "available".toList
  endpoint := "data.rds.com".toList
  availabilityZone := "us-east-1b".toList
  instanceClass := "db.m1".toList
  securityGroup := none
  engine := "mysql".toList
  parameterGroup := "default".toList

def webSet : RecordSet := ⟨"web.ots.org.".toList, ["ec2-2.aws.com".toList]⟩

def webApi : Api where
  zones := [⟨"ots.org.".toList, [webSet]⟩]
  instances _ _ := [web]
  dbInstances _ := some [data]

/-- The values of `ec2.ini`, for one region. -/
def webSettings : Settings where
  regions := ["us-east-1".toList]
  destinationVariable := .publicDnsName
  vpcDestinationVariable := .ipAddress
  route53Enabled := true
  route53ExcludedZones := []
  rdsEnabled := true
  allInstances := false
  allRdsInstances := false
  nestedGroups := false
  patternInclude := none
  patternExclude := none
  instanceFilters := []

theorem web_listings : listings webSettings webApi =
    [] ++ ⟨"us-east-1".toList, "ec2-2.aws.com".toList, .ec2 web⟩ ::
      [⟨"us-east-1".toList, "data.rds.com".toList, .rds data⟩] := rfl

end Inventory
end TdsAdmin
