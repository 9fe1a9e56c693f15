import Mathlib.Data.List.Dedup
import TdsAdmin.Dns.Zone
import TdsAdmin.Lib.Grouping

/-!
# `ec2.py`

The inventory for Ansible: what EC2, RDS and Route 53 say about the instances that there are,
turned into groups of addresses. An instance is put under its own id, its region, its zone, its
type and so on, and under every domain name of Route 53 that leads to one of its addresses.

The reserved entry `_meta` is kept beside the groups, and what an address has there is the instance
itself, of which the variables of a host are read. The cache files and the arguments of the command
are left out.
-/

set_option autoImplicit false

namespace TdsAdmin
namespace Inventory

open Grouping (Entry Groups)
open Dns (unrooted)

/-! ## What the services say -/

/-- The attributes of an instance that are addresses. -/
inductive Attribute where
  | publicDnsName | privateDnsName | ipAddress | privateIpAddress
  deriving DecidableEq

structure Instance where
  id : Text
  state : Text
  subnetId : Option Text
  publicDnsName : Option Text
  privateDnsName : Option Text
  ipAddress : Option Text
  privateIpAddress : Option Text
  placement : Text
  instanceType : Text
  keyName : Option Text
  /-- The names of the security groups. -/
  groups : List Text
  tags : List (Text × Text)
  deriving DecidableEq

/-- `getattr` -/
def Instance.attr (i : Instance) : Attribute → Option Text
  | .publicDnsName => i.publicDnsName
  | .privateDnsName => i.privateDnsName
  | .ipAddress => i.ipAddress
  | .privateIpAddress => i.privateIpAddress

structure RdsInstance where
  id : Text
  status : Text
  /-- `endpoint[0]` -/
  endpoint : Text
  availabilityZone : Text
  instanceClass : Text
  securityGroup : Option Text
  engine : Text
  parameterGroup : Text
  deriving DecidableEq

inductive Host where
  | ec2 (i : Instance)
  | rds (i : RdsInstance)
  deriving DecidableEq

def Host.id : Host → Text
  | .ec2 i => i.id
  | .rds i => i.id

def Host.zone : Host → Text
  | .ec2 i => i.placement
  | .rds i => i.availabilityZone

structure RecordSet where
  name : Text
  resourceRecords : List Text

structure HostedZone where
  name : Text
  rrsets : List RecordSet

/-- The answers of one run. -/
structure Api where
  zones : List HostedZone
  /-- `get_all_instances`, with one filter or with none -/
  instances : Text → Option (Text × List Text) → List Instance
  /-- `get_all_dbinstances`, where a region has that service -/
  dbInstances : Text → Option (List RdsInstance)

/-- `ec2.ini` -/
structure Settings where
  regions : List Text
  destinationVariable : Attribute
  vpcDestinationVariable : Attribute
  route53Enabled : Bool
  route53ExcludedZones : List Text
  rdsEnabled : Bool
  allInstances : Bool
  allRdsInstances : Bool
  nestedGroups : Bool
  patternInclude : Option (Text → Bool)
  patternExclude : Option (Text → Bool)
  instanceFilters : List (Text × List Text)

/-! ## Domain names -/

/-- `self.route53_records`: the names that lead to a resource. -/
abbrev Records := Text → List Text

def addRecord (name : Text) (records : Records) (resource : Text) : Records :=
  fun other => if other = resource then (records other).insert name else records other

def addRecordSet (records : Records) (set : RecordSet) : Records :=
  set.resourceRecords.foldl (addRecord (unrooted set.name)) records

def addZone (records : Records) (zone : HostedZone) : Records :=
  zone.rrsets.foldl addRecordSet records

def getRoute53Records (excluded : List Text) (zones : List HostedZone) : Records :=
  (zones.filter fun zone => !excluded.contains zone.name.dropLast).foldl addZone fun _ => []

def instanceAttributes : List Attribute :=
  [.publicDnsName, .privateDnsName, .ipAddress, .privateIpAddress]

def getInstanceRoute53Names (records : Records) (i : Instance) : List Text :=
  (instanceAttributes.flatMap fun attrib => ((i.attr attrib).map records).getD []).dedup

/-! ## Groups -/

/-- `re.sub("[^A-Za-z0-9\-]", "_", word)` -/
def toSafe (word : Text) : Text :=
  word.map fun c => if c.isAlphanum || c == '-' then c else '_'

section Steps

variable (s : Settings)

/-- What is done only when groups are nested. -/
def nested (pairs : List (Text × Text)) : List (Entry Text Text) :=
  if s.nestedGroups then pairs.map fun p => .pushGroup p.1 p.2 else []

/-- An address is put into a group that has a parent. -/
def grouped (dest parent key : Text) : List (Entry Text Text) :=
  .push key dest :: nested s [(parent, key)]

/-- Both kinds of instances, as far as their zone. -/
def placedEntries (region id zone dest : Text) : List (Entry Text Text) :=
  .only id dest :: nested s [("instances".toList, id)] ++
  (if s.nestedGroups then [.pushGroup "regions".toList region] else [.push region dest]) ++
  (.push zone dest :: nested s [(region, zone)])

def tagEntries (dest : Text) (tag : Text × Text) : List (Entry Text Text) :=
  let key := toSafe ("tag_".toList ++ tag.1 ++ "=".toList ++ tag.2)
  .push key dest :: nested s
    [("tags".toList, toSafe ("tag_".toList ++ tag.1)), (toSafe ("tag_".toList ++ tag.1), key)]

/-- An attribute that may be missing or empty. -/
def given (value : Option Text) : Option Text := value.filter fun v => v ≠ []

/-- What `add_instance` does to the groups. -/
def instanceEntries (records : Records) (region : Text) (i : Instance) (dest : Text) :
    List (Entry Text Text) :=
  placedEntries s region i.id i.placement dest ++
  grouped s dest "types".toList (toSafe ("type_".toList ++ i.instanceType)) ++
  (given i.keyName).toList.flatMap (fun name =>
    grouped s dest "keys".toList (toSafe ("key_".toList ++ name))) ++
  i.groups.flatMap (fun name =>
    grouped s dest "security_groups".toList (toSafe ("security_group_".toList ++ name))) ++
  i.tags.flatMap (tagEntries s dest) ++
  (if s.route53Enabled then (getInstanceRoute53Names records i).flatMap
    (grouped s dest "route53".toList) else []) ++
  [.push "ec2".toList dest]

/-- What `add_rds_instance` does to the groups. -/
def rdsEntries (region : Text) (i : RdsInstance) (dest : Text) : List (Entry Text Text) :=
  placedEntries s region i.id i.availabilityZone dest ++
  grouped s dest "types".toList (toSafe ("type_".toList ++ i.instanceClass)) ++
  i.securityGroup.toList.flatMap (fun name =>
    grouped s dest "security_groups".toList (toSafe ("security_group_".toList ++ name))) ++
  grouped s dest "rds_engines".toList (toSafe ("rds_".toList ++ i.engine)) ++
  grouped s dest "rds_parameter_groups".toList
    (toSafe ("rds_parameter_group_".toList ++ i.parameterGroup)) ++
  [.push "rds".toList dest]

/-! ## The inventory -/

/-- The address under which `add_instance` lists an instance, if it does. -/
def instanceDest (i : Instance) : Option Text :=
  if !s.allInstances && i.state ≠ "running".toList then none
  else do
    let dest ← given (i.attr (if (given i.subnetId).isSome then s.vpcDestinationVariable
      else s.destinationVariable))
    if s.patternInclude.map (fun includes => includes dest) = some false then none
    else if s.patternExclude.map (fun excludes => excludes dest) = some true then none
    else some dest

/-- The same of `add_rds_instance`, which does not look at the patterns. -/
def rdsDest (i : RdsInstance) : Option Text :=
  if !s.allRdsInstances && i.status ≠ "available".toList then none
  else given (some i.endpoint)

end Steps

structure Ec2Inventory where
  groups : Groups Text Text
  /-- The region and the id of the instance that has an address. -/
  index : Text → Option (Text × Text)
  hostvars : Text → Option Host

def emptyInventory : Ec2Inventory := ⟨fun _ => none, fun _ => none, fun _ => none⟩

/-- An instance is listed. -/
def Ec2Inventory.record (inv : Ec2Inventory) (region dest : Text) (host : Host)
    (entries : List (Entry Text Text)) : Ec2Inventory where
  groups := inv.groups.run entries
  index other := if other = dest then some (region, host.id) else inv.index other
  hostvars other := if other = dest then some host else inv.hostvars other

section Calls

variable (s : Settings)

def addInstance (records : Records) (region : Text) (inv : Ec2Inventory) (i : Instance) :
    Ec2Inventory :=
  match instanceDest s i with
  | none => inv
  | some dest => inv.record region dest (.ec2 i) (instanceEntries s records region i dest)

def addRdsInstance (region : Text) (inv : Ec2Inventory) (i : RdsInstance) : Ec2Inventory :=
  match rdsDest s i with
  | none => inv
  | some dest => inv.record region dest (.rds i) (rdsEntries s region i dest)

/-- An instance comes once for every filter that lets it through. -/
def reservedInstances (api : Api) (region : Text) : List Instance :=
  if s.instanceFilters = [] then api.instances region none
  else s.instanceFilters.flatMap fun filter => api.instances region (some filter)

def getInstancesByRegion (api : Api) (records : Records) (inv : Ec2Inventory) (region : Text) :
    Ec2Inventory :=
  (reservedInstances s api region).foldl (addInstance s records region) inv

def getRdsInstancesByRegion (api : Api) (inv : Ec2Inventory) (region : Text) : Ec2Inventory :=
  ((api.dbInstances region).getD []).foldl (addRdsInstance s region) inv

/-- `self.route53_records`, which is not read unless it is made. -/
def route53Records (api : Api) : Records :=
  if s.route53Enabled then getRoute53Records s.route53ExcludedZones api.zones else fun _ => []

def getRegion (api : Api) (inv : Ec2Inventory) (region : Text) : Ec2Inventory :=
  let inv := getInstancesByRegion s api (route53Records s api) inv region
  if s.rdsEnabled then getRdsInstancesByRegion s api inv region else inv

def doApiCallsUpdateCache (api : Api) (inv : Ec2Inventory) : Ec2Inventory :=
  s.regions.foldl (getRegion s api) inv

end Calls

end Inventory
end TdsAdmin
