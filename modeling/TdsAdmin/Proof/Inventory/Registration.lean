import TdsAdmin.Proof.Dns.Update
import TdsAdmin.Proof.Inventory.Listing

/-!
# A registered instance in the inventory

`create_instance.sh` gives a new instance its name in Route 53, asks `ec2.py` for everything and
runs Ansible with `--limit` and that name. Here the two are put together: once the name is
registered, the group of that name is the new instance and no other (`limit_reaches`).

A domain name holds a dot, which keeps it apart from every other group (`into_dotted`).
-/

set_option autoImplicit false

namespace TdsAdmin
namespace Inventory

open Grouping (Entry Groups)
open Dns (Hostname Lifetime IsAnswer Route53 Zone updateCname)

/-! ## The group of a domain name -/

section Dotted

variable {s : Settings} {records : Records} {key : Text}

theorem into_nested (pairs : List (Text × Text)) :
    (nested s pairs).filterMap (Entry.into key) = [] := by
  rw [List.filterMap_eq_nil_iff]
  intro e he
  unfold nested at he
  split at he
  · obtain ⟨p, -, rfl⟩ := List.mem_map.mp he
    rfl
  · cases he

theorem into_grouped (dest parent group : Text) :
    (grouped s dest parent group).filterMap (Entry.into key) =
      if key = group then [dest] else [] := by
  by_cases h : key = group <;> simp [grouped, into_nested, Entry.into, h]

/-- An address is put into a group once. -/
theorem into_names {names : List Text} (h : names.Nodup) (dest parent : Text) :
    (names.flatMap (grouped s dest parent)).filterMap (Entry.into key) =
      if key ∈ names then [dest] else [] := by
  induction names with
  | nil => rfl
  | cons name names ih =>
    rw [List.nodup_cons] at h
    rw [List.flatMap_cons, List.filterMap_append, into_grouped, ih h.2]
    by_cases hname : key = name
    · subst hname
      simp [h.1]
    · simp [hname]

theorem ne_of_dot {other : Text} (hkey : '.' ∈ key) (hother : '.' ∉ other) : key ≠ other := by
  intro heq
  exact hother (heq ▸ hkey)

theorem ne_toSafe (hkey : '.' ∈ key) (word : Text) : key ≠ toSafe word :=
  ne_of_dot hkey (dot_not_mem_toSafe word)

theorem into_grouped_safe (hkey : '.' ∈ key) (dest parent word : Text) :
    (grouped s dest parent (toSafe word)).filterMap (Entry.into key) = [] := by
  rw [into_grouped, if_neg (ne_toSafe hkey word)]

theorem into_tag (hkey : '.' ∈ key) (dest : Text) (tag : Text × Text) :
    (tagEntries s dest tag).filterMap (Entry.into key) = [] := by
  unfold tagEntries
  rw [List.filterMap_cons, into_nested, Entry.into, if_neg (ne_toSafe hkey _)]

theorem into_placed {region id zone dest : Text} (hid : key ≠ id) (hregion : key ≠ region)
    (hzone : key ≠ zone) :
    (placedEntries s region id zone dest).filterMap (Entry.into key) = [] := by
  have hplace : (if s.nestedGroups then [.pushGroup "regions".toList region]
      else [.push region dest]).filterMap (Entry.into key) = [] := by
    split
    · rfl
    · simp [Entry.into, hregion]
  unfold placedEntries
  simp only [List.filterMap_append, List.filterMap_cons, into_nested, hplace, Entry.into, hid,
    hzone, if_false, List.append_nil]

theorem into_push {group dest : Text} (h : key ≠ group) :
    [Entry.push group dest].filterMap (Entry.into key) = [] := by
  simp [Entry.into, h]

theorem flatMap_nothing {α β : Type} (as : List α) : (as.flatMap fun _ => ([] : List β)) = [] :=
  List.flatMap_eq_nil_iff.mpr fun _ _ => rfl

/-- The names of an instance are no domain names. -/
structure Undotted (l : Listing) : Prop where
  id : '.' ∉ l.host.id
  region : '.' ∉ l.region
  zone : '.' ∉ l.zone

/-- Whether a domain name leads to what is listed. -/
def leadsTo (s : Settings) (records : Records) (key : Text) (l : Listing) : Bool :=
  match l.host with
  | .ec2 i => s.route53Enabled && (getInstanceRoute53Names records i).contains key
  | .rds _ => false

/-- **Only Route 53 puts an address into the group of a domain name.** -/
theorem into_dotted (hkey : '.' ∈ key) {l : Listing} (hl : Undotted l) :
    (entries s records l).filterMap (Entry.into key) =
      if leadsTo s records key l then [l.dest] else [] := by
  have hid := ne_of_dot hkey hl.id
  have hregion := ne_of_dot hkey hl.region
  have hzone := ne_of_dot hkey hl.zone
  unfold Listing.zone at hzone
  unfold entries leadsTo
  cases hhost : l.host with
  | ec2 i =>
    rw [hhost] at hid hzone
    have hnames : (if s.route53Enabled then (getInstanceRoute53Names records i).flatMap
        (grouped s l.dest "route53".toList) else []).filterMap (Entry.into key) =
          if s.route53Enabled && (getInstanceRoute53Names records i).contains key then [l.dest]
          else [] := by
      split
      · rename_i henabled
        have hnodup : (getInstanceRoute53Names records i).Nodup := List.nodup_dedup _
        rw [into_names hnodup, henabled]
        simp
      · rename_i henabled
        simp [henabled]
    have hplaced : (placedEntries s l.region i.id i.placement l.dest).filterMap
        (Entry.into key) = [] := into_placed hid hregion hzone
    have hec2 : [Entry.push "ec2".toList l.dest].filterMap (Entry.into key) = [] :=
      into_push (ne_of_dot hkey (by simp))
    simp only [instanceEntries, List.filterMap_append, List.filterMap_flatMap, hplaced,
      into_grouped_safe hkey, into_tag hkey, hnames, hec2, flatMap_nothing, List.append_nil,
      List.nil_append]
  | rds i =>
    rw [hhost] at hid hzone
    have hplaced : (placedEntries s l.region i.id i.availabilityZone l.dest).filterMap
        (Entry.into key) = [] := into_placed hid hregion hzone
    have hrds : [Entry.push "rds".toList l.dest].filterMap (Entry.into key) = [] :=
      into_push (ne_of_dot hkey (by simp))
    simp only [rdsEntries, List.filterMap_append, List.filterMap_flatMap, hplaced,
      into_grouped_safe hkey, hrds, flatMap_nothing, List.append_nil, if_neg Bool.false_ne_true]

/-- The group of a domain name has what the name leads to, in the order in which it is listed. -/
theorem hosts_dotted {api : Api} (hkey : '.' ∈ key) (hls : ∀ l ∈ listings s api, Undotted l) :
    (doApiCallsUpdateCache s api emptyInventory).groups.hosts key =
      ((listings s api).filter (leadsTo s (route53Records s api) key)).map Listing.dest := by
  have hnot : ∀ host, .only key host ∉
      (listings s api).flatMap (entries s (route53Records s api)) := by
    intro host hmem
    obtain ⟨l, hl, hmem⟩ := List.mem_flatMap.mp hmem
    exact ne_of_dot hkey (hls l hl).id (only_mem_entries.mp hmem).1
  have hnew : emptyInventory.groups.hosts key = [] := rfl
  rw [groups_eq, Groups.hosts_run_into hnot, hnew, List.nil_append]
  generalize listings s api = ls at hls
  induction ls with
  | nil => rfl
  | cons l ls ih =>
    rw [List.forall_mem_cons] at hls
    rw [List.flatMap_cons, List.filterMap_append, into_dotted hkey hls.1, List.filter_cons]
    split
    · rw [List.map_cons, ← ih (fun l hl => hls.2 l hl), List.singleton_append]
    · rw [← ih (fun l hl => hls.2 l hl), List.nil_append]

end Dotted

/-! ## After a registration -/

/-- What Route 53 tells of a zone: a name that has an alias has one record set, with its value. -/
structure Shows (sets : List RecordSet) (z : Zone) : Prop where
  shown : ∀ {name ttl value}, z.cname name = some (ttl, value) →
    ∃ set ∈ sets, Dns.unrooted set.name = name
  alone : ∀ {name ttl value}, z.cname name = some (ttl, value) →
    ∀ set ∈ sets, Dns.unrooted set.name = name → set.resourceRecords = [value]

variable {s : Settings} {api : Api}

/-- A name leads to the instances that have the value of its alias among their addresses. -/
theorem leadsTo_alias (henabled : s.route53Enabled = true) {z : Zone}
    (hz : Shows (shownSets s api) z) {fqdn ttl value : Text}
    (hcname : z.cname fqdn = some (ttl, value)) {l : Listing} :
    leadsTo s (route53Records s api) fqdn l = true ↔
      ∃ i attrib, l.host = .ec2 i ∧ i.attr attrib = some value := by
  have hleads : ∀ resource, fqdn ∈ route53Records s api resource ↔ resource = value := by
    intro resource
    rw [mem_route53Records henabled]
    apply Iff.intro
    · intro ⟨set, hset, hresource, hname⟩
      rw [hz.alone hcname set hset hname.symm, List.mem_singleton] at hresource
      exact hresource
    · intro heq
      obtain ⟨set, hset, hname⟩ := hz.shown hcname
      have halone := hz.alone hcname set hset hname
      exact ⟨set, hset, by rw [halone, heq]; exact List.mem_cons_self, hname.symm⟩
  unfold leadsTo
  cases l.host with
  | ec2 i =>
    simp only [henabled, Bool.true_and, List.contains_iff_mem, mem_instanceNames, hleads]
    apply Iff.intro
    · intro ⟨attrib, resource, hattr, heq⟩
      exact ⟨i, attrib, rfl, heq ▸ hattr⟩
    · intro ⟨i', attrib, heq, hattr⟩
      injection heq with heq
      exact ⟨attrib, value, heq ▸ hattr, rfl⟩
  | rds i => simp

/-- **Ansible that is limited to the name of a new instance runs on that instance and on no
other**: the one whose public name was registered, under the address at which it is listed. -/
theorem limit_reaches (matching : Text → List Text) (service : Route53) {z : Zone}
    {authServer answer : Text} (hserver : authServer ≠ []) {fqdn : Hostname}
    {held : Option (Lifetime × Hostname)} (h : IsAnswer fqdn held answer)
    (hheld : z.Holds fqdn held) (hfree : z.taken fqdn.text = false) {ec2Name : Hostname}
    (henabled : s.route53Enabled = true)
    (hshown : Shows (shownSets s api) (service.receive z
      (updateCname matching authServer answer fqdn.text ec2Name.text)))
    (hdot : '.' ∈ fqdn.text) (hundotted : ∀ l ∈ listings s api, Undotted l)
    {before after : List Listing} {region dest : Text} {i : Instance}
    (hlisted : listings s api = before ++ ⟨region, dest, .ec2 i⟩ :: after)
    (hpublic : i.publicDnsName = some ec2Name.text)
    (hothers : ∀ l ∈ before ++ after, ∀ i' attrib, l.host = .ec2 i' →
      i'.attr attrib ≠ some ec2Name.text) :
    (doApiCallsUpdateCache s api emptyInventory).groups.hosts fqdn.text = [dest] := by
  have hcname : ∃ ttl, (service.receive z (updateCname matching authServer answer fqdn.text
      ec2Name.text)).cname fqdn.text = some (ttl, ec2Name.text) := by
    rcases Dns.receive_updateCname matching service hserver h hheld hfree ec2Name with
      ⟨halready, heq⟩ | heq
    · rw [heq, hheld]
      cases held with
      | none => cases halready
      | some r =>
        injection halready with hname
        have hname : r.2.text = ec2Name.text := hname
        exact ⟨r.1.text, by rw [Option.map_some, hname]⟩
    · rw [heq, Zone.set_same]
      exact ⟨_, rfl⟩
  obtain ⟨ttl, hcname⟩ := hcname
  have hother : ∀ l ∈ before ++ after,
      ¬ leadsTo s (route53Records s api) fqdn.text l = true := by
    intro l hl hleads
    obtain ⟨i', attrib, hhost, hattr⟩ := (leadsTo_alias henabled hshown hcname).mp hleads
    exact hothers l hl i' attrib hhost hattr
  have hthis : leadsTo s (route53Records s api) fqdn.text ⟨region, dest, .ec2 i⟩ = true :=
    (leadsTo_alias henabled hshown hcname).mpr ⟨i, .publicDnsName, rfl, hpublic⟩
  have hbefore : before.filter (leadsTo s (route53Records s api) fqdn.text) = [] :=
    List.filter_eq_nil_iff.mpr fun l hl => hother l (List.mem_append_left _ hl)
  have hafter : after.filter (leadsTo s (route53Records s api) fqdn.text) = [] :=
    List.filter_eq_nil_iff.mpr fun l hl => hother l (List.mem_append_right _ hl)
  rw [hosts_dotted hdot hundotted, hlisted, List.filter_append, List.filter_cons_of_pos hthis,
    hbefore, hafter]
  rfl

theorem webSets_shown : Shows (shownSets webSettings webApi) (Dns.plainRoute53.receive Dns.webZone
    (updateCname (fun _ => []) "ns".toList (Text.unlines (["; <<>> DiG".toList] ++
      Dns.webLine :: [])) Dns.webName.text Dns.newInstance.text)) := by
  have hzone : Dns.plainRoute53.receive Dns.webZone (updateCname (fun _ => []) "ns".toList
      (Text.unlines (["; <<>> DiG".toList] ++ Dns.webLine :: [])) Dns.webName.text
      Dns.newInstance.text) =
        Dns.webZone.set Dns.webName.text (some (Dns.newTTL, Dns.newInstance.text)) := by
    have hserver : "ns".toList ≠ [] := by decide
    have hnot : Dns.oldInstance.text ≠ Dns.newInstance.text := by decide
    apply (Dns.receive_updateCname (fun _ => []) Dns.plainRoute53 hserver Dns.webAnswer
      Dns.webZone_holds rfl Dns.newInstance).resolve_left
    intro ⟨halready, _⟩
    injection halready with heq
    exact hnot heq
  have hcname : ∀ {name ttl value}, (Dns.webZone.set Dns.webName.text
      (some (Dns.newTTL, Dns.newInstance.text))).cname name = some (ttl, value) →
        name = Dns.webName.text ∧ value = Dns.newInstance.text := by
    intro name ttl value h
    by_cases hname : name = Dns.webName.text
    · subst hname
      rw [Zone.set_same] at h
      cases h
      exact ⟨rfl, rfl⟩
    · rw [Zone.set_other _ _ hname, Dns.webZone] at h
      simp only [if_neg hname] at h
      cases h
  rw [hzone]
  refine ⟨?_, ?_⟩
  · intro name ttl value h
    rw [(hcname h).1]
    exact ⟨webSet, List.mem_singleton.mpr rfl, rfl⟩
  · intro name ttl value h set hset _
    rw [List.mem_singleton.mp hset, (hcname h).2]
    rfl

theorem limit_reaches_web : (doApiCallsUpdateCache webSettings webApi emptyInventory).groups.hosts
    Dns.webName.text = ["ec2-2.aws.com".toList] := by
  apply limit_reaches (fun _ => []) Dns.plainRoute53 (by decide) Dns.webAnswer Dns.webZone_holds rfl
    rfl webSets_shown (by decide) _ web_listings rfl
  · intro l hl
    rw [List.mem_singleton.mp hl]
    intro i' attrib hhost
    cases hhost
  · intro l hl
    rw [web_listings, List.nil_append, List.mem_cons, List.mem_singleton] at hl
    rcases hl with rfl | rfl
    · exact ⟨by decide, by decide, by decide⟩
    · exact ⟨by decide, by decide, by decide⟩

end Inventory
end TdsAdmin
