import TdsAdmin.Proof.Inventory.Listing

/-!
# The groups of an inventory

Groups can be nested or flat. A group that is no region holds the same hosts in the same order in
both layouts, and a region that is nested leads to the hosts that it holds when it is flat
(`nested_lists`).

Whatever is asked, and however often, every host of a group is in the index and has its variables,
and every child is a group (`inventory_whole`). A host that is not known makes the script ask for
everything a second time, on top of what it has: each group then holds its hosts twice, and nothing
else changes (`asked_again`).
-/

set_option autoImplicit false

namespace TdsAdmin
namespace Inventory

open Grouping (Entry Groups)

/-! ## The two layouts -/

def layout (s : Settings) (nestedGroups : Bool) : Settings := { s with nestedGroups }

section Layouts

variable {s : Settings} {records : Records} {key : Text}

theorem foldl_nested (pairs : List (Text × Text)) (hosts : List Text) :
    (nested s pairs).foldl (Entry.onHosts key) hosts = hosts := by
  unfold nested
  split
  · induction pairs with
    | nil => rfl
    | cons p pairs ih => exact ih
  · rfl

theorem foldl_grouped (dest parent group : Text) (hosts : List Text) :
    (grouped s dest parent group).foldl (Entry.onHosts key) hosts =
      if key = group then hosts ++ [dest] else hosts := by
  rw [grouped, List.foldl_cons, foldl_nested]
  rfl

theorem foldl_tag (dest : Text) (tag : Text × Text) (hosts : List Text) :
    (tagEntries s dest tag).foldl (Entry.onHosts key) hosts =
      if key = toSafe ("tag_".toList ++ tag.1 ++ "=".toList ++ tag.2) then hosts ++ [dest]
      else hosts := by
  unfold tagEntries
  rw [List.foldl_cons, foldl_nested]
  rfl

theorem foldl_placed {region : Text} (hregion : key ≠ region) (id zone dest : Text)
    (hosts : List Text) : (placedEntries s region id zone dest).foldl (Entry.onHosts key) hosts =
      Entry.onHosts key (Entry.onHosts key hosts (.only id dest)) (.push zone dest) := by
  have hplace : ∀ hosts : List Text, (if s.nestedGroups then [.pushGroup "regions".toList region]
      else [.push region dest]).foldl (Entry.onHosts key) hosts = hosts := by
    intro hosts
    split
    · rfl
    · exact if_neg hregion
  unfold placedEntries
  rw [List.foldl_append, List.foldl_append, List.foldl_cons, foldl_nested, hplace, List.foldl_cons,
    foldl_nested]

/-- An instance does the same to a group in both layouts, if it is not the region's. -/
theorem foldl_entries_layout {l : Listing} (hregion : key ≠ l.region) (hosts : List Text) :
    (entries (layout s true) records l).foldl (Entry.onHosts key) hosts =
      (entries (layout s false) records l).foldl (Entry.onHosts key) hosts := by
  unfold entries
  cases l.host with
  | ec2 i =>
    have hnames : ∀ b hosts, (if (layout s b).route53Enabled then (getInstanceRoute53Names records
        i).flatMap (grouped (layout s b) l.dest "route53".toList) else []).foldl
          (Entry.onHosts key) hosts = if s.route53Enabled then (getInstanceRoute53Names records
            i).foldl (fun hosts name => if key = name then hosts ++ [l.dest] else hosts) hosts
          else hosts := by
      intro b hosts
      have hsame : (layout s b).route53Enabled = s.route53Enabled := rfl
      rw [hsame]
      split
      · simp only [List.foldl_flatMap, foldl_grouped]
      · rfl
    simp only [instanceEntries, List.foldl_append, List.foldl_flatMap, foldl_placed hregion,
      foldl_grouped, foldl_tag, hnames]
  | rds i =>
    simp only [rdsEntries, List.foldl_append, List.foldl_flatMap, foldl_placed hregion,
      foldl_grouped]

theorem foldl_listings_layout {ls : List Listing} (hregion : ∀ l ∈ ls, key ≠ l.region)
    (hosts : List Text) :
    (ls.flatMap (entries (layout s true) records)).foldl (Entry.onHosts key) hosts =
      (ls.flatMap (entries (layout s false) records)).foldl (Entry.onHosts key) hosts := by
  induction ls generalizing hosts with
  | nil => rfl
  | cons l ls ih =>
    rw [List.flatMap_cons, List.flatMap_cons, List.foldl_append, List.foldl_append,
      foldl_entries_layout (hregion l List.mem_cons_self)]
    exact ih (fun l hl => hregion l (List.mem_cons_of_mem _ hl)) _

end Layouts

/-- What everything that is listed is called. -/
structure Named (records : Records) (ls : List Listing) : Prop where
  dotted : Dotted records
  region : ∀ l ∈ ls, IsPlace l.region
  zone : ∀ l ∈ ls, IsPlace l.zone
  /-- No region is a zone, or is the id of an instance. -/
  region_ne : ∀ l ∈ ls, ∀ l' ∈ ls, l.region ≠ l'.zone ∧ l.region ≠ l'.host.id
  zone_ne : ∀ l ∈ ls, ∀ l' ∈ ls, l.zone ≠ l'.host.id
  /-- A zone lies in one region. -/
  lies : ∀ l ∈ ls, ∀ l' ∈ ls, l.zone = l'.zone → l.region = l'.region

section Regions

variable {s : Settings} {records : Records} {ls : List Listing}

/-- The groups when nothing was there before. -/
def groupsOf (s : Settings) (records : Records) (ls : List Listing) : Groups Text Text :=
  Groups.run (fun _ => none) (ls.flatMap (entries s records))

theorem Named.not_region (h : Named records ls) {l : Listing} (hl : l ∈ ls) (host : Text) :
    .only l.region host ∉ ls.flatMap (entries s records) := by
  intro hmem
  obtain ⟨l', hl', hmem⟩ := List.mem_flatMap.mp hmem
  exact (h.region_ne l hl l' hl').2 (only_mem_entries.mp hmem).1

theorem Named.not_zone (h : Named records ls) {l : Listing} (hl : l ∈ ls) (host : Text) :
    .only l.zone host ∉ ls.flatMap (entries s records) := by
  intro hmem
  obtain ⟨l', hl', hmem⟩ := List.mem_flatMap.mp hmem
  exact h.zone_ne l hl l' hl' (only_mem_entries.mp hmem).1

/-- A place that is no id holds what is put there. -/
theorem mem_hosts_place {key host : Text} (hdotted : Dotted records) (hkey : IsPlace key)
    (hnot : ∀ host, .only key host ∉ ls.flatMap (entries s records)) :
    host ∈ (groupsOf s records ls).hosts key ↔
      ∃ l ∈ ls, host = l.dest ∧ (key = l.zone ∨ (key = l.region ∧ s.nestedGroups = false)) := by
  rw [groupsOf, Groups.hosts_run_into hnot]
  have hnew : Groups.hosts (fun _ => none : Groups Text Text) key = [] := rfl
  rw [hnew, List.nil_append, List.mem_filterMap]
  apply Iff.intro
  · intro h
    obtain ⟨e, he, hinto⟩ := h
    obtain ⟨l, hl, he⟩ := List.mem_flatMap.mp he
    cases e with
    | push k element =>
      rw [Entry.into] at hinto
      split at hinto
      · rename_i hk
        cases hinto
        rw [← hk] at he
        exact ⟨l, hl, (push_mem_entries hdotted hkey).mp he⟩
      · cases hinto
    | pushGroup k element => cases hinto
    | only k element =>
      rw [Entry.into] at hinto
      split at hinto
      · rename_i hk
        rw [← hk] at he
        exact absurd (List.mem_flatMap.mpr ⟨l, hl, he⟩) (hnot element)
      · cases hinto
  · intro h
    obtain ⟨l, hl, hpush⟩ := h
    refine ⟨.push key host, ?_, if_pos rfl⟩
    exact List.mem_flatMap.mpr ⟨l, hl, (push_mem_entries hdotted hkey).mpr hpush⟩

theorem mem_children_place {key child : Text} (hdotted : Dotted records) (hkey : IsPlace key)
    (h : child ∈ (groupsOf s records ls).children key) :
    ∃ l ∈ ls, key = l.region ∧ child = l.zone := by
  rcases Groups.mem_children_run h with hnew | hmem
  · cases hnew
  · obtain ⟨l, hl, hmem⟩ := List.mem_flatMap.mp hmem
    exact ⟨l, hl, ((pushGroup_mem_entries hdotted hkey).mp hmem).2⟩

/-- A zone is the end of the way. -/
theorem member_zone (h : Named records ls) {l : Listing} (hl : l ∈ ls) {host : Text} :
    (groupsOf s records ls).Member l.zone host → ∃ l' ∈ ls, l'.zone = l.zone ∧ host = l'.dest := by
  intro hmember
  cases hmember with
  | here hhost =>
    rw [mem_hosts_place h.dotted (h.zone l hl) (h.not_zone hl)] at hhost
    obtain ⟨l', hl', hdest, hzone | ⟨hregion, -⟩⟩ := hhost
    · exact ⟨l', hl', hzone.symm, hdest⟩
    · exact absurd hregion.symm (h.region_ne l' hl' l hl).1
  | inside hchild hmember =>
    obtain ⟨l', hl', hregion, -⟩ := mem_children_place h.dotted (h.zone l hl) hchild
    exact absurd hregion.symm (h.region_ne l' hl' l hl).1

theorem member_region (h : Named records ls) (hnested : s.nestedGroups = true) {l : Listing}
    (hl : l ∈ ls) {host : Text} : (groupsOf s records ls).Member l.region host ↔
      ∃ l' ∈ ls, l'.region = l.region ∧ host = l'.dest := by
  apply Iff.intro
  · intro hmember
    cases hmember with
    | here hhost =>
      rw [mem_hosts_place h.dotted (h.region l hl) (h.not_region hl)] at hhost
      obtain ⟨l', hl', -, hzone | ⟨-, hflat⟩⟩ := hhost
      · exact absurd hzone (h.region_ne l hl l' hl').1
      · rw [hnested] at hflat
        cases hflat
    | inside hchild hmember =>
      obtain ⟨l', hl', hregion, rfl⟩ := mem_children_place h.dotted (h.region l hl) hchild
      obtain ⟨l'', hl'', hzone, hdest⟩ := member_zone h hl' hmember
      exact ⟨l'', hl'', (h.lies l'' hl'' l' hl' hzone).trans hregion.symm, hdest⟩
  · intro ⟨l', hl', hregion, hdest⟩
    rw [← hregion]
    have hchild : l'.zone ∈ (groupsOf s records ls).children l'.region := by
      apply Groups.pushGroup_children_run (h.not_region hl')
      apply List.mem_flatMap.mpr
      exact ⟨l', hl', (pushGroup_mem_entries h.dotted (h.region l' hl')).mpr ⟨hnested, rfl, rfl⟩⟩
    apply Groups.Member.inside hchild
    apply Groups.Member.here
    rw [mem_hosts_place h.dotted (h.zone l' hl') (h.not_zone hl')]
    exact ⟨l', hl', hdest, Or.inl rfl⟩

end Regions

/-! ## What is in order -/

/-- Entries that put one address into groups, and make children of groups. -/
structure Proper (dest : Text) (es : List (Entry Text Text)) : Prop where
  own : ∀ e ∈ es, ∀ key host, e.into key = some host → host = dest
  closed : ∀ key child, .pushGroup key child ∈ es → ∃ e ∈ es, child = e.key

section Proper

variable {s : Settings} {dest : Text} {es es' : List (Entry Text Text)}

theorem Proper.nil : Proper dest [] :=
  ⟨fun _ h => absurd h List.not_mem_nil, fun _ _ h => absurd h List.not_mem_nil⟩

theorem Proper.append (h : Proper dest es) (h' : Proper dest es') : Proper dest (es ++ es') where
  own e he := (List.mem_append.mp he).elim (h.own e) (h'.own e)
  closed key child hmem := by
    rcases List.mem_append.mp hmem with hmem | hmem
    · obtain ⟨e, he, hkey⟩ := h.closed key child hmem
      exact ⟨e, List.mem_append_left _ he, hkey⟩
    · obtain ⟨e, he, hkey⟩ := h'.closed key child hmem
      exact ⟨e, List.mem_append_right _ he, hkey⟩

theorem Proper.flatMap {α : Type} {f : α → List (Entry Text Text)} (h : ∀ a, Proper dest (f a))
    (as : List α) : Proper dest (as.flatMap f) := by
  induction as with
  | nil => exact Proper.nil
  | cons a as ih =>
    rw [List.flatMap_cons]
    exact (h a).append ih

theorem own_push {k key host : Text} (h : (Entry.push k dest).into key = some host) :
    host = dest := by
  rw [Entry.into] at h
  split at h <;> cases h
  rfl

theorem own_nested {pairs : List (Text × Text)} {e : Entry Text Text} (he : e ∈ nested s pairs)
    {key host : Text} (h : e.into key = some host) : host = dest := by
  unfold nested at he
  split at he
  · obtain ⟨p, -, rfl⟩ := List.mem_map.mp he
    cases h
  · cases he

theorem Proper.push (key : Text) : Proper dest [.push key dest] where
  own e he key host h := by
    rw [List.mem_singleton.mp he] at h
    exact own_push h
  closed key child hmem := by
    cases List.mem_singleton.mp hmem

theorem proper_grouped (parent key : Text) : Proper dest (grouped s dest parent key) where
  own e he k host h := by
    rcases List.mem_cons.mp he with rfl | he
    · exact own_push h
    · exact own_nested he h
  closed k child hmem := by
    have hchild : child = key := by
      simp [grouped] at hmem
      exact hmem.2.2
    exact ⟨_, List.mem_cons_self, hchild⟩

theorem proper_tag (tag : Text × Text) : Proper dest (tagEntries s dest tag) where
  own e he k host h := by
    rcases List.mem_cons.mp he with rfl | he
    · exact own_push h
    · exact own_nested he h
  closed k child hmem := by
    rcases List.mem_cons.mp hmem with heq | hmem
    · cases heq
    · rw [pushGroup_mem_nested, List.mem_cons, List.mem_singleton] at hmem
      obtain ⟨hnested, heq | heq⟩ := hmem
      · injection heq with _ hchild
        refine ⟨.pushGroup child (toSafe ("tag_".toList ++ tag.1 ++ "=".toList ++ tag.2)), ?_, rfl⟩
        apply List.mem_cons_of_mem
        rw [pushGroup_mem_nested, hchild]
        exact ⟨hnested, List.mem_cons_of_mem _ List.mem_cons_self⟩
      · injection heq with _ hchild
        exact ⟨_, List.mem_cons_self, hchild⟩

theorem proper_placed (region id zone : Text) :
    Proper dest (placedEntries s region id zone dest) where
  own e he k host h := by
    cases e with
    | push key element =>
      rw [(push_mem_placed.mp he).1] at h
      exact own_push h
    | pushGroup key element => cases h
    | only key element =>
      rw [(only_mem_placed.mp he).2, Entry.into] at h
      split at h <;> cases h
      rfl
  closed key child hmem := by
    obtain ⟨hnested, ⟨-, hchild⟩ | ⟨-, hchild⟩ | ⟨-, hchild⟩⟩ := pushGroup_mem_placed.mp hmem
    · exact ⟨.only id dest, only_mem_placed.mpr ⟨rfl, rfl⟩, hchild⟩
    · refine ⟨.pushGroup region zone, ?_, hchild⟩
      exact pushGroup_mem_placed.mpr ⟨hnested, Or.inr (Or.inr ⟨rfl, rfl⟩)⟩
    · exact ⟨.push zone dest, push_mem_placed.mpr ⟨rfl, Or.inl rfl⟩, hchild⟩

theorem proper_entries (records : Records) (l : Listing) :
    Proper l.dest (entries s records l) := by
  unfold entries
  cases l.host with
  | ec2 i =>
    unfold instanceEntries
    apply Proper.append _ (Proper.push _)
    apply Proper.append
    · apply Proper.append _ (Proper.flatMap proper_tag _)
      apply Proper.append _ (Proper.flatMap (fun _ => proper_grouped _ _) _)
      apply Proper.append _ (Proper.flatMap (fun _ => proper_grouped _ _) _)
      exact (proper_placed _ _ _).append (proper_grouped _ _)
    · split
      · exact Proper.flatMap (fun _ => proper_grouped _ _) _
      · exact Proper.nil
  | rds i =>
    unfold rdsEntries
    apply Proper.append _ (Proper.push _)
    apply Proper.append _ (proper_grouped _ _)
    apply Proper.append _ (proper_grouped _ _)
    apply Proper.append _ (Proper.flatMap (fun _ => proper_grouped _ _) _)
    exact (proper_placed _ _ _).append (proper_grouped _ _)

end Proper

/-- An inventory that Ansible can use. -/
structure Whole (inv : Ec2Inventory) : Prop where
  listed : ∀ key host, host ∈ inv.groups.hosts key → (inv.index host).isSome
  children : ∀ key child, child ∈ inv.groups.children key → (inv.groups child).isSome
  hostvars : ∀ host, (inv.hostvars host).map Host.id = (inv.index host).map Prod.snd

theorem Whole.empty : Whole emptyInventory where
  listed _ _ h := absurd h List.not_mem_nil
  children _ _ h := absurd h List.not_mem_nil
  hostvars _ := rfl

theorem Whole.record {inv : Ec2Inventory} (h : Whole inv) (s : Settings) (records : Records)
    (l : Listing) : Whole (record s records inv l) where
  listed key host hmem := by
    have hindex : host = l.dest ∨ (inv.index host).isSome := by
      rcases Groups.mem_hosts_run hmem with hmem | ⟨e, he, hinto⟩
      · exact Or.inr (h.listed key host hmem)
      · exact Or.inl ((proper_entries records l).own e he key host hinto)
    change (if host = l.dest then some (l.region, l.host.id) else inv.index host).isSome
    split
    · rfl
    · rename_i hne
      exact hindex.resolve_left hne
  children key child hmem := by
    apply (Groups.isSome_run _ _).mpr
    rcases Groups.mem_children_run hmem with hmem | hmem
    · exact Or.inl (h.children key child hmem)
    · exact Or.inr ((proper_entries records l).closed key child hmem)
  hostvars host := by
    change (if host = l.dest then some l.host else inv.hostvars host).map Host.id =
      (if host = l.dest then some (l.region, l.host.id) else inv.index host).map Prod.snd
    split
    · rfl
    · exact h.hostvars host

theorem Whole.calls {inv : Ec2Inventory} (h : Whole inv) (s : Settings) (api : Api) :
    Whole (doApiCallsUpdateCache s api inv) := by
  rw [doApiCalls_eq]
  induction listings s api generalizing inv with
  | nil => exact h
  | cons l ls ih => exact ih (h.record s _ l)

/-! ## Asked again -/

/-- The last instance that is listed under an address. -/
def lastListing (ls : List Listing) (dest : Text) : Option Listing :=
  ls.reverse.find? fun l => l.dest = dest

theorem index_records {s : Settings} {records : Records} (ls : List Listing) (inv : Ec2Inventory)
    (dest : Text) : (ls.foldl (record s records) inv).index dest =
      ((lastListing ls dest).map fun l => (l.region, l.host.id)).or (inv.index dest) ∧
    (ls.foldl (record s records) inv).hostvars dest =
      ((lastListing ls dest).map Listing.host).or (inv.hostvars dest) := by
  induction ls using List.reverseRecOn with
  | nil => exact ⟨rfl, rfl⟩
  | append_singleton ls l ih =>
    rw [List.foldl_append, List.foldl_cons, List.foldl_nil, lastListing, List.reverse_append,
      List.reverse_singleton, List.singleton_append, List.find?_cons]
    by_cases hdest : dest = l.dest
    · simp [record, Ec2Inventory.record, hdest]
    · simp only [record, Ec2Inventory.record, if_neg hdest, decide_eq_false (Ne.symm hdest)]
      exact ih

/-- Two inventories that differ at most in how often and in what order something is listed. -/
structure SameContent (inv inv' : Ec2Inventory) : Prop where
  index : inv.index = inv'.index
  hostvars : inv.hostvars = inv'.hostvars
  hosts : ∀ key host, host ∈ inv.groups.hosts key ↔ host ∈ inv'.groups.hosts key
  children : ∀ key child, child ∈ inv.groups.children key ↔ child ∈ inv'.groups.children key

section Runs

variable (s : Settings) (api : Api)

/-- **The two layouts list the same hosts.** -/
theorem nested_lists (h : Named (route53Records s api) (listings s api)) :
    let nested := (doApiCallsUpdateCache (layout s true) api emptyInventory).groups
    let flat := (doApiCallsUpdateCache (layout s false) api emptyInventory).groups
    (∀ key, (∀ l ∈ listings s api, key ≠ l.region) → nested.hosts key = flat.hosts key) ∧
      ∀ l ∈ listings s api, ∀ host, nested.Member l.region host ↔ host ∈ flat.hosts l.region := by
  dsimp only
  rw [groups_eq, groups_eq]
  refine ⟨?_, ?_⟩
  · intro key hkey
    rw [Groups.hosts_run, Groups.hosts_run]
    exact foldl_listings_layout hkey _
  · intro l hl host
    refine (member_region h rfl hl).trans (Iff.trans ?_
      (mem_hosts_place h.dotted (h.region l hl) (h.not_region hl)).symm)
    apply exists_congr
    intro l'
    apply and_congr_right
    intro hl'
    have hzone : l.region ≠ l'.zone := (h.region_ne l hl l' hl').1
    have hlayout : (layout s false).nestedGroups = false := rfl
    simp only [hzone, hlayout, and_true, false_or]
    rw [and_comm, eq_comm (a := l'.region)]

theorem web_named : Named (route53Records webSettings webApi) (listings webSettings webApi) where
  dotted resource name hname := by
    obtain ⟨set, hset, -, rfl⟩ := (mem_route53Records rfl).mp hname
    rw [List.mem_singleton.mp hset]
    decide
  region := by
    rw [web_listings]
    simp only [List.nil_append, List.forall_mem_cons]
    exact ⟨⟨by simp, by simp, by simp⟩, ⟨by simp, by simp, by simp⟩, List.forall_mem_nil _⟩
  zone := by
    rw [web_listings]
    simp only [List.nil_append, List.forall_mem_cons]
    exact ⟨⟨by decide, by decide, by decide⟩, ⟨by decide, by decide, by decide⟩,
      List.forall_mem_nil _⟩
  region_ne := by
    rw [web_listings]
    simp only [List.nil_append, List.forall_mem_cons]
    decide
  zone_ne := by
    rw [web_listings]
    simp only [List.nil_append, List.forall_mem_cons]
    decide
  lies := by
    rw [web_listings]
    simp only [List.nil_append, List.forall_mem_cons]
    decide

theorem nested_lists_web :
    let nested := (doApiCallsUpdateCache (layout webSettings true) webApi emptyInventory).groups
    let flat := (doApiCallsUpdateCache (layout webSettings false) webApi emptyInventory).groups
    (∀ key, (∀ l ∈ listings webSettings webApi, key ≠ l.region) →
        nested.hosts key = flat.hosts key) ∧
      ∀ l ∈ listings webSettings webApi, ∀ host,
        nested.Member l.region host ↔ host ∈ flat.hosts l.region :=
  nested_lists webSettings webApi web_named

/-- **However often everything is asked, with whatever settings and answers, what is listed is in
order.** -/
theorem inventory_whole (calls : List (Settings × Api)) :
    Whole (calls.foldl (fun inv call => doApiCallsUpdateCache call.1 call.2 inv)
      emptyInventory) := by
  have hrun : ∀ {inv : Ec2Inventory}, Whole inv →
      Whole (calls.foldl (fun inv call => doApiCallsUpdateCache call.1 call.2 inv) inv) := by
    induction calls with
    | nil => exact fun h => h
    | cons call calls ih => exact fun h => ih (h.calls call.1 call.2)
  exact hrun Whole.empty

/-- **Asking a second time doubles the hosts of a group, and changes neither what is in a group nor
what is known of a host.** -/
theorem asked_again :
    SameContent (doApiCallsUpdateCache s api (doApiCallsUpdateCache s api emptyInventory))
        (doApiCallsUpdateCache s api emptyInventory) ∧
      ∀ key, (∀ l ∈ listings s api, key ≠ l.host.id) →
        (doApiCallsUpdateCache s api (doApiCallsUpdateCache s api emptyInventory)).groups.hosts key
          = (doApiCallsUpdateCache s api emptyInventory).groups.hosts key ++
            (doApiCallsUpdateCache s api emptyInventory).groups.hosts key := by
  refine ⟨⟨?_, ?_, ?_, ?_⟩, ?_⟩
  · funext dest
    rw [doApiCalls_eq, doApiCalls_eq, (index_records _ _ dest).1, (index_records _ _ dest).1]
    cases lastListing (listings s api) dest <;> rfl
  · funext dest
    rw [doApiCalls_eq, doApiCalls_eq, (index_records _ _ dest).2, (index_records _ _ dest).2]
    cases lastListing (listings s api) dest <;> rfl
  · intro key host
    rw [groups_eq, groups_eq]
    exact Groups.hosts_run_twice _ rfl host
  · intro key child
    rw [groups_eq, groups_eq]
    exact Groups.children_run_twice _ rfl child
  · intro key hkey
    have hnot : ∀ host, .only key host ∉
        (listings s api).flatMap (entries s (route53Records s api)) := by
      intro host hmem
      obtain ⟨l, hl, hmem⟩ := List.mem_flatMap.mp hmem
      exact hkey l hl (only_mem_entries.mp hmem).1
    have hnew : emptyInventory.groups.hosts key = [] := rfl
    rw [groups_eq, groups_eq, Groups.hosts_run_into hnot, Groups.hosts_run_into hnot, hnew,
      List.nil_append]

end Runs

end Inventory
end TdsAdmin
