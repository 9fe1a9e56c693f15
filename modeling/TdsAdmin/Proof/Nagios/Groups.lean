import Mathlib.Data.List.Nodup
import Mathlib.Data.List.Perm.Subperm
import TdsAdmin.Proof.Nagios.Hosts

/-!
# When the groups refer to hosts that are defined once

The groups are made from the list of the servers with NRPE, so their members are right as soon as
the host definitions are. Those name every server of the list and possibly more: a server that is
listed twice is defined twice, and the second address of a lookup is taken for the name of another
host, which is either not in the list or there already (`consistent_iff`).
-/

set_option autoImplicit false

namespace TdsAdmin
namespace Nagios

open Expand (unquoted)
open Fields (isIfs awkFields)

/-! ## The lists of the groups -/

section Lists

variable (matching : Text → List Text) (hosts : List Host)

theorem intercalate_map (f : Char → Char) (c : Char) : ∀ words : List Text,
    ([c].intercalate words).map f = [f c].intercalate (words.map (List.map f))
  | [] => rfl
  | [w] => by rw [List.intercalate_singleton, List.map_singleton, List.intercalate_singleton]
  | w :: v :: words => by
    rw [List.intercalate_cons_cons, List.map_append, List.map_append,
      intercalate_map f c (v :: words)]
    exact List.intercalate_cons_cons.symm

/-- The members of a group, with commas between them. -/
theorem joined_ledList : joined matching (ledList (hosts.map Host.text)) =
    [','].intercalate (hosts.map Host.text) := by
  have hwords : unquoted matching (ledList (hosts.map Host.text)) = hosts.map Host.text :=
    unquoted_hosts matching hosts (Expand.awkFields_led rfl (Host.isWord hosts))
  have hhead : (echo (hosts.map Host.text)).head? ≠ some ' ' := by
    unfold echo
    intro hblank
    cases hosts with
    | nil => cases hblank
    | cons x hosts =>
      obtain ⟨c, w, hx⟩ := List.exists_cons_of_ne_nil x.ne_nil
      have hc : c = ' ' := by
        cases hosts with
        | nil =>
          rw [List.map_singleton, List.intercalate_singleton, hx] at hblank
          exact Option.some.inj hblank
        | cons y hosts =>
          rw [List.map_cons, List.map_cons, List.intercalate_cons_cons, hx] at hblank
          exact Option.some.inj hblank
      refine x.not_mem (c := ' ') (by decide) ?_
      rw [hx, hc]
      exact List.mem_cons_self
  unfold joined commas
  rw [hwords, if_neg hhead]
  unfold echo
  rw [intercalate_map, if_pos rfl, List.map_map]
  refine congrArg _ (List.map_congr_left fun x _ => ?_)
  -- there is no blank in the name of a host
  have hsame : ∀ c ∈ x.text, (if c = ' ' then ',' else c) = c := by
    intro c hc
    refine if_neg fun hblank => x.not_mem (c := ' ') (by decide) ?_
    rw [← hblank]
    exact hc
  exact (List.map_congr_left hsame).trans (List.map_id _)

theorem mem_joined {c : Char} (h : c ∈ [','].intercalate (hosts.map Host.text)) :
    c = ',' ∨ isHostChar c = true := by
  rcases Fields.mem_intercalate h with h | ⟨w, hw, h⟩
  · exact Or.inl h
  · obtain ⟨x, -, rfl⟩ := List.mem_map.mp hw
    exact Or.inr (x.hostChar c h)

/-- They are one word, if there are any. -/
theorem unquoted_joined : unquoted matching ([','].intercalate (hosts.map Host.text)) =
    if hosts = [] then [] else [[','].intercalate (hosts.map Host.text)] := by
  by_cases hnone : hosts = []
  · rw [hnone]
    rfl
  · have hne : [','].intercalate (hosts.map Host.text) ≠ [] := by
      obtain ⟨x, hosts, rfl⟩ := List.exists_cons_of_ne_nil hnone
      cases hosts with
      | nil =>
        rw [List.map_singleton, List.intercalate_singleton]
        exact x.ne_nil
      | cons y hosts =>
        rw [List.map_cons, List.map_cons, List.intercalate_cons_cons, List.append_assoc]
        exact List.append_ne_nil_of_left_ne_nil x.ne_nil _
    have hifs : ∀ c ∈ [','].intercalate (hosts.map Host.text), isIfs c = false := by
      intro c hc
      rcases mem_joined hosts hc with rfl | hchar
      · rfl
      · refine Bool.eq_false_iff.mpr fun hifs => ?_
        simp only [isIfs, Bool.or_eq_true, beq_iff_eq] at hifs
        rcases hifs with (rfl | rfl) | rfl
        · exact absurd hchar (by decide)
        · exact absurd hchar (by decide)
        · exact absurd hchar (by decide)
    have hpattern : Expand.isPattern ([','].intercalate (hosts.map Host.text)) = false := by
      refine Expand.isPattern_eq_false fun c hc hspecial => ?_
      simp only [List.mem_cons, List.not_mem_nil, or_false] at hspecial
      rcases mem_joined hosts hc with rfl | hchar
      · exact absurd hspecial (by decide)
      · rcases hspecial with rfl | rfl | rfl
        · exact absurd hchar (by decide)
        · exact absurd hchar (by decide)
        · exact absurd hchar (by decide)
    rw [if_neg hnone, Expand.unquoted_word hifs hne, Expand.wordFiles_plain hpattern]

/-- A loop for a port keeps the servers that have it open. -/
theorem portServers_eq (isOpen : Scan) (port : Nat) :
    portServers matching isOpen port (ledList (hosts.map Host.text)) =
      ledList ((hosts.filter fun x => isOpen x.text port).map Host.text) := by
  have hloop : ∀ (xs : List Host) (list : Text), (xs.map Host.text).foldl
      (fun list server => if isOpen server port then list ++ ' ' :: server else list) list =
        list ++ ledList ((xs.filter fun x => isOpen x.text port).map Host.text) := by
    intro xs
    induction xs with
    | nil => exact fun list => (List.append_nil list).symm
    | cons x xs ih =>
      intro list
      rw [List.map_cons, List.foldl_cons, ih, List.filter_cons]
      cases isOpen x.text port with
      | true =>
        rw [if_pos rfl, if_pos rfl, List.append_assoc]
        rfl
      | false => rw [if_neg Bool.false_ne_true, if_neg Bool.false_ne_true]
  unfold portServers
  rw [forWords_ledList]
  exact hloop hosts []

end Lists

/-! ## The groups that are read -/

/-- The lines of a group. -/
def groupLines (name gap long_name close members : Text) : List Text :=
  ["define hostgroup\x7b".toList,
    "\thostgroup_name\t".toList ++ (name ++ "\t; The name of the hostgroup".toList),
    "\tmembers".toList ++ (gap ++ members),
    "\talias\t\t".toList ++ (long_name ++ "\t; Long name of the group".toList),
    close ++ ['\x7d']]

theorem formatOnce_group (name gap long_name close : Text) (args : List Text) :
    (Expand.formatOnce (groupFormat name gap long_name close) args).1 =
      Text.unlines (groupLines name gap long_name close (args.headD [])) := by
  unfold groupFormat groupLines Text.unlines
  simp only [Expand.formatOnce, List.flatMap_cons, List.flatMap_nil, List.append_assoc,
    List.append_nil, List.cons_append, List.nil_append]

/-- Reading the members back. -/
theorem members_read {gap : Text} (hgap : ∀ c ∈ gap, c = ' ' ∨ c = '\t') (hosts : List Host) :
    (((gap ++ [','].intercalate (hosts.map Host.text)).dropWhile fun c =>
      c == ' ' || c == '\t').splitOn ',').filter (!·.isEmpty) = hosts.map Host.text := by
  have hdrop : ((gap ++ [','].intercalate (hosts.map Host.text)).dropWhile fun c =>
      c == ' ' || c == '\t') = [','].intercalate (hosts.map Host.text) := by
    refine Pattern.dropWhile_run (fun c hc => ?_) fun c s hs => ?_
    · rcases hgap c hc with rfl | rfl
      · rfl
      · rfl
    · rcases mem_joined hosts (hs ▸ List.mem_cons_self) with rfl | hchar
      · rfl
      · refine Bool.eq_false_iff.mpr fun hblank => ?_
        simp only [Bool.or_eq_true, beq_iff_eq] at hblank
        rcases hblank with rfl | rfl
        · exact absurd hchar (by decide)
        · exact absurd hchar (by decide)
  rw [hdrop]
  by_cases hnone : hosts = []
  · rw [hnone]
    rfl
  · rw [List.splitOn_intercalate ',' (fun w hw => ?_) (by simpa using hnone),
      List.filter_eq_self.mpr fun w hw => ?_]
    · obtain ⟨x, -, rfl⟩ := List.mem_map.mp hw
      simpa using x.ne_nil
    · obtain ⟨x, -, rfl⟩ := List.mem_map.mp hw
      exact x.not_mem (by decide)

/-- A group that is written is one that is read. -/
theorem groupLines_read {gap close : Text} (hgap : ∀ c ∈ gap, c = ' ' ∨ c = '\t')
    (hclose : close = [] ∨ close = ['\t']) (name long_name : Text) (hosts : List Host) :
    (groupLines name gap long_name close ([','].intercalate (hosts.map Host.text))).filterMap
      membersOf = [hosts.map Host.text] := by
  have hmembers := members_read hgap hosts
  -- none of the other lines starts like this one
  rcases hclose with rfl | rfl
  · exact congrArg (fun members => [members]) hmembers
  · exact congrArg (fun members => [members]) hmembers

theorem groupLines_newline {name gap long_name close : Text}
    (h : '\n' ∉ name ++ (gap ++ (long_name ++ close))) (hosts : List Host) :
    ∀ l ∈ groupLines name gap long_name close ([','].intercalate (hosts.map Host.text)),
      '\n' ∉ l := by
  simp only [List.mem_append, not_or] at h
  obtain ⟨hname, hgap, hlong, hclose⟩ := h
  have hjoin : ∀ {s t : Text}, '\n' ∉ s → '\n' ∉ t → '\n' ∉ s ++ t := fun hs ht hmem =>
    (List.mem_append.mp hmem).elim hs ht
  intro l hl
  simp only [groupLines, List.mem_cons, List.not_mem_nil, or_false] at hl
  rcases hl with rfl | rfl | rfl | rfl | rfl
  · decide
  · exact hjoin (by decide) (hjoin hname (by decide))
  · refine hjoin (by decide) (hjoin hgap fun hmem => ?_)
    rcases mem_joined hosts hmem with hcomma | hchar
    · exact absurd hcomma (by decide)
    · exact absurd hchar (by decide)
  · exact hjoin (by decide) (hjoin hlong (by decide))
  · exact hjoin hclose (by decide)

/-- **A group is written with the servers of its list.** -/
theorem printf_group (matching : Text → List Text) (name gap long_name close : Text)
    (hosts : List Host) : Expand.printf (groupFormat name gap long_name close)
      (unquoted matching (joined matching (ledList (hosts.map Host.text)))) =
        Text.unlines (groupLines name gap long_name close
          ([','].intercalate (hosts.map Host.text))) := by
  rw [joined_ledList, unquoted_joined]
  by_cases hnone : hosts = []
  · have hfits : ([] : List Text).length ≤ Expand.slots (groupFormat name gap long_name close) :=
      Nat.zero_le 1
    rw [if_pos hnone, Expand.printf_fits hfits, formatOnce_group, hnone]
    rfl
  · have hfits : [[','].intercalate (hosts.map Host.text)].length ≤
        Expand.slots (groupFormat name gap long_name close) := Nat.le_refl 1
    rw [if_neg hnone, Expand.printf_fits hfits, formatOnce_group]
    rfl

/-- The lists of the five groups. -/
def groupLists (isOpen : Scan) (xs : List Host) : List (List Host) :=
  let onPort (port : Nat) : List Host :=
    (monitored isOpen xs).filter fun x => isOpen x.text port
  [monitored isOpen xs, onPort 8080, onPort 28017, onPort 3306, onPort 80]

/-- **What Nagios reads in `hostgroups.cfg`.** -/
theorem groups_hostgroups (matching : Text → List Text) (isOpen : Scan)
    (dig : Nat → Text → List Answer) (xs : List Host) :
    groups (createNagiosFiles matching isOpen (digText dig) (serverList xs)).hostgroups =
      (groupLists isOpen xs).map (List.map Host.text) := by
  have hone : ∀ {name gap long_name close : Text} (hosts : List Host),
      (∀ c ∈ gap, c = ' ' ∨ c = '\t') → (close = [] ∨ close = ['\t']) →
      '\n' ∉ name ++ (gap ++ (long_name ++ close)) → ∀ file,
      groups (Expand.printf (groupFormat name gap long_name close)
        (unquoted matching (joined matching (ledList (hosts.map Host.text)))) ++ file) =
          hosts.map Host.text :: groups file := by
    intro name gap long_name close hosts hgap hclose hnewline file
    unfold groups
    rw [printf_group, Text.lines_unlines_append (groupLines_newline hnewline hosts),
      List.map_append, List.map_map, List.filterMap_append]
    have hlines : (Text.chomp ∘ fun l => l ++ ['\n']) = id :=
      funext fun l => Text.chomp_append l
    rw [hlines, List.map_id, groupLines_read hgap hclose]
    rfl
  have hblank : ∀ c ∈ " ".toList, c = ' ' ∨ c = '\t' := fun c hc =>
    Or.inl (List.mem_singleton.mp hc)
  have htab : ∀ c ∈ "\t\t".toList, c = ' ' ∨ c = '\t' := by
    intro c hc
    exact Or.inr (List.eq_of_mem_replicate (n := 2) hc)
  unfold createNagiosFiles
  dsimp only
  rw [forWords_serverList, hostLoop_eq]
  dsimp only
  rw [List.nil_append, portServers_eq, portServers_eq, portServers_eq, portServers_eq,
    List.append_assoc, List.append_assoc, List.append_assoc]
  unfold allFormat tomcatFormat mongoFormat mysqlFormat apacheFormat
  rw [hone _ hblank (Or.inl rfl) (by decide),
    hone _ htab (Or.inr rfl) (by decide), hone _ htab (Or.inr rfl) (by decide),
    hone _ htab (Or.inr rfl) (by decide), ← List.append_nil (Expand.printf _ _),
    hone _ htab (Or.inr rfl) (by decide)]
  rfl

/-! ## What the files should say -/

/-- The definitions of a host, active or not. -/
def definedAs (files : Files) (server : Text) : Nat :=
  ((definitions files.hosts).map Prod.snd).count server

/-- The active ones. -/
def activeAs (files : Files) (server : Text) : Nat :=
  (((definitions files.hosts).filter Prod.fst).map Prod.snd).count server

/-- Every server is defined once, and actively if it has NRPE; nothing else is defined; and every
member of a group has one active definition. -/
structure Consistent (isOpen : Scan) (servers : List Text) (files : Files) : Prop where
  once : ∀ server ∈ servers, definedAs files server = 1
  active : ∀ server ∈ servers, (true, server) ∈ definitions files.hosts ↔ isOpen server nrpe = true
  listed : ∀ d ∈ definitions files.hosts, d.2 ∈ servers
  members : ∀ group ∈ groups files.hostgroups, ∀ server ∈ group, activeAs files server = 1

section Consistency

variable (isOpen : Scan) (dig : Nat → Text → List Answer)

/-- The lookups of the first loop. -/
def lookups : Nat → List Host → List (List Host)
  | _, [] => []
  | n, x :: xs => addresses (dig n x.text) :: lookups (n + 1) xs

/-- The names that are defined. -/
def namesFrom (n : Nat) (xs : List Host) : List Text :=
  (definedFrom isOpen dig n xs).map Prod.snd

theorem namesFrom_cons (n : Nat) (x : Host) (xs : List Host) : ∃ extra,
    namesFrom isOpen dig n (x :: xs) = x.text :: (extra ++ namesFrom isOpen dig (n + 1) xs) ∧
      (extra = [] ↔ (addresses (dig n x.text)).length ≤ 1) := by
  unfold namesFrom
  rw [definedFrom, List.map_append, List.map_map, argsFor]
  cases addresses (dig n x.text) with
  | nil => exact ⟨[], rfl, iff_of_true rfl (Nat.zero_le 1)⟩
  | cons a as =>
    refine ⟨(pairsOf (as.map Host.text)).map Prod.fst, rfl, ?_⟩
    cases as with
    | nil => exact iff_of_true rfl (Nat.le_refl 1)
    | cons b as =>
      refine iff_of_false (fun h => ?_) fun h => absurd (Nat.le_of_succ_le_succ h)
        (Nat.not_succ_le_zero _)
      cases as with
      | nil => cases h
      | cons c as => cases h

/-- Every server of the list is there, in the order of the list. -/
theorem sublist_namesFrom (n : Nat) (xs : List Host) :
    List.Sublist (xs.map Host.text) (namesFrom isOpen dig n xs) := by
  induction xs generalizing n with
  | nil => exact List.Sublist.slnil
  | cons x xs ih =>
    obtain ⟨extra, hnames, -⟩ := namesFrom_cons isOpen dig n x xs
    rw [hnames]
    exact ((ih (n + 1)).trans (List.sublist_append_right extra _)).cons_cons x.text

/-- Nothing else is there exactly if no lookup has given two addresses. -/
theorem namesFrom_eq_iff (n : Nat) (xs : List Host) :
    namesFrom isOpen dig n xs = xs.map Host.text ↔
      ∀ found ∈ lookups dig n xs, found.length ≤ 1 := by
  induction xs generalizing n with
  | nil => exact iff_of_true rfl fun found h => absurd h List.not_mem_nil
  | cons x xs ih =>
    obtain ⟨extra, hnames, hextra⟩ := namesFrom_cons isOpen dig n x xs
    rw [lookups, List.forall_mem_cons, ← hextra, ← ih, hnames]
    constructor
    · intro h
      have htail : extra ++ namesFrom isOpen dig (n + 1) xs = xs.map Host.text :=
        (List.cons.inj h).2
      -- the servers behind are all there, so there is no room for anything in front of them
      have hlength := congrArg List.length htail
      have hle := (sublist_namesFrom isOpen dig (n + 1) xs).length_le
      rw [List.length_append] at hlength
      have hnone : extra = [] := List.length_eq_zero_iff.mp (by omega)
      rw [hnone] at htail
      exact ⟨hnone, htail⟩
    · intro ⟨hnone, htail⟩
      rw [hnone, htail]
      rfl

/-- With one address at most each, the definitions are those of the servers. -/
theorem definedFrom_eq (xs : List Host) (n : Nat)
    (h : ∀ found ∈ lookups dig n xs, found.length ≤ 1) :
    definedFrom isOpen dig n xs = xs.map fun x => (isOpen x.text nrpe, x.text) := by
  induction xs generalizing n with
  | nil => rfl
  | cons x xs ih =>
    rw [lookups, List.forall_mem_cons] at h
    obtain ⟨hfew, hrest⟩ := h
    rw [definedFrom, ih (n + 1) hrest, argsFor]
    cases haddresses : addresses (dig n x.text) with
    | nil => rfl
    | cons a as =>
      rw [haddresses] at hfew
      have hnone : as = [] :=
        List.length_eq_zero_iff.mp (Nat.le_zero.mp (Nat.le_of_succ_le_succ hfew))
      rw [hnone]
      rfl

theorem active_eq (xs : List Host) :
    ((xs.map fun x => (isOpen x.text nrpe, x.text)).filter Prod.fst).map Prod.snd =
      (monitored isOpen xs).map Host.text := by
  rw [List.filter_map, List.map_map]
  rfl

/-- A member of a group is a server with NRPE. -/
theorem mem_groupLists {xs hosts : List Host} (h : hosts ∈ groupLists isOpen xs) :
    hosts ⊆ monitored isOpen xs := by
  simp only [groupLists, List.mem_cons, List.not_mem_nil, or_false] at h
  rcases h with rfl | rfl | rfl | rfl | rfl
  · exact List.Subset.refl _
  · exact List.filter_subset_self _
  · exact List.filter_subset_self _
  · exact List.filter_subset_self _
  · exact List.filter_subset_self _

/-- **The files are consistent exactly when no server is listed twice and no lookup gives two
addresses.** -/
theorem consistent_iff (matching : Text → List Text) (xs : List Host) :
    Consistent isOpen (xs.map Host.text)
        (createNagiosFiles matching isOpen (digText dig) (serverList xs)) ↔
      xs.Nodup ∧ ∀ found ∈ lookups dig 0 xs, found.length ≤ 1 := by
  have hdefinitions := definitions_hosts matching isOpen dig xs
  constructor
  · intro h
    have hnames : ∀ server ∈ namesFrom isOpen dig 0 xs, server ∈ xs.map Host.text := by
      intro server hserver
      obtain ⟨d, hd, rfl⟩ := List.mem_map.mp hserver
      exact h.listed d (hdefinitions ▸ hd)
    have hnodup : (namesFrom isOpen dig 0 xs).Nodup := by
      refine List.nodup_iff_count_eq_one.mpr fun server hserver => ?_
      have honce := h.once server (hnames server hserver)
      unfold definedAs at honce
      rw [hdefinitions] at honce
      exact honce
    have hsublist := sublist_namesFrom isOpen dig 0 xs
    have hsame : xs.map Host.text = namesFrom isOpen dig 0 xs :=
      hsublist.eq_of_length_le (hnodup.subperm hnames).length_le
    exact ⟨List.Nodup.of_map Host.text (hnodup.sublist hsublist),
      (namesFrom_eq_iff isOpen dig 0 xs).mp hsame.symm⟩
  · intro ⟨hnodup, hfew⟩
    have htexts : (xs.map Host.text).Nodup := hnodup.map Host.text_injective
    rw [definedFrom_eq isOpen dig xs 0 hfew] at hdefinitions
    refine ⟨fun server hserver => ?_, fun server hserver => ?_, fun d hd => ?_, ?_⟩
    · unfold definedAs
      rw [hdefinitions, List.map_map]
      exact List.count_eq_one_of_mem htexts hserver
    · rw [hdefinitions]
      obtain ⟨x, hx, rfl⟩ := List.mem_map.mp hserver
      constructor
      · intro hactive
        obtain ⟨y, -, hy⟩ := List.mem_map.mp hactive
        obtain ⟨hopen, htext⟩ := Prod.mk.inj hy
        rw [← htext]
        exact hopen
      · intro hopen
        exact List.mem_map.mpr ⟨x, hx, Prod.ext hopen rfl⟩
    · rw [hdefinitions] at hd
      obtain ⟨x, hx, rfl⟩ := List.mem_map.mp hd
      exact List.mem_map_of_mem hx
    · intro group hgroup server hserver
      rw [groups_hostgroups] at hgroup
      obtain ⟨hosts, hhosts, rfl⟩ := List.mem_map.mp hgroup
      obtain ⟨x, hx, rfl⟩ := List.mem_map.mp hserver
      have hmem := List.mem_map_of_mem (f := Host.text) (mem_groupLists isOpen hhosts hx)
      have hactive : ((monitored isOpen xs).map Host.text).Nodup :=
        (hnodup.filter _).map Host.text_injective
      unfold activeAs
      rw [hdefinitions, active_eq]
      exact List.count_eq_one_of_mem hactive hmem

end Consistency

/-- One server, listed twice. -/
def twice : List Host := [⟨"web".toList, by decide⟩, ⟨"web".toList, by decide⟩]

theorem listed_twice_defined_twice : ¬ ∀ (matching : Text → List Text) (isOpen : Scan)
    (dig : Nat → Text → List Answer) (xs : List Host), Consistent isOpen (xs.map Host.text)
      (createNagiosFiles matching isOpen (digText dig) (serverList xs)) := by
  intro h
  have honce := (h (fun _ => []) (fun _ _ => true) (fun _ _ => []) twice).once "web".toList
    List.mem_cons_self
  unfold definedAs at honce
  rw [definitions_hosts] at honce
  exact absurd honce (by decide)

end Nagios
end TdsAdmin
