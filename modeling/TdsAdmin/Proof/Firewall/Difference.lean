import TdsAdmin.Firewall.Grants

/-!
# What the audit reports

The comparison deletes from what it compares with, and the name it looks a source up under changes
to `EXTERNAL` once a port of that source is missing. So a port is found, within the loop over one
source, only if no port before it in the order of the names has taken its grant away or the name
of its source: `Harmless` says this of two protocols, and a source whose protocols are pairwise
harmless is reported right (`source_report`). A source that is reported right has only harmless
protocols (`source_harmless`), since nothing later can make up for what was printed or deleted.

The sources are independent of each other but for one thing: the grants to a source that is
itself named `EXTERNAL`, which a later `ext.` source may find. It comes after it, so by then only
those are left that no entry asks for. `Upto` is the invariant of the loop over the sources.
-/

set_option autoImplicit false

namespace TdsAdmin
namespace Firewall
namespace Audit

open Loop (each Before)

/-! ## Keys -/

section Keys

variable {portsOpen : List Opened} {server source : Text}

theorem mem_serversOf : server ∈ serversOf portsOpen ↔ ∃ o ∈ portsOpen, o.server = server := by
  rw [serversOf, Loop.mem_sortKeys, List.mem_map]

theorem mem_sourcesOf :
    source ∈ sourcesOf portsOpen server ↔
      ∃ o ∈ portsOpen, o.server = server ∧ o.source = source := by
  rw [sourcesOf, Loop.mem_sortKeys, List.mem_map]
  constructor
  · rintro ⟨o, ho, rfl⟩
    obtain ⟨ho, hserver⟩ := List.mem_filter.mp ho
    exact ⟨o, ho, of_decide_eq_true hserver, rfl⟩
  · rintro ⟨o, ho, hserver, rfl⟩
    exact ⟨o, List.mem_filter.mpr ⟨ho, decide_eq_true hserver⟩, rfl⟩

theorem mem_protocolsOf {protocol : Text} :
    protocol ∈ protocolsOf portsOpen server source ↔ ⟨server, source, protocol⟩ ∈ portsOpen := by
  rw [protocolsOf, Loop.mem_sortKeys, List.mem_map]
  constructor
  · rintro ⟨o, ho, rfl⟩
    obtain ⟨hmem, hkey⟩ := List.mem_filter.mp ho
    obtain ⟨rfl, rfl⟩ := of_decide_eq_true hkey
    exact hmem
  · intro ho
    exact ⟨_, List.mem_filter.mpr ⟨ho, decide_eq_true ⟨rfl, rfl⟩⟩, rfl⟩

/-- The servers and sources in the order in which the two loops come to them. -/
def sources (portsOpen : List Opened) : List (Text × Text) :=
  (serversOf portsOpen).flatMap fun server => (sourcesOf portsOpen server).map (Prod.mk server)

theorem mem_sources : (server, source) ∈ sources portsOpen ↔
    ∃ o ∈ portsOpen, o.server = server ∧ o.source = source := by
  rw [sources, List.mem_flatMap]
  constructor
  · rintro ⟨s, -, hs⟩
    obtain ⟨src, hsrc, heq⟩ := List.mem_map.mp hs
    obtain ⟨rfl, rfl⟩ := Prod.mk.inj heq
    exact mem_sourcesOf.mp hsrc
  · rintro ⟨o, ho, rfl, rfl⟩
    exact ⟨o.server, mem_serversOf.mpr ⟨o, ho, rfl⟩,
      List.mem_map.mpr ⟨o.source, mem_sourcesOf.mpr ⟨o, ho, rfl, rfl⟩, rfl⟩⟩

theorem sources_ordered (portsOpen : List Opened) : (sources portsOpen).Pairwise Before :=
  Loop.pairs_ordered (Loop.sortKeys_ordered _) fun _ => Loop.sortKeys_ordered _

theorem compare_eq (protocolName : List (Text × Text)) (portsOpen : List Opened)
    (securityGroup : List Grant) :
    compareFirewallAndSecurityGroups protocolName portsOpen securityGroup =
      each (fun granted x => compareSource protocolName portsOpen x.1 granted x.2) securityGroup
        (sources portsOpen) :=
  Loop.each_nested _ _ _ _

end Keys

/-! ## The loop over the protocols of one source -/

section Source

/-- What the first of two protocols of a source does to the second. If the second is granted, the
first must not have its port; and if the first is missing and the source is shown as `EXTERNAL`,
the second must be missing under both names. -/
def Harmless (protocolName : List (Text × Text)) (granted stray : Grant → Prop)
    (server source p q : Text) : Prop :=
  (granted (asked protocolName server source q) →
    portNumber protocolName p ≠ portNumber protocolName q) ∧
  ("ext.".toList <+: source → ¬ granted (asked protocolName server source p) →
    ¬ granted (asked protocolName server source q) ∧
      ¬ stray (asked protocolName server "EXTERNAL".toList q))

variable {protocolName : List (Text × Text)} {server source : Text} {granted : List Grant}

theorem comparePort_found {incoming port : Text}
    (h : asked protocolName server incoming port ∈ granted) :
    comparePort protocolName server source (incoming, granted) port =
      ([], incoming, granted.filter (· ≠ asked protocolName server incoming port)) := if_pos h

theorem comparePort_missing {incoming port : Text}
    (h : asked protocolName server incoming port ∉ granted) :
    comparePort protocolName server source (incoming, granted) port =
      ([⟨⟨server, source, port⟩, shownAs incoming⟩], shownAs incoming, granted) := if_neg h

/-- The loop deletes, and adds nothing. -/
theorem comparePort_subset {s : Text × List Grant} {port : Text} :
    (comparePort protocolName server source s port).2.2 ⊆ s.2 := by
  rw [comparePort]
  split
  · exact List.filter_subset_self _
  · exact List.Subset.refl _

theorem ports_subset {s : Text × List Grant} {ports : List Text} :
    (each (comparePort protocolName server source) s ports).2.2 ⊆ s.2 :=
  Loop.each_keeps (P := fun s' : Text × List Grant => s'.2 ⊆ s.2)
    (fun _ _ h => List.Subset.trans comparePort_subset h) (List.Subset.refl _)

theorem not_external {source : Text} (h : "ext.".toList <+: source) :
    source ≠ "EXTERNAL".toList := by
  rintro rfl
  exact absurd h (by decide)

theorem shownAs_external : shownAs "EXTERNAL".toList = "EXTERNAL".toList := by decide

/-- The deletion of one grant is not seen by a lookup of another. -/
theorem mem_filter_other {g h : Grant} (hne : g ∈ granted → g ≠ h) :
    g ∈ granted.filter (· ≠ h) ↔ g ∈ granted := by
  rw [List.mem_filter, decide_eq_true_iff]
  exact and_iff_left_of_imp hne

/-- After the change of the name, every port that is not granted to `EXTERNAL` is printed. -/
theorem ports_external {ports : List Text}
    (h : ∀ q ∈ ports, asked protocolName server "EXTERNAL".toList q ∉ granted) :
    each (comparePort protocolName server source) ("EXTERNAL".toList, granted) ports =
      (ports.map fun q => ⟨⟨server, source, q⟩, "EXTERNAL".toList⟩,
        "EXTERNAL".toList, granted) := by
  induction ports with
  | nil => rfl
  | cons p ports ih =>
    have hrest := ih fun q hq => h q (by simp [hq])
    rw [each, comparePort_missing (h p (by simp)), shownAs_external]
    dsimp only
    rw [hrest]
    rfl

/-- A grant to `EXTERNAL` that is still there afterwards was not looked up. -/
theorem external_kept {ports : List Text}
    (h : ∀ g ∈ granted, g.server = server → g.source = "EXTERNAL".toList →
      g ∈ (each (comparePort protocolName server source) ("EXTERNAL".toList, granted) ports).2.2) :
    ∀ q ∈ ports, asked protocolName server "EXTERNAL".toList q ∉ granted := by
  induction ports with
  | nil => intro q hq; exact absurd hq List.not_mem_nil
  | cons p ports ih =>
    rw [each] at h
    have hp : asked protocolName server "EXTERNAL".toList p ∉ granted := by
      intro hmem
      have hleft := ports_subset (h _ hmem rfl rfl)
      rw [comparePort_found hmem] at hleft
      simpa using (List.mem_filter.mp hleft).2
    rw [comparePort_missing hp, shownAs_external] at h
    intro q hq
    rcases List.mem_cons.mp hq with rfl | hq
    · exact hp
    · exact ih h q hq

/-- Whether two protocols get in each other's way is not changed by the grant of a third one. -/
theorem harmless_filter {p q r : Text}
    (hq : asked protocolName server source q ∈
      granted.filter (· ≠ asked protocolName server source p) ↔
        asked protocolName server source q ∈ granted)
    (hr : asked protocolName server source r ∈
      granted.filter (· ≠ asked protocolName server source p) ↔
        asked protocolName server source r ∈ granted) :
    Harmless protocolName (· ∈ granted.filter (· ≠ asked protocolName server source p))
        (· ∈ granted.filter (· ≠ asked protocolName server source p)) server source q r ↔
      Harmless protocolName (· ∈ granted) (· ∈ granted) server source q r := by
  refine and_congr (imp_congr_left hr) (imp_congr_right fun hext => ?_)
  have hexternal : asked protocolName server "EXTERNAL".toList r ∈
      granted.filter (· ≠ asked protocolName server source p) ↔
        asked protocolName server "EXTERNAL".toList r ∈ granted :=
    mem_filter_other fun _ heq => not_external hext (congrArg Grant.source heq).symm
  exact imp_congr (not_congr hq) (and_congr (not_congr hr) (not_congr hexternal))

/-- What the loop over the protocols of a source prints, and what it leaves. -/
structure Report (protocolName : List (Text × Text)) (server source : Text) (granted : List Grant)
    (ports : List Text) (missing : List Missing) (left : List Grant) : Prop where
  missing : ∀ m, m ∈ missing ↔ ∃ q ∈ ports, asked protocolName server source q ∉ granted ∧
    m = ⟨⟨server, source, q⟩, shownAs source⟩
  left : ∀ g, g ∈ left ↔ g ∈ granted ∧ ∀ q ∈ ports, asked protocolName server source q ≠ g

section Report

variable {p : Text} {ports : List Text} {missing : List Missing} {left : List Grant}

/-- A protocol whose grant is found, and not wanted by any other. -/
theorem Report.cons_found (hfound : asked protocolName server source p ∈ granted)
    (hsame : ∀ q ∈ ports, (asked protocolName server source q ∈
      granted.filter (· ≠ asked protocolName server source p) ↔
        asked protocolName server source q ∈ granted))
    (h : Report protocolName server source
      (granted.filter (· ≠ asked protocolName server source p)) ports missing left) :
    Report protocolName server source granted (p :: ports) missing left := by
  constructor
  · intro m
    rw [h.missing m]
    constructor
    · rintro ⟨q, hq, hmissing, rfl⟩
      exact ⟨q, List.mem_cons_of_mem p hq, mt (hsame q hq).mpr hmissing, rfl⟩
    · rintro ⟨q, hq, hmissing, rfl⟩
      rcases List.mem_cons.mp hq with rfl | hq
      · exact absurd hfound hmissing
      · exact ⟨q, hq, mt (hsame q hq).mp hmissing, rfl⟩
  · intro g
    rw [h.left g, List.mem_filter, List.forall_mem_cons, decide_eq_true_iff, ne_comm, and_assoc]

/-- One whose grant is not found. -/
theorem Report.cons_missing (hmissing : asked protocolName server source p ∉ granted)
    (h : Report protocolName server source granted ports missing left) :
    Report protocolName server source granted (p :: ports)
      (⟨⟨server, source, p⟩, shownAs source⟩ :: missing) left := by
  constructor
  · intro m
    rw [List.mem_cons, h.missing m, List.exists_mem_cons_iff]
    exact or_congr_left (and_iff_right hmissing).symm
  · intro g
    rw [h.left g, List.forall_mem_cons]
    refine and_congr_right fun hg => (and_iff_right fun heq => hmissing ?_).symm
    rw [heq]
    exact hg

/-- No grant is found. -/
theorem Report.all_missing (h : ∀ q ∈ ports, asked protocolName server source q ∉ granted) :
    Report protocolName server source granted ports
      (ports.map fun q => ⟨⟨server, source, q⟩, shownAs source⟩) granted := by
  induction ports with
  | nil => exact ⟨by simp, by simp⟩
  | cons p ports ih =>
    obtain ⟨hp, hports⟩ := List.forall_mem_cons.mp h
    exact (ih hports).cons_missing hp

end Report

/-- **A source whose protocols do not get in each other's way is reported right.** -/
theorem source_report {ports : List Text} (h : ports.Pairwise
      (Harmless protocolName (· ∈ granted) (· ∈ granted) server source)) :
    Report protocolName server source granted ports
      (each (comparePort protocolName server source) (source, granted) ports).1
      (each (comparePort protocolName server source) (source, granted) ports).2.2 := by
  induction ports generalizing granted with
  | nil => exact ⟨by simp, by simp⟩
  | cons p ports ih =>
    obtain ⟨hp, hports⟩ := List.pairwise_cons.mp h
    by_cases hfound : asked protocolName server source p ∈ granted
    · -- the grant of `p` goes, and no other protocol of the list has it
      have hsame : ∀ q ∈ ports, (asked protocolName server source q ∈
          granted.filter (· ≠ asked protocolName server source p) ↔
            asked protocolName server source q ∈ granted) := by
        intro q hq
        apply mem_filter_other
        intro hmem heq
        exact (hp q hq).1 hmem (congrArg Grant.port heq).symm
      have hrest := ih (hports.imp_of_mem fun {q r} hq hr hqr =>
        (harmless_filter (hsame q hq) (hsame r hr)).mpr hqr)
      rw [each, comparePort_found hfound]
      exact hrest.cons_found hfound hsame
    · rw [each, comparePort_missing hfound]
      by_cases hext : "ext.".toList <+: source
      · -- from here on the source goes by the other name, and nothing of it is granted
        have hall : ∀ q ∈ ports, asked protocolName server source q ∉ granted ∧
            asked protocolName server "EXTERNAL".toList q ∉ granted :=
          fun q hq => (hp q hq).2 hext hfound
        have hshown : shownAs source = "EXTERNAL".toList := if_pos hext
        have hreport := Report.all_missing (List.forall_mem_cons.mpr
          ⟨hfound, fun q hq => (hall q hq).1⟩)
        rw [hshown] at hreport
        rw [hshown, ports_external fun q hq => (hall q hq).2]
        exact hreport
      · have hshown : shownAs source = source := if_neg hext
        have hreport := (ih hports).cons_missing hfound
        rw [hshown] at hreport
        rw [hshown]
        exact hreport

/-- A port whose grant is gone is printed, whatever comes before it. -/
theorem port_printed {ports : List Text} {q : Text} (hq : q ∈ ports)
    (hgone : asked protocolName server source q ∉ granted)
    (hkeep : "ext.".toList <+: source → ∀ g ∈ granted, g.server = server →
      g.source = "EXTERNAL".toList →
      g ∈ (each (comparePort protocolName server source) (source, granted) ports).2.2) :
    ⟨⟨server, source, q⟩, shownAs source⟩ ∈
      (each (comparePort protocolName server source) (source, granted) ports).1 := by
  induction ports generalizing granted with
  | nil => exact absurd hq List.not_mem_nil
  | cons p ports ih =>
    rw [each] at hkeep ⊢
    by_cases hfound : asked protocolName server source p ∈ granted
    · rw [comparePort_found hfound] at hkeep ⊢
      have hq' : q ∈ ports := by
        rcases List.mem_cons.mp hq with rfl | hq
        · exact absurd hfound hgone
        · exact hq
      refine ih hq' (fun hmem => hgone (List.mem_filter.mp hmem).1) fun hext g hg => ?_
      exact hkeep hext g (List.mem_filter.mp hg).1
    · rw [comparePort_missing hfound] at hkeep ⊢
      rcases List.mem_cons.mp hq with rfl | hq
      · exact List.mem_append_left _ (List.mem_singleton_self _)
      · apply List.mem_append_right
        by_cases hext : "ext.".toList <+: source
        · have hshown : shownAs source = "EXTERNAL".toList := if_pos hext
          rw [hshown] at hkeep ⊢
          rw [ports_external (external_kept (hkeep hext))]
          exact List.mem_map.mpr ⟨q, hq, rfl⟩
        · have hshown : shownAs source = source := if_neg hext
          have hrest := ih hq hgone fun hext' => absurd hext' hext
          rw [hshown] at hrest ⊢
          exact hrest

/-- **A source is reported right only if its protocols do not get in each other's way.** -/
theorem source_harmless {ports : List Text}
    (hprint : ∀ q ∈ ports, ⟨⟨server, source, q⟩, shownAs source⟩ ∈
      (each (comparePort protocolName server source) (source, granted) ports).1 →
      asked protocolName server source q ∉ granted)
    (hkeep : "ext.".toList <+: source → ∀ g ∈ granted, g.server = server →
      g.source = "EXTERNAL".toList →
      g ∈ (each (comparePort protocolName server source) (source, granted) ports).2.2) :
    ports.Pairwise (Harmless protocolName (· ∈ granted) (· ∈ granted) server source) := by
  induction ports generalizing granted with
  | nil => exact List.Pairwise.nil
  | cons p ports ih =>
    rw [each] at hkeep hprint
    by_cases hfound : asked protocolName server source p ∈ granted
    · rw [comparePort_found hfound] at hkeep hprint
      -- the grants that the rest of the loop sees
      have hkeep' : "ext.".toList <+: source → ∀ g ∈ granted.filter
          (· ≠ asked protocolName server source p), g.server = server →
          g.source = "EXTERNAL".toList → g ∈ (each (comparePort protocolName server source)
            (source, granted.filter (· ≠ asked protocolName server source p)) ports).2.2 :=
        fun hext g hg => hkeep hext g (List.mem_filter.mp hg).1
      have hother : ∀ q ∈ ports, asked protocolName server source q ∈ granted →
          asked protocolName server source q ≠ asked protocolName server source p := by
        intro q hq hmem heq
        refine hprint q (by simp [hq]) (port_printed hq ?_ hkeep') hmem
        rw [heq]
        simp
      have hsame : ∀ q ∈ ports, (asked protocolName server source q ∈
          granted.filter (· ≠ asked protocolName server source p) ↔
            asked protocolName server source q ∈ granted) := fun q hq =>
        mem_filter_other (hother q hq)
      have hrest := ih (fun q hq hm => mt (hsame q hq).mp (hprint q (by simp [hq]) hm)) hkeep'
      refine List.pairwise_cons.mpr ⟨fun q hq => ?_, hrest.imp_of_mem fun {q r} hq hr hqr =>
        (harmless_filter (hsame q hq) (hsame r hr)).mp hqr⟩
      refine ⟨fun hmem hport => hother q hq hmem ?_, fun _ hmissing => absurd hfound hmissing⟩
      rw [asked, asked, hport]
    · rw [comparePort_missing hfound] at hkeep hprint
      by_cases hext : "ext.".toList <+: source
      · -- the rest is printed under the other name, whatever is granted to the source
        have hshown : shownAs source = "EXTERNAL".toList := if_pos hext
        rw [hshown] at hkeep hprint
        have hstray := external_kept (hkeep hext)
        have hown : ∀ q ∈ ports, asked protocolName server source q ∉ granted := by
          intro q hq
          refine hprint q (by simp [hq]) (List.mem_append_right _ ?_)
          dsimp only
          rw [ports_external hstray]
          exact List.mem_map.mpr ⟨q, hq, rfl⟩
        have hall : ∀ q r, r ∈ ports →
            Harmless protocolName (· ∈ granted) (· ∈ granted) server source q r := fun q r hr =>
          ⟨fun hmem => absurd hmem (hown r hr), fun _ _ => ⟨hown r hr, hstray r hr⟩⟩
        refine List.pairwise_cons.mpr ⟨fun q hq => hall p q hq, ?_⟩
        exact List.pairwise_of_forall_mem_list fun q _ r hr => hall q r hr
      · have hshown : shownAs source = source := if_neg hext
        rw [hshown] at hprint
        have hprint' : ∀ q ∈ ports, ⟨⟨server, source, q⟩, shownAs source⟩ ∈
            (each (comparePort protocolName server source) (source, granted) ports).1 →
            asked protocolName server source q ∉ granted := by
          intro q hq hm
          rw [hshown] at hm
          exact hprint q (by simp [hq]) (List.mem_append_right _ hm)
        have hrest := ih hprint' fun hext' => absurd hext' hext
        refine List.pairwise_cons.mpr ⟨fun q _ => ⟨fun hmem hport => hfound ?_,
          fun hext' => absurd hext' hext⟩, hrest⟩
        rw [asked, hport]
        exact hmem

end Source

/-! ## The loop over the sources -/

section Run

variable (protocolName : List (Text × Text)) (portsOpen : List Opened) (securityGroup : List Grant)

/-- A grant that no entry of the table asks for. -/
def Stray (g : Grant) : Prop := g ∈ securityGroup ∧ ∀ o ∈ portsOpen, o.grant protocolName ≠ g

/-- The protocols of a source are reported right. -/
def Fits (server source : Text) : Prop :=
  (protocolsOf portsOpen server source).Pairwise (Harmless protocolName (· ∈ securityGroup)
    (Stray protocolName portsOpen securityGroup) server source)

/-- The invariant: what is left after the sources of `done`. -/
def Upto (done : List (Text × Text)) (granted : List Grant) : Prop :=
  ∀ g, g ∈ granted ↔ g ∈ securityGroup ∧
    ∀ o ∈ portsOpen, (o.server, o.source) ∈ done → o.grant protocolName ≠ g

variable {protocolName portsOpen securityGroup} {done rest : List (Text × Text)}
  {server source : Text} {granted : List Grant}

theorem upto_nil : Upto protocolName portsOpen securityGroup [] securityGroup := by
  intro g
  simp

theorem upto_all (h : Upto protocolName portsOpen securityGroup (sources portsOpen) granted)
    (g : Grant) : g ∈ granted ↔ Stray protocolName portsOpen securityGroup g := by
  rw [h g, Stray]
  constructor
  · rintro ⟨hg, hall⟩
    exact ⟨hg, fun o ho => hall o ho (mem_sources.mpr ⟨o, ho, rfl, rfl⟩)⟩
  · rintro ⟨hg, hall⟩
    exact ⟨hg, fun o ho _ => hall o ho⟩

theorem not_external_lt {source : Text} (h : "ext.".toList <+: source) :
    ¬ source < "EXTERNAL".toList := by
  obtain ⟨t, rfl⟩ := h
  intro hlt
  rcases List.cons_lt_cons_iff.mp
    (show 'e' :: ("xt.".toList ++ t) < 'E' :: "XTERNAL".toList from hlt) with h | ⟨h, -⟩
  · exact absurd h (by decide)
  · exact absurd h (by decide)

/-- A source is gone through once. -/
theorem not_done (hsplit : sources portsOpen = done ++ (server, source) :: rest) :
    (server, source) ∉ done := by
  intro hdone
  have hord := sources_ordered portsOpen
  rw [hsplit] at hord
  rcases (List.pairwise_append.mp hord).2.2 _ hdone _ List.mem_cons_self with h | ⟨-, h⟩
  · exact lt_irrefl _ h
  · exact lt_irrefl _ h

/-- A source named `EXTERNAL` is gone through before the ones that are shown under that name. -/
theorem external_done (hsplit : sources portsOpen = done ++ (server, source) :: rest)
    (hext : "ext.".toList <+: source)
    (hmem : (server, "EXTERNAL".toList) ∈ sources portsOpen) :
    (server, "EXTERNAL".toList) ∈ done := by
  have hord := sources_ordered portsOpen
  rw [hsplit] at hmem hord
  rcases List.mem_append.mp hmem with h | h
  · exact h
  · rcases List.mem_cons.mp h with heq | hrest
    · exact absurd (Prod.mk.inj heq).2.symm (not_external hext)
    · rcases (List.pairwise_cons.mp (List.pairwise_append.mp hord).2.1).1 _ hrest with h | ⟨-, h⟩
      · exact absurd h (lt_irrefl _)
      · exact absurd h (not_external_lt hext)

/-- So an entry of the table that asks for a grant to `EXTERNAL` has had its turn by then. -/
theorem external_asked (hsplit : sources portsOpen = done ++ (server, source) :: rest)
    (hext : "ext.".toList <+: source) {o : Opened} (ho : o ∈ portsOpen) {g : Grant}
    (hg : o.grant protocolName = g) (hserver : g.server = server)
    (hsource : g.source = "EXTERNAL".toList) : (o.server, o.source) ∈ done := by
  subst hg
  have hkey : (o.server, o.source) = (server, "EXTERNAL".toList) := Prod.ext hserver hsource
  rw [hkey]
  exact external_done hsplit hext (mem_sources.mpr ⟨o, ho, hserver, hsource⟩)

/-- What a source finds when the loop comes to it. -/
theorem upto_own (hup : Upto protocolName portsOpen securityGroup done granted)
    (hsplit : sources portsOpen = done ++ (server, source) :: rest) (q : Text) :
    asked protocolName server source q ∈ granted ↔
      asked protocolName server source q ∈ securityGroup := by
  rw [hup]
  refine and_iff_left fun o _ hdone heq => not_done hsplit ?_
  have hserver : o.server = server := congrArg Grant.server heq
  have hsource : o.source = source := congrArg Grant.source heq
  rw [← hserver, ← hsource]
  exact hdone

theorem upto_external (hup : Upto protocolName portsOpen securityGroup done granted)
    (hsplit : sources portsOpen = done ++ (server, source) :: rest)
    (hext : "ext.".toList <+: source) (q : Text) :
    asked protocolName server "EXTERNAL".toList q ∈ granted ↔
      Stray protocolName portsOpen securityGroup
        (asked protocolName server "EXTERNAL".toList q) := by
  rw [hup, Stray]
  refine and_congr_right fun _ => ⟨fun h o ho heq => h o ho ?_ heq, fun h o ho _ => h o ho⟩
  exact external_asked hsplit hext ho heq rfl rfl

/-- Whether a source is reported right does not depend on the others. -/
theorem fits_iff (hup : Upto protocolName portsOpen securityGroup done granted)
    (hsplit : sources portsOpen = done ++ (server, source) :: rest) :
    (protocolsOf portsOpen server source).Pairwise
        (Harmless protocolName (· ∈ granted) (· ∈ granted) server source) ↔
      Fits protocolName portsOpen securityGroup server source := by
  have hown := upto_own hup hsplit
  refine List.Pairwise.iff fun {p q} => and_congr ?_ (imp_congr_right fun hext => ?_)
  · exact imp_congr_left (hown q)
  · exact imp_congr (not_congr (hown p))
      (and_congr (not_congr (hown q)) (not_congr (upto_external hup hsplit hext q)))

/-- One source, and the invariant after it. -/
theorem source_step (hup : Upto protocolName portsOpen securityGroup done granted)
    (hsplit : sources portsOpen = done ++ (server, source) :: rest)
    (hfits : Fits protocolName portsOpen securityGroup server source) :
    (∀ m, m ∈ (compareSource protocolName portsOpen server granted source).1 ↔
      (m.entry.server, m.entry.source) = (server, source) ∧ m.entry ∈ portsOpen ∧
        m.entry.grant protocolName ∉ securityGroup ∧
        m.incomingServer = shownAs m.entry.source) ∧
    Upto protocolName portsOpen securityGroup (done ++ [(server, source)])
      (compareSource protocolName portsOpen server granted source).2 := by
  obtain ⟨hmissing, hleft⟩ := source_report ((fits_iff hup hsplit).mpr hfits)
  constructor
  · intro m
    refine (hmissing m).trans ⟨?_, ?_⟩
    · rintro ⟨q, hq, hm, rfl⟩
      exact ⟨rfl, mem_protocolsOf.mp hq, mt (upto_own hup hsplit q).mpr hm, rfl⟩
    · rintro ⟨hkey, hmem, hm, hshown⟩
      obtain ⟨⟨s, src, q⟩, shown⟩ := m
      obtain ⟨rfl, rfl⟩ := Prod.mk.inj hkey
      exact ⟨q, mem_protocolsOf.mpr hmem, mt (upto_own hup hsplit q).mp hm, by rw [← hshown]⟩
  · intro g
    refine (hleft g).trans ?_
    rw [hup g, and_assoc]
    refine and_congr_right fun _ => ⟨?_, ?_⟩
    · rintro ⟨hbefore, hnow⟩ o ho hdone
      rcases List.mem_append.mp hdone with hdone | hkey
      · exact hbefore o ho hdone
      · obtain ⟨rfl, rfl⟩ := Prod.mk.inj (List.mem_singleton.mp hkey)
        exact hnow o.protocol (mem_protocolsOf.mpr ho)
    · intro hall
      refine ⟨fun o ho hdone => hall o ho (List.mem_append_left _ hdone), fun q hq => ?_⟩
      exact hall ⟨server, source, q⟩ (mem_protocolsOf.mp hq)
        (List.mem_append_right _ (List.mem_singleton_self _))

theorem sources_subset : (each (fun granted (x : Text × Text) =>
    compareSource protocolName portsOpen x.1 granted x.2) granted rest).2 ⊆ granted :=
  Loop.each_keeps (P := fun left => left ⊆ granted)
    (fun left x h => List.Subset.trans
      (@ports_subset protocolName x.1 x.2 (x.2, left) _) h) (List.Subset.refl _)

/-- **The sources from any point on are reported right if the protocols of each are.** -/
theorem run_report (hup : Upto protocolName portsOpen securityGroup done granted)
    (hsplit : sources portsOpen = done ++ rest)
    (hfits : ∀ x ∈ rest, Fits protocolName portsOpen securityGroup x.1 x.2) :
    (∀ m, m ∈ (each (fun granted x => compareSource protocolName portsOpen x.1 granted x.2)
        granted rest).1 ↔
      (m.entry.server, m.entry.source) ∈ rest ∧ m.entry ∈ portsOpen ∧
        m.entry.grant protocolName ∉ securityGroup ∧
        m.incomingServer = shownAs m.entry.source) ∧
    Upto protocolName portsOpen securityGroup (sources portsOpen)
      (each (fun granted x => compareSource protocolName portsOpen x.1 granted x.2)
        granted rest).2 := by
  induction rest generalizing done granted with
  | nil =>
    rw [List.append_nil] at hsplit
    rw [hsplit]
    exact ⟨by simp, hup⟩
  | cons x rest ih =>
    obtain ⟨hmissing, hup'⟩ := source_step hup hsplit (hfits x (by simp))
    obtain ⟨hrest, hall⟩ := ih hup' (by simpa using hsplit) fun y hy => hfits y (by simp [hy])
    refine ⟨fun m => ?_, hall⟩
    rw [each, List.mem_append, hmissing m, hrest m, List.mem_cons, or_and_right]

/-- **They are reported right only if the protocols of each are.** -/
theorem run_fits (hup : Upto protocolName portsOpen securityGroup done granted)
    (hsplit : sources portsOpen = done ++ rest)
    (hprint : ∀ m ∈ (each (fun granted x => compareSource protocolName portsOpen x.1 granted x.2)
        granted rest).1, m.entry.grant protocolName ∉ securityGroup)
    (hkeep : ∀ g, Stray protocolName portsOpen securityGroup g →
      g ∈ (each (fun granted x => compareSource protocolName portsOpen x.1 granted x.2)
        granted rest).2) :
    ∀ x ∈ rest, Fits protocolName portsOpen securityGroup x.1 x.2 := by
  induction rest generalizing done granted with
  | nil => intro x hx; exact absurd hx List.not_mem_nil
  | cons x rest ih =>
    obtain ⟨server, source⟩ := x
    rw [each] at hprint hkeep
    have hkept : ∀ g, Stray protocolName portsOpen securityGroup g →
        g ∈ (compareSource protocolName portsOpen server granted source).2 := fun g hg =>
      sources_subset (hkeep g hg)
    have hhere : Fits protocolName portsOpen securityGroup server source := by
      refine (fits_iff hup hsplit).mp
        (source_harmless (fun q _ hm => ?_) fun hext g hg hs hsrc => ?_)
      · exact mt (upto_own hup hsplit q).mp (hprint _ (List.mem_append_left _ hm))
      · -- An earlier entry for `EXTERNAL` has taken its grant, so this one is nobody's.
        obtain ⟨hgranted, hunasked⟩ := (hup g).mp hg
        apply hkept g
        refine ⟨hgranted, fun o ho heq => hunasked o ho ?_ heq⟩
        exact external_asked hsplit hext ho heq hs hsrc
    have hrest := ih (source_step hup hsplit hhere).2 (by simpa using hsplit)
      (fun m hm => hprint m (List.mem_append_right _ hm)) hkeep
    exact List.forall_mem_cons.mpr ⟨hhere, hrest⟩

/-! ## The report -/

/-- The condition on a source, over its protocols in order. -/
theorem fits_iff_lt : Fits protocolName portsOpen securityGroup server source ↔
    ∀ p q, ⟨server, source, p⟩ ∈ portsOpen → ⟨server, source, q⟩ ∈ portsOpen → p < q →
      Harmless protocolName (· ∈ securityGroup) (Stray protocolName portsOpen securityGroup)
        server source p q := by
  refine (Loop.pairwise_iff_lt (Loop.sortKeys_ordered _)).trans ?_
  constructor
  · intro h p q hp hq
    exact h p (mem_protocolsOf.mpr hp) q (mem_protocolsOf.mpr hq)
  · intro h p hp q hq
    exact h p q (mem_protocolsOf.mp hp) (mem_protocolsOf.mp hq)

variable (protocolName portsOpen securityGroup)

/-- **The report is the difference, both ways, exactly when within a source no protocol gets in
the way of one that is sorted after it.** -/
theorem reports_difference_iff :
    ((∀ m, m ∈ (compareFirewallAndSecurityGroups protocolName portsOpen securityGroup).1 ↔
        m.entry ∈ portsOpen ∧ m.entry.grant protocolName ∉ securityGroup ∧
          m.incomingServer = shownAs m.entry.source) ∧
      ∀ g, g ∈ (compareFirewallAndSecurityGroups protocolName portsOpen securityGroup).2 ↔
        g ∈ securityGroup ∧ ∀ o ∈ portsOpen, o.grant protocolName ≠ g) ↔
    ∀ server source p q, ⟨server, source, p⟩ ∈ portsOpen → ⟨server, source, q⟩ ∈ portsOpen →
      p < q → Harmless protocolName (· ∈ securityGroup)
        (Stray protocolName portsOpen securityGroup) server source p q := by
  rw [compare_eq]
  constructor
  · rintro ⟨hmissing, hleft⟩ server source p q hp hq
    refine fits_iff_lt.mp (run_fits upto_nil (List.nil_append _).symm
      (fun m hm => ((hmissing m).mp hm).2.1) (fun g hg => (hleft g).mpr hg) (server, source) ?_)
      p q hp hq
    exact mem_sources.mpr ⟨_, hp, rfl, rfl⟩
  · intro h
    obtain ⟨hmissing, hup⟩ :=
      @run_report protocolName portsOpen securityGroup [] _ _ upto_nil (List.nil_append _).symm
      fun x _ => fits_iff_lt.mpr (h x.1 x.2)
    refine ⟨fun m => (hmissing m).trans (and_iff_right_of_imp fun hm => ?_), upto_all hup⟩
    exact mem_sources.mpr ⟨m.entry, hm.1, rfl, rfl⟩

end Run

/-- A source from outside with two protocols, of which the second is granted. -/
def mailSample : List Opened :=
  [⟨"m".toList, "ext.d".toList, "HTTP".toList⟩, ⟨"m".toList, "ext.d".toList, "SMTP".toList⟩]

/-- The grant of the second protocol is reported missing. -/
theorem granted_port_reported : ¬ ∀ (protocolName : List (Text × Text)) (portsOpen : List Opened)
    (securityGroup : List Grant),
    (∀ m, m ∈ (compareFirewallAndSecurityGroups protocolName portsOpen securityGroup).1 ↔
        m.entry ∈ portsOpen ∧ m.entry.grant protocolName ∉ securityGroup ∧
          m.incomingServer = shownAs m.entry.source) ∧
      ∀ g, g ∈ (compareFirewallAndSecurityGroups protocolName portsOpen securityGroup).2 ↔
        g ∈ securityGroup ∧ ∀ o ∈ portsOpen, o.grant protocolName ≠ g := by
  intro h
  have hprinted : (⟨⟨"m".toList, "ext.d".toList, "SMTP".toList⟩, "EXTERNAL".toList⟩ : Missing) ∈
      (compareFirewallAndSecurityGroups [("HTTP".toList, "80".toList), ("SMTP".toList, "25".toList)]
        mailSample [⟨"m".toList, "ext.d".toList, "25".toList⟩]).1 := by decide +kernel
  exact (((h _ _ _).1 _).mp hprinted).2.1 (by decide)

end Audit
end Firewall
end TdsAdmin
