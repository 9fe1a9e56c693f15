import TdsAdmin.Firewall.Listing

/-!
# Where a grant is filed

`read_security_groups` has a variable for the range of an `IPRANGES` line and does not use it: the
grant is filed under the group that was last named, in this permission or in any one before it
(`read_listing`). So what is recorded is what is listed as long as no line has a range — or where
the mistake does not show, because both the grant that is made up and the one that is lost are
there for another reason (`records_listed_iff`).
-/

set_option autoImplicit false

namespace TdsAdmin
namespace Firewall
namespace Audit

open Fields (Token)

variable {env : Text} {protocolNumber : List (Text × Text)}

/-! ## One line -/

theorem elements_listingLine {keyword : Text} (hne : keyword ≠ [])
    (hplain : keyword.all (!Pattern.isSpace ·) = true) (fields : List Token) :
    Fields.splitRuns Pattern.isSpace (listingLine keyword fields)
      = keyword :: fields.map Token.text := by
  refine Fields.splitRuns_full rfl (List.cons_ne_nil _ _) ?_
  intro f hf
  rcases List.mem_cons.mp hf with rfl | hf
  · exact ⟨hne, fun c hc => by simpa using List.all_eq_true.mp hplain c hc⟩
  · obtain ⟨t, -, rfl⟩ := List.mem_map.mp hf
    exact ⟨t.ne_nil, t.not_space⟩

theorem read_securityGroups (r : Reading) (name : Token) (more : List Token) :
    readGroupLine env protocolNumber r (listingLine "SECURITYGROUPS".toList (name :: more))
      = { r with currentServer := name.text } := by
  rw [readGroupLine, elements_listingLine (by decide) (by decide)]
  rfl

theorem read_ipPermissions (env : Text) (protocolNumber : List (Text × Text)) (r : Reading)
    (port : Token) (more : List Token) :
    ∃ undefinedPorts, readGroupLine env protocolNumber r
        (listingLine "IPPERMISSIONS".toList (port :: more))
      = { r with currentPort := port.text, undefinedPorts := undefinedPorts } := by
  rw [readGroupLine, elements_listingLine (by decide) (by decide)]
  exact ⟨_, rfl⟩

theorem read_item (env : Text) (protocolNumber : List (Text × Text)) (r : Reading) (item : Item) :
    ∃ range, readGroupLine env protocolNumber r item.line =
      { r with
        currentRemoteServer := item.named.getD r.currentRemoteServer
        currentIpRange := range
        securityGroup := r.securityGroup ++
          [⟨r.currentServer, item.named.getD r.currentRemoteServer, r.currentPort⟩] } := by
  cases item with
  | groupPair id name more =>
    rw [readGroupLine, Item.line, elements_listingLine (by decide) (by decide)]
    exact ⟨_, rfl⟩
  | range address more =>
    rw [readGroupLine, Item.line, elements_listingLine (by decide) (by decide)]
    exact ⟨_, rfl⟩

/-! ## The whole listing -/

/-- The key that a line is filed under. -/
def filedAs (x : Text × Entry) : Grant := ⟨x.2.server, x.2.item.named.getD x.1, x.2.port⟩

/-- The group last named after these entries. -/
def nameAfter (name : Text) (entries : List Entry) : Text :=
  entries.foldl (fun name e => e.item.named.getD name) name

theorem withNameAbove_append (name : Text) (es fs : List Entry) :
    withNameAbove name (es ++ fs) =
      withNameAbove name es ++ withNameAbove (nameAfter name es) fs := by
  induction es generalizing name with
  | nil => rfl
  | cons e es ih => exact congrArg ((name, e) :: ·) (ih _)

/-- What reading these entries does. -/
structure Filed (r r' : Reading) (entries : List Entry) : Prop where
  securityGroup : r'.securityGroup =
    r.securityGroup ++ (withNameAbove r.currentRemoteServer entries).map filedAs
  name : r'.currentRemoteServer = nameAfter r.currentRemoteServer entries

theorem Filed.nil {r r' : Reading} (hgroup : r'.securityGroup = r.securityGroup)
    (hname : r'.currentRemoteServer = r.currentRemoteServer) : Filed r r' [] :=
  ⟨by rw [hgroup]; exact (List.append_nil _).symm, hname⟩

theorem Filed.append {r r' r'' : Reading} {es fs : List Entry} (h : Filed r r' es)
    (h' : Filed r' r'' fs) : Filed r r'' (es ++ fs) := by
  constructor
  · rw [h'.securityGroup, h.securityGroup, h.name, withNameAbove_append, List.map_append,
      List.append_assoc]
  · rw [h'.name, h.name, nameAfter, nameAfter, nameAfter, List.foldl_append]

theorem read_items (env : Text) (protocolNumber : List (Text × Text)) (items : List Item) :
    ∀ r : Reading,
    ∃ r', (items.map Item.line).foldl (readGroupLine env protocolNumber) r = r' ∧
      r'.currentServer = r.currentServer ∧
      Filed r r' (items.map fun item => ⟨r.currentServer, r.currentPort, item⟩) := by
  induction items with
  | nil => exact fun r => ⟨r, rfl, rfl, Filed.nil rfl rfl⟩
  | cons item items ih =>
    intro r
    obtain ⟨range, hitem⟩ := read_item env protocolNumber r item
    obtain ⟨r', hrun, hserver, hfiled⟩ := ih (readGroupLine env protocolNumber r item.line)
    rw [hitem] at hserver hfiled
    refine ⟨r', hrun, hserver, ?_⟩
    exact @Filed.append _ _ _ [⟨r.currentServer, r.currentPort, item⟩] _ ⟨rfl, rfl⟩ hfiled

theorem read_permissions (env : Text) (protocolNumber : List (Text × Text))
    (permissions : List Permission) : ∀ r : Reading,
    ∃ r', (permissions.flatMap Permission.lines).foldl (readGroupLine env protocolNumber) r = r' ∧
      Filed r r' (permissions.flatMap fun p =>
        p.items.map fun item => ⟨r.currentServer, p.port.text, item⟩) := by
  induction permissions with
  | nil => exact fun r => ⟨r, rfl, Filed.nil rfl rfl⟩
  | cons p permissions ih =>
    intro r
    obtain ⟨undefinedPorts, hport⟩ := read_ipPermissions env protocolNumber r p.port p.more
    obtain ⟨r', hitems, hserver, hfiled⟩ := read_items env protocolNumber p.items
      { r with currentPort := p.port.text, undefinedPorts := undefinedPorts }
    obtain ⟨r'', hrest, hfiled'⟩ := ih r'
    rw [hserver] at hfiled'
    refine ⟨r'', ?_, ?_⟩
    · rw [List.flatMap_cons, List.foldl_append, Permission.lines, List.foldl_cons, hport, hitems,
        hrest]
    · rw [List.flatMap_cons]
      exact Filed.append ⟨hfiled.securityGroup, hfiled.name⟩ hfiled'

theorem read_groups (groups : List SecurityGroup) : ∀ r : Reading,
    Filed r ((groups.flatMap SecurityGroup.lines).foldl (readGroupLine env protocolNumber) r)
      (groups.flatMap SecurityGroup.entries) := by
  induction groups with
  | nil => exact fun r => Filed.nil rfl rfl
  | cons g groups ih =>
    intro r
    obtain ⟨r', hrun, hfiled⟩ := read_permissions env protocolNumber g.permissions
      { r with currentServer := g.name.text }
    have hgroup : g.lines.foldl (readGroupLine env protocolNumber) r = r' := by
      rw [SecurityGroup.lines, List.foldl_cons, read_securityGroups, hrun]
    rw [List.flatMap_cons, List.flatMap_cons, List.foldl_append, hgroup]
    exact Filed.append ⟨hfiled.securityGroup, hfiled.name⟩ (ih r')

theorem listingLine_plain {keyword : Text} {fields : List Token} (hne : keyword ≠ [])
    (hplain : '\n' ∉ keyword) :
    listingLine keyword fields ≠ [] ∧ '\n' ∉ listingLine keyword fields := by
  constructor
  · intro h
    cases fields with
    | nil => exact hne (by simpa [listingLine] using h)
    | cons f fields => simp [listingLine, List.intercalate_cons_cons] at h
  · intro h
    rcases Fields.mem_intercalate h with h | ⟨f, hf, hc⟩
    · exact absurd h (by decide)
    · rcases List.mem_cons.mp hf with rfl | hf
      · exact hplain hc
      · obtain ⟨t, -, rfl⟩ := List.mem_map.mp hf
        exact t.not_mem rfl hc

theorem Item.line_plain (item : Item) : item.line ≠ [] ∧ '\n' ∉ item.line := by
  cases item with
  | groupPair id name more => exact listingLine_plain (by decide) (by decide)
  | range address more => exact listingLine_plain (by decide) (by decide)

theorem listing_lines (groups : List SecurityGroup) :
    Fields.split '\n' (listingText groups) = groups.flatMap SecurityGroup.lines := by
  refine Fields.split_unlines fun l hl => ?_
  obtain ⟨g, -, hl⟩ := List.mem_flatMap.mp hl
  rcases List.mem_cons.mp hl with rfl | hl
  · exact listingLine_plain (by decide) (by decide)
  · obtain ⟨p, -, hl⟩ := List.mem_flatMap.mp hl
    rcases List.mem_cons.mp hl with rfl | hl
    · exact listingLine_plain (by decide) (by decide)
    · obtain ⟨item, -, rfl⟩ := List.mem_map.mp hl
      exact item.line_plain

/-! ## What is recorded -/

/-- What is listed for the servers, in the order in which they are asked for. -/
def entriesOf (rules : Rules) (listing : Text → List SecurityGroup) : List Entry :=
  (serversOf rules.portsOpen).flatMap fun server =>
    (listing server).flatMap SecurityGroup.entries

/-- The servers are asked for one after the other; the variables are not set back in between. -/
theorem read_servers (env : Text) (protocolNumber : List (Text × Text))
    (listing : Text → List SecurityGroup) (servers : List Text) (r : Reading) :
    Filed r
      (servers.foldl (fun r server => (Fields.split '\n' (listingText (listing server))).foldl
        (readGroupLine env protocolNumber) r) r)
      (servers.flatMap fun server => (listing server).flatMap SecurityGroup.entries) := by
  induction servers generalizing r with
  | nil => exact Filed.nil rfl rfl
  | cons server servers ih =>
    rw [List.foldl_cons, List.flatMap_cons, listing_lines]
    exact (read_groups (listing server) r).append (ih _)

/-- **A line is filed under the group it names, or else the one last named above it.** -/
theorem read_listing (env : Text) (rules : Rules) (listing : Text → List SecurityGroup) :
    (readSecurityGroups env rules fun server => listingText (listing server)).securityGroup =
      (withNameAbove [] (entriesOf rules listing)).map filedAs :=
  (read_servers env rules.protocolNumber listing (serversOf rules.portsOpen)
    Reading.empty).securityGroup

theorem withNameAbove_snd (name : Text) (entries : List Entry) :
    (withNameAbove name entries).map Prod.snd = entries := by
  induction entries generalizing name with
  | nil => rfl
  | cons e entries ih => exact congrArg (e :: ·) (ih _)

theorem mem_entries {name : Text} {entries : List Entry} {e : Entry} :
    e ∈ entries ↔ ∃ x ∈ withNameAbove name entries, x.2 = e := by
  rw [← List.mem_map, withNameAbove_snd]

theorem filedAs_named {x : Text × Entry} (h : x.2.item.named.isSome = true) :
    filedAs x = x.2.listed env := by
  obtain ⟨name, ⟨server, port, item⟩⟩ := x
  cases item with
  | groupPair id name more => rfl
  | range address more => exact absurd h (by simp [Item.named])

theorem filedAs_range {x : Text × Entry} (h : x.2.item.named = none) :
    filedAs x = ⟨x.2.server, x.1, x.2.port⟩ := by
  rw [filedAs, h]
  rfl

/-- A line with a range that does no harm: the group last named above it is let in by some line
with the same server and port, and its own source is a group that some line with the same server
and port is filed under. -/
structure Covered (env : Text) (entries : List Entry) (x : Text × Entry) : Prop where
  name : ∃ e ∈ entries, e.listed env = ⟨x.2.server, x.1, x.2.port⟩
  range : ∃ y ∈ withNameAbove [] entries,
    ⟨y.2.server, y.2.item.named.getD y.1, y.2.port⟩ = x.2.listed env

/-- **What is recorded is what is listed exactly when no line with a range does any harm.** -/
theorem records_listed_iff (env : Text) (rules : Rules) (listing : Text → List SecurityGroup) :
    (∀ g, g ∈ (readSecurityGroups env rules fun server =>
        listingText (listing server)).securityGroup ↔
      ∃ e ∈ entriesOf rules listing, e.listed env = g) ↔
    ∀ x ∈ withNameAbove [] (entriesOf rules listing), x.2.item.named = none →
      Covered env (entriesOf rules listing) x := by
  rw [read_listing]
  constructor
  · intro h x hx hrange
    constructor
    · rw [← filedAs_range hrange]
      exact (h (filedAs x)).mp (List.mem_map.mpr ⟨x, hx, rfl⟩)
    · obtain ⟨y, hy, hkey⟩ := List.mem_map.mp
        ((h (x.2.listed env)).mpr ⟨x.2, mem_entries.mpr ⟨x, hx, rfl⟩, rfl⟩)
      exact ⟨y, hy, hkey⟩
  · intro h g
    constructor
    · intro hg
      obtain ⟨x, hx, rfl⟩ := List.mem_map.mp hg
      cases hnamed : x.2.item.named with
      | none =>
        rw [filedAs_range hnamed]
        exact (h x hx hnamed).name
      | some name =>
        exact ⟨x.2, mem_entries.mpr ⟨x, hx, rfl⟩, (filedAs_named (by rw [hnamed]; rfl)).symm⟩
    · rintro ⟨e, he, rfl⟩
      obtain ⟨x, hx, rfl⟩ := mem_entries.mp he
      cases hnamed : x.2.item.named with
      | none =>
        obtain ⟨y, hy, hkey⟩ := (h x hx hnamed).range
        exact List.mem_map.mpr ⟨y, hy, hkey⟩
      | some name => exact List.mem_map.mpr ⟨x, hx, filedAs_named (by rw [hnamed]; rfl)⟩

theorem name_above {name : Text} : ∀ {entries : List Entry}, ∀ x ∈ withNameAbove name entries,
    x.1 = name ∨ ∃ e ∈ entries, e.item.named = some x.1 := by
  intro entries
  induction entries generalizing name with
  | nil => intro x hx; exact absurd hx List.not_mem_nil
  | cons e entries ih =>
    intro x hx
    rcases List.mem_cons.mp hx with rfl | hx
    · exact Or.inl rfl
    · rcases ih x hx with hname | ⟨f, hf, hname⟩
      · cases hnamed : e.item.named with
        | none =>
          rw [hnamed] at hname
          exact Or.inl hname
        | some named =>
          rw [hnamed] at hname
          exact Or.inr ⟨e, by simp, by rw [hnamed, hname]; rfl⟩
      · exact Or.inr ⟨f, by simp [hf], hname⟩

theorem source_ne_nil (item : Item) : item.source env ≠ [] := by
  cases item with
  | groupPair id name more => exact name.ne_nil
  | range address more =>
    rw [Item.source, rangeName]
    split
    · simp [hostName]
    · exact address.ne_nil

/-- Where no group has the name of a range, a single line with a range is enough to go wrong. -/
theorem covered_iff_no_range {entries : List Entry}
    (hnames : ∀ e ∈ entries, ∀ f ∈ entries, f.item.named = none →
      e.item.named ≠ some (f.item.source env)) :
    (∀ x ∈ withNameAbove [] entries, x.2.item.named = none → Covered env entries x) ↔
      ∀ e ∈ entries, e.item.named ≠ none := by
  constructor
  · intro h e he hrange
    obtain ⟨x, hx, rfl⟩ := mem_entries.mp he
    obtain ⟨y, hy, hkey⟩ := (h x hx hrange).range
    have hsource : y.2.item.named.getD y.1 = x.2.item.source env := congrArg Grant.source hkey
    cases hnamed : y.2.item.named with
    | some name =>
      rw [hnamed] at hsource
      refine hnames y.2 (mem_entries.mpr ⟨y, hy, rfl⟩) x.2 he hrange ?_
      rw [hnamed, ← hsource]
      rfl
    | none =>
      -- The name is that of a line above, or none has been read yet.
      rw [hnamed] at hsource
      have habove : y.1 = x.2.item.source env := hsource
      rcases name_above y hy with hname | ⟨f, hf, hname⟩
      · exact source_ne_nil _ (habove.symm.trans hname)
      · exact hnames f hf x.2 he hrange (by rw [hname, habove])
  · intro h x hx hrange
    exact absurd hrange (h x.2 (mem_entries.mpr ⟨x, hx, rfl⟩))

/-- A group that is open to everyone. -/
def openSample : SecurityGroup :=
  ⟨⟨"w".toList, by decide⟩, [], [⟨⟨"80".toList, by decide⟩, [],
    [.range ⟨"0.0.0.0/0".toList, by decide⟩ []]⟩]⟩

/-- The grant to everyone is not recorded. -/
theorem open_grant_not_recorded : ¬ ∀ (env : Text) (rules : Rules)
    (listing : Text → List SecurityGroup),
    ∀ g, g ∈ (readSecurityGroups env rules fun server =>
        listingText (listing server)).securityGroup ↔
      ∃ e ∈ entriesOf rules listing, e.listed env = g := by
  intro h
  have hentries : entriesOf { Rules.empty with portsOpen := [⟨"w".toList, [], []⟩] }
      (fun _ => [openSample]) =
        [⟨"w".toList, "80".toList, .range ⟨"0.0.0.0/0".toList, by decide⟩ []⟩] := by
    decide +kernel
  have hlisted := (h [] _ (fun _ => [openSample]) _).mpr
    ⟨_, hentries ▸ List.mem_singleton_self _, rfl⟩
  rw [read_listing, hentries] at hlisted
  exact absurd hlisted (by decide)

end Audit
end Firewall
end TdsAdmin
