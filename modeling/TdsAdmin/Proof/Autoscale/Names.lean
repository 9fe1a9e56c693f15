import TdsAdmin.Proof.Autoscale.Pool

/-!
# The names of the servers

A new server is named by counting up from the last one that is found in the file, and the last one
is the last in the order of the lines. Lines are added at the end, so the names stand in the file
in their order, and counting up from the last gives a name that no other server has
(`names_ordered`).

Three things have to be so. `grep -A1000` sees a thousand lines: with more servers than that it
counts up from one in the middle. The names must look like `app000`, small letters and then digits:
`++` takes any other name for a number. And the odometer must not go round, since the name it has
then is longer and does not come later in the order of the lines.
-/

set_option autoImplicit false

namespace TdsAdmin
namespace Autoscale

open Fields (cutField)
open Odometer (isCounter kinds reading span)

/-! ## The order of the lines -/

theorem append_lt_append : ∀ {u v : Text}, u.length = v.length → u < v → ∀ x y : Text,
    u ++ x < v ++ y
  | [], [], _, h, _, _ => absurd h (lt_irrefl _)
  | [], _ :: _, hlen, _, _, _ => by simp at hlen
  | _ :: _, [], hlen, _, _, _ => by simp at hlen
  | a :: u, b :: v, hlen, h, x, y => by
    rw [List.cons_append, List.cons_append, List.cons_lt_cons_iff]
    rcases List.cons_lt_cons_iff.mp h with hab | ⟨rfl, huv⟩
    · exact Or.inl hab
    · exact Or.inr ⟨rfl, append_lt_append (by simpa using hlen) huv x y⟩

theorem Entry.line_lt {d e : Entry} (hlen : d.app.length = e.app.length) (h : d.app < e.app) :
    d.line < e.line := by
  unfold Entry.line serverLine
  rw [List.append_assoc, List.append_assoc]
  apply List.append_left_lt
  exact append_lt_append hlen h _ _

/-! ## The last name -/

/-- The name that is counted up from when there is no server. -/
def app000 : Text := "app000".toList

/-- Names like `app000`: three small letters and three digits. -/
def Shaped (app : Text) : Prop := kinds app = kinds app000

namespace Shaped

variable {app : Text}

theorem length (h : Shaped app) : app.length = app000.length := Odometer.length_of_kinds h

theorem span (h : Shaped app) : Odometer.span app = Odometer.span app000 :=
  Odometer.span_of_kinds h

theorem isCounter (h : Shaped app) : Odometer.isCounter app = true := by
  have happ : Odometer.isCounter app = Odometer.isCounter app000 := by
    unfold Odometer.isCounter
    rw [h]
  rw [happ]
  decide

end Shaped

namespace Config

variable {numeric : Odometer.Numeric} {c : Config}

/-- The names stand in the file in their order. -/
structure Ordered (c : Config) : Prop where
  increasing : c.apps.Pairwise (· < ·)
  shaped : ∀ app ∈ c.apps, Shaped app

theorem Ordered.lines_pairwise (h : c.Ordered) :
    (c.entries.map Entry.line).Pairwise (· ≤ ·) := by
  have happs : c.entries.Pairwise fun d e => d.app < e.app := List.pairwise_map.mp h.increasing
  apply List.pairwise_map.mpr
  apply happs.imp_of_mem
  intro d e hd he hlt
  have hlen : d.app.length = e.app.length := by
    rw [(h.shaped d.app (List.mem_map_of_mem hd)).length,
      (h.shaped e.app (List.mem_map_of_mem he)).length]
  exact le_of_lt (Entry.line_lt hlen hlt)

/-- With a thousand servers or less the last name of the file is found. -/
theorem Ordered.lastApp (h : c.Ordered) (hfew : c.entries.length ≤ 1000) :
    lastApp c.text = c.apps.getLast?.getD [] := by
  have hnames : (c.entries.map Entry.line).map (cutField 6) = c.apps := by
    rw [List.map_map, Config.apps]
    apply List.map_congr_left
    intro e _
    exact e.cutField_line
  rw [lastApp_text, List.take_of_length_le hfew, h.lines_pairwise.insertionSort_eq, hnames]

/-- What is counted up from. -/
def before (c : Config) : Text := c.apps.getLast?.getD app000

theorem before_eq (h : c.Ordered) (hfew : c.entries.length ≤ 1000) :
    nextApp numeric c.text = Odometer.increment numeric c.before := by
  unfold nextApp before
  rw [h.lastApp hfew]
  cases hlast : c.apps.getLast? with
  | none => rfl
  | some app =>
    have hne : app ≠ [] := by
      intro hnil
      have hlen := (h.shaped app (List.mem_of_getLast? hlast)).length
      rw [hnil] at hlen
      exact absurd hlen (by decide)
    simp [hne]

theorem before_mem : c.before ∈ app000 :: c.apps := by
  unfold before
  cases hlast : c.apps.getLast? with
  | none => exact List.mem_cons_self
  | some app => exact List.mem_cons_of_mem _ (List.mem_of_getLast? hlast)

theorem before_shaped (h : c.Ordered) : Shaped c.before := by
  rcases List.mem_cons.mp c.before_mem with hb | hb
  · rw [hb]
    rfl
  · exact h.shaped _ hb

theorem le_before (h : c.Ordered) : ∀ app ∈ c.apps, app ≤ c.before := by
  intro app happ
  have hne : c.apps ≠ [] := List.ne_nil_of_mem happ
  have hlast : c.before = c.apps.getLast hne := by
    rw [before, List.getLast?_eq_some_getLast hne, Option.getD_some]
  have hcut := List.dropLast_append_getLast hne
  have hpairs := h.increasing
  rw [← hcut] at happ hpairs
  rw [hlast]
  rcases List.mem_append.mp happ with hin | hin
  · exact le_of_lt ((List.pairwise_append.mp hpairs).2.2 app hin _ (List.mem_singleton_self _))
  · exact le_of_eq (List.mem_singleton.mp hin)

/-! ## The edits keep the order -/

theorem Ordered.added (h : c.Ordered) (hfew : c.entries.length ≤ 1000)
    (hroom : reading c.before + 1 < span app000) {e : Entry}
    (happ : e.app = nextApp numeric c.text) :
    (c.withEntries (c.entries ++ [e])).Ordered ∧ reading e.app = reading c.before + 1 := by
  have hshape := before_shaped h
  rw [← hshape.span] at hroom
  obtain ⟨hread, hkinds⟩ := Odometer.reading_increment numeric hshape.isCounter hroom
  have hlt := Odometer.lt_increment numeric hshape.isCounter hroom
  rw [before_eq h hfew] at happ
  rw [← happ] at hread hkinds hlt
  have happs : (c.withEntries (c.entries ++ [e])).apps = c.apps ++ [e.app] := by
    simp [withEntries, apps]
  refine ⟨⟨?_, ?_⟩, hread⟩
  · rw [happs]
    apply List.pairwise_append.mpr
    refine ⟨h.increasing, List.pairwise_singleton _ _, ?_⟩
    intro app hin new hnew
    rw [List.mem_singleton.mp hnew]
    exact lt_of_le_of_lt (le_before h app hin) hlt
  · rw [happs]
    intro app hin
    rcases List.mem_append.mp hin with hin | hin
    · exact h.shaped app hin
    · rw [List.mem_singleton.mp hin]
      exact hkinds.trans hshape

theorem apps_filter (p : Entry → Bool) :
    (c.withEntries (c.entries.filter p)).apps.Sublist c.apps := List.filter_sublist.map _

theorem Ordered.removed (h : c.Ordered) (p : Entry → Bool) :
    (c.withEntries (c.entries.filter p)).Ordered where
  increasing := h.increasing.sublist (apps_filter p)
  shaped := fun app happ => h.shaped app ((apps_filter p).subset happ)

end Config

/-! ## Every run -/

def Change.isLaunch : Change → Bool
  | .launched _ _ => true
  | .terminated _ => false

/-- How many servers have been added. -/
def launches (events : List Event) : Nat := ((changes events).filter Change.isLaunch).length

theorem launches_append (events : List Event) (e : Event) :
    launches (events ++ [e]) = launches events + launches [e] := by
  simp [launches, changes_append]

/-- The pool never holds more than a thousand servers. -/
def Few (pool : Pool) (events : List Event) : Prop :=
  ∀ first more, events = first ++ more → (replay pool (changes first)).length ≤ 1000

theorem Few.before {pool : Pool} {events : List Event} {e : Event} (h : Few pool (events ++ [e])) :
    Few pool events := by
  intro first more heq
  apply h first (more ++ [e])
  rw [heq, List.append_assoc]

theorem replay_length_le (pool : Pool) (changes : List Change) :
    (replay pool changes).length ≤ pool.length + (changes.filter Change.isLaunch).length := by
  induction changes generalizing pool with
  | nil => simp [replay]
  | cons change changes ih =>
    apply (ih (change.apply pool)).trans
    cases change with
    | launched host id =>
      have hlaunch : (Change.launched host id).isLaunch = true := rfl
      simp [Change.apply, hlaunch]
      omega
    | terminated id =>
      have := List.length_filter_le (fun server : Text × Text => server.2 ≠ id) pool
      simp only [Change.apply, Change.isLaunch, Bool.false_eq_true, not_false_eq_true,
        List.filter_cons_of_neg]
      omega

/-- It is enough to count the launches. -/
theorem few_of_launches {pool : Pool} {events : List Event}
    (h : pool.length + launches events ≤ 1000) : Few pool events := by
  rintro first more rfl
  have hle : launches first ≤ launches (first ++ more) := by
    simp [launches, changes]
  have := replay_length_le pool (changes first)
  rw [launches] at hle
  omega

/-- What the run has kept: the names are in order, and no name is further than the names it
started with and the servers it has added account for. -/
structure Named (c : Config) (limit : Nat) (events : List Event) (w : World) (c' : Config) :
    Prop where
  file : w.file = c'.text
  pool : c'.pool = replay c.pool (changes events)
  ordered : c'.Ordered
  counted : ∀ app ∈ app000 :: c'.apps, reading app ≤ limit + launches events

theorem Named.quiet {c : Config} {limit : Nat} {events : List Event} {w w' : World}
    {c' : Config} (h : Named c limit events w c') (e : Event) (hfile : w'.file = w.file)
    (he : changes [e] = []) : Named c limit (events ++ [e]) w' c' where
  file := hfile.trans h.file
  pool := by
    rw [changes_append, he, List.append_nil]
    exact h.pool
  ordered := h.ordered
  counted := by
    intro app happ
    rw [launches_append]
    exact (h.counted app happ).trans (by omega)

/-- The new name is one further than the last one, and there was room for it. -/
theorem Named.added {numeric : Odometer.Numeric} {c : Config} {limit : Nat} {events : List Event}
    {w : World} {c' : Config} (h : Named c limit events w c') (hfew : c'.entries.length ≤ 1000)
    (hroom : limit + (launches events + 1) < span app000) {e : Entry}
    (happ : e.app = nextApp numeric c'.text) :
    (c'.withEntries (c'.entries ++ [e])).Ordered ∧
      ∀ app ∈ app000 :: (c'.withEntries (c'.entries ++ [e])).apps,
        reading app ≤ limit + (launches events + 1) := by
  have hbefore := h.counted _ c'.before_mem
  obtain ⟨hordered, hread⟩ := h.ordered.added hfew (by omega) happ
  refine ⟨hordered, ?_⟩
  intro app hin
  simp only [Config.withEntries, Config.apps, List.map_append, List.map_cons, List.map_nil,
    List.mem_cons, List.mem_append, List.not_mem_nil, or_false] at hin
  rcases hin with rfl | hin | rfl
  · have := h.counted app000 List.mem_cons_self
    omega
  · have := h.counted app (List.mem_cons_of_mem _ hin)
    omega
  · omega

/-- What is left has kept its order. -/
theorem Named.removed {c : Config} {limit : Nat} {events : List Event} {w : World} {c' : Config}
    (h : Named c limit events w c') (p : Entry → Bool) :
    (c'.withEntries (c'.entries.filter p)).Ordered ∧
      ∀ app ∈ app000 :: (c'.withEntries (c'.entries.filter p)).apps,
        reading app ≤ limit + launches events := by
  refine ⟨h.ordered.removed p, ?_⟩
  intro app hin
  apply h.counted app
  rcases List.mem_cons.mp hin with rfl | hin
  · exact List.mem_cons_self
  · exact List.mem_cons_of_mem _ ((Config.apps_filter p).subset hin)

theorem Named.acted {numeric : Odometer.Numeric} {c : Config} {limit : Nat}
    {events : List Event} {w : World} {c' : Config}
    {m : Message} {ec2 : Ec2} {file : Text} (h : Named c limit events w c')
    (hfew : (replay c.pool (changes events)).length ≤ 1000)
    (hroom : limit + launches (events ++ [.act m ec2]) < span app000)
    (hedit : handle numeric ec2 w.file m.body = .updated file) :
    ∃ c'', Named c limit (events ++ [.act m ec2]) { w with phase := .acted m, file := file }
      c'' := by
  rw [h.file] at hedit
  obtain ⟨change, entries, hchange, hfile, hafter, hentries⟩ := edit_text hedit
  have hone : changes [.act m ec2] = [change] := by simp [changes, hchange]
  have hpool : (c'.withEntries entries).pool
      = replay c.pool (changes (events ++ [.act m ec2])) := by
    rw [changes_append, hone, replay_append, hafter, h.pool]
    rfl
  have hcount : c'.entries.length ≤ 1000 := by
    -- `grep -A1000` shows all of them
    have hlen : c'.pool.length = c'.entries.length := by simp [Config.pool]
    rw [← hlen, h.pool]
    exact hfew
  have hrest : (c'.withEntries entries).Ordered ∧ ∀ app ∈ app000 :: (c'.withEntries entries).apps,
      reading app ≤ limit + launches (events ++ [.act m ec2]) := by
    rw [launches_append] at hroom ⊢
    cases change with
    | launched host id =>
      obtain ⟨e, happ, -, -, rfl⟩ := hentries
      have hlaunch : launches [.act m ec2] = 1 := by
        rw [launches, hone]
        rfl
      rw [hlaunch] at hroom ⊢
      exact h.added hcount hroom happ
    | terminated id =>
      have hlaunch : launches [.act m ec2] = 0 := by
        rw [launches, hone]
        rfl
      rw [hlaunch, Nat.add_zero, hentries]
      exact h.removed _
  exact ⟨_, hfile, hpool, hrest.1, hrest.2⟩

/-- **The servers stand in the file in the order of their names, and no two have one name**, as
long as there are never more than a thousand and the names do not run out. -/
theorem names_ordered (numeric : Odometer.Numeric) (c : Config) (hordered : c.Ordered) (limit : Nat)
    (hlimit : ∀ app ∈ app000 :: c.apps, reading app ≤ limit) {events : List Event} {w : World}
    (run : (system numeric c.text).Reaches events w) (hfew : Few c.pool events)
    (hroom : limit + launches events < span app000) :
    ∃ c' : Config, w.file = c'.text ∧ c'.pool = replay c.pool (changes events) ∧
      c'.apps.Pairwise (· < ·) := by
  -- both conditions are about the whole run, so they are part of what is carried along
  have hnamed : Few c.pool events → limit + launches events < span app000 →
      ∃ c', Named c limit events w c' := by
    apply run.invariant (P := fun events w => Few c.pool events →
      limit + launches events < span app000 → ∃ c', Named c limit events w c')
    · intro s hs _ _
      exact ⟨c, hs.2.2.2, rfl, hordered, hlimit⟩
    · intro events s e t ih hstep hfew hroom
      have hless : limit + launches events < span app000 := by
        rw [launches_append] at hroom
        omega
      obtain ⟨c', h⟩ := ih hfew.before hless
      cases hstep with
      | publish m fresh => exact ⟨c', h.quiet _ rfl rfl⟩
      | receive m hm hw => exact ⟨c', h.quiet _ rfl rfl⟩
      | discard m hw hact => exact ⟨c', h.quiet _ rfl rfl⟩
      | die m ec2 hw hdied => exact ⟨c', h.quiet _ rfl rfl⟩
      | delete m hw => exact ⟨c', h.quiet _ rfl rfl⟩
      | crash => exact ⟨c', h.quiet _ rfl rfl⟩
      | act m ec2 hw hedit => exact h.acted (hfew events _ rfl) hroom hedit
  obtain ⟨c', h⟩ := hnamed hfew hroom
  exact ⟨c', h.file, h.pool, h.ordered.increasing⟩

theorem names_ordered_run : ∃ c' : Config, runWorld.file = c'.text ∧
    c'.pool = [(secondHost.text, secondId), (secondHost.text, secondId)] ∧
      c'.apps.Pairwise (· < ·) := by
  have hthree : launches runEvents = 3 := by
    rw [launches, changes_run]
    rfl
  have hspan : reading app000 + 3 < span app000 := by decide
  have hfew : blank.pool.length + launches runEvents ≤ 1000 := by
    rw [hthree]
    decide
  obtain ⟨c', hfile, hpool, hordered⟩ := names_ordered afterNone blank
    ⟨List.Pairwise.nil, by simp [blank, Config.apps]⟩ (reading app000)
    (by simp [blank, Config.apps]) run_reaches (few_of_launches hfew) (by omega)
  exact ⟨c', hfile, hpool.trans pool_run, hordered⟩

end Autoscale
end TdsAdmin
