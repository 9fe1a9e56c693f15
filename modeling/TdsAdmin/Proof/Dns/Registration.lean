import TdsAdmin.Lib.System
import TdsAdmin.Proof.Dns.Deletion
import TdsAdmin.Proof.Dns.Update

/-!
# Registering and cleaning side by side

Any number of runs of the registration, for any instances, and runs of `clean_route53.sh` work on
one zone. A run asks first and posts later, and in between the others may change the zone: what it
posts may be out of date, and is then refused as a whole.

`stays_registered` says what this comes to for an instance that is running: once one of its runs has
reported success, its name is an alias of it in every state there is, as long as no other instance
registers the same name, every call of the cleaning for the instance reports it, and EC2 gives no
name to a new instance that the cleaning is about to take for dead.
-/

set_option autoImplicit false

namespace TdsAdmin
namespace Dns

open Json (Doc)

/-! ## The system -/

/-- An instance: the name it is to have and the one that EC2 has given it. -/
structure Instance where
  fqdn : Hostname
  ec2Name : Hostname

/-- A run that has asked, and what it has come to. -/
structure Asked where
  who : Instance
  update : Update

structure World where
  zone : Zone
  /-- The names that EC2 has given to the instances that are running. -/
  running : List Text
  asked : Nat → Option Asked
  /-- The changes that the cleaning is going to submit. -/
  found : List Change
  /-- The running instances one of whose runs has reported success. -/
  succeeded : List Instance

inductive Event where
  | launch (ec2Name : Text)
  | terminate (ec2Name : Text)
  | ask (run : Nat) (who : Instance)
  | post (run : Nat)
  /-- The cleaning is given this listing and these answers. -/
  | search (listed : List Listed) (describe : Nat → Text → Outcome)
  | clean

/-- What a change in a file of changes asks for. -/
def changeOfDoc : Doc → Option Change
  | .object [(actionKey, .string action), (setKey, .object [(nameKey, .string name),
      (typeKey, .string type), (ttlKey, .number ttl),
      (recordsKey, .array [.object [(valueKey, .string value)]])])] =>
      if [actionKey, setKey, nameKey, typeKey, ttlKey, recordsKey, valueKey] =
          ["Action".toList, "ResourceRecordSet".toList, "Name".toList, "Type".toList, "TTL".toList,
            "ResourceRecords".toList, "Value".toList] ∧ type = "CNAME".toList then
        changeOf action name ttl value
      else none
  | _ => none

/-- What Route 53 is asked to do by the file; one that it does not understand asks for nothing. -/
def readFile (file : Option Text) : List Change :=
  ((changesOf (file.bind Json.parse)).mapM changeOfDoc).getD []

def Change.value : Change → Text
  | .delete _ _ value => value
  | .create _ _ value => value

/-- Route 53 answers that it has carried the request out. -/
def Update.accepted (z : Zone) : Update → Bool
  | .posted changeset => (readRequest changeset).any fun batch => (z.changeAll batch).isSome
  | _ => false

/-- The instance has its name, if it is running. -/
def World.succeed (w : World) (i : Instance) (succeeded : Bool) : World :=
  if succeeded && w.running.contains i.ec2Name.text then
    { w with succeeded := i :: w.succeeded }
  else w

def World.setAsked (w : World) (run : Nat) (a : Option Asked) : World :=
  { w with asked := fun other => if other = run then a else w.asked other }

variable (matching : Text → List Text) (s : Route53)

inductive Step : World → Event → World → Prop where
  | launch {w : World} (ec2Name : Text) (fresh : ∀ c ∈ w.found, c.value ≠ ec2Name) :
      Step w (.launch ec2Name) { w with running := ec2Name :: w.running }
  | terminate {w : World} (ec2Name : Text) :
      Step w (.terminate ec2Name)
        { w with
          running := w.running.filter (· ≠ ec2Name)
          succeeded := w.succeeded.filter fun i => i.ec2Name.text ≠ ec2Name }
  | ask {w : World} (run : Nat) (i : Instance) {held : Option (Lifetime × Hostname)}
      {authServer answer : Text} (hserver : authServer ≠ []) (hz : w.zone.Holds i.fqdn held)
      (h : IsAnswer i.fqdn held answer) {update : Update}
      (hupdate : update = updateCname matching authServer answer i.fqdn.text i.ec2Name.text) :
      Step w (.ask run i)
        ((w.setAsked run (some ⟨i, update⟩)).succeed i (decide (update = .unchanged)))
  | post {w : World} (run : Nat) {a : Asked} (h : w.asked run = some a) :
      Step w (.post run)
        (({ w with zone := s.receive w.zone a.update }.setAsked run none).succeed a.who
          (a.update.accepted w.zone))
  | search {w : World} (listed : List Listed) (describe : Nat → Text → Outcome) :
      Step w (.search listed describe)
        { w with found := readFile (cleanRoute53 matching describe (listingText listed)) }
  | clean {w : World} :
      Step w .clean { w with zone := s.submit w.zone w.found, found := [] }

def system (zone : Zone) (first : List Text) : System World Event where
  start w := w.zone = zone ∧ w.running = first ∧ (∀ run, w.asked run = none) ∧ w.found = [] ∧
    w.succeeded = []
  step := Step matching s

/-! ## One request -/

theorem changeAll_batch_eq {z z' : Zone} {fqdn : Hostname} {held : Option (Lifetime × Hostname)}
    {ec2Name : Hostname} (h : z.changeAll (batch fqdn held ec2Name) = some z') :
    z' = z.set fqdn.text (some (newTTL, ec2Name.text)) := by
  have hcreate : ∀ {y : Zone}, y.change (.create fqdn.text newTTL ec2Name.text) = some z' →
      z' = y.set fqdn.text (some (newTTL, ec2Name.text)) := by
    intro y hy
    rw [Zone.change] at hy
    split at hy
    · exact (Option.some.inj hy).symm
    · cases hy
  cases held with
  | none =>
    apply hcreate
    simpa [batch, Zone.changeAll] using h
  | some r =>
    obtain ⟨y, hdelete, hrest⟩ : ∃ y, z.change (.delete fqdn.text r.1.text r.2.text) = some y ∧
        y.change (.create fqdn.text newTTL ec2Name.text) = some z' := by
      simpa [batch, Zone.changeAll, Option.bind_eq_some_iff] using h
    rw [Zone.change] at hdelete
    split at hdelete
    · rw [hcreate hrest, ← Option.some.inj hdelete, Zone.set_set]
    · cases hdelete

/-- What a run that has asked may post. -/
def IsPosted (a : Asked) : Prop :=
  a.update = .unchanged ∨ ∃ held, a.update = .posted (request a.who.fqdn held a.who.ec2Name) ∧
    ¬ Already held a.who.ec2Name

/-- A request is carried out as a whole or not at all. -/
theorem receive_posted {a : Asked} (h : IsPosted a) (z : Zone) :
    (s.receive z a.update = z ∧ a.update.accepted z = false) ∨
      ∃ held, ¬ Already held a.who.ec2Name ∧
        z.changeAll (batch a.who.fqdn held a.who.ec2Name) = some (s.receive z a.update) := by
  rcases h with hunchanged | ⟨held, hposted, hnot⟩
  · rw [hunchanged]
    exact Or.inl ⟨rfl, rfl⟩
  · rw [hposted]
    have hread := request_read a.who.fqdn held a.who.ec2Name
    cases hchange : z.changeAll (batch a.who.fqdn held a.who.ec2Name) with
    | none =>
      left
      simp [Route53.receive, Update.accepted, hread, hchange, s.refuses _ _ hchange]
    | some z' =>
      right
      refine ⟨held, hnot, ?_⟩
      simp [Route53.receive, hread, hchange, s.accepts _ _ _ hchange]

/-! ## What every run keeps -/

/-- No other instance is registered under the name of this one. -/
def Alone (i : Instance) (events : List Event) : Prop :=
  ∀ run other, .ask run other ∈ events → other.fqdn.text = i.fqdn.text → other = i

theorem Alone.before {i : Instance} {events : List Event} {e : Event}
    (h : Alone i (events ++ [e])) : Alone i events :=
  fun run other hask => h run other (List.mem_append_left _ hask)

/-- The instances that run after some events, given those that ran before. -/
def alive (first : List Text) (events : List Event) : List Text :=
  events.foldl (fun running e =>
    match e with
    | .launch ec2Name => ec2Name :: running
    | .terminate ec2Name => running.filter (· ≠ ec2Name)
    | _ => running) first

/-- EC2 reports the instance whenever the cleaning asks about it and it is running. -/
def Reported (first : List Text) (i : Instance) (events : List Event) : Prop :=
  ∀ before listed describe, before ++ [.search listed describe] <+: events →
    i.ec2Name.text ∈ alive first before → ∀ n, (describe n i.ec2Name.text).reportsInstance = true

theorem Reported.before {first : List Text} {i : Instance} {events : List Event} {e : Event}
    (h : Reported first i (events ++ [e])) : Reported first i events :=
  fun before listed describe hpart => h before listed describe
    (hpart.trans (List.prefix_append _ _))

/-- The name of the instance is an alias of it. -/
def Zone.Names (z : Zone) (i : Instance) : Prop :=
  ∃ ttl, z.cname i.fqdn.text = some (ttl, i.ec2Name.text)

structure Kept (first : List Text) (events : List Event) (w : World) : Prop where
  named : ∀ i ∈ w.succeeded, Alone i events → Reported first i events → w.zone.Names i
  running : ∀ i ∈ w.succeeded, i.ec2Name.text ∈ w.running
  alive : w.running = alive first events
  dead : ∀ c ∈ w.found, ∀ i : Instance, i.ec2Name.text = c.value → Reported first i events →
    c.value ∉ w.running
  asked : ∀ run a, w.asked run = some a → IsPosted a ∧ ∃ n, .ask n a.who ∈ events

theorem mem_succeed {w : World} {i j : Instance} {succeeded : Bool} :
    j ∈ (w.succeed i succeeded).succeeded ↔
      j ∈ w.succeeded ∨ (j = i ∧ succeeded = true ∧ i.ec2Name.text ∈ w.running) := by
  unfold World.succeed
  split
  · rename_i h
    rw [Bool.and_eq_true, List.contains_iff_mem] at h
    simp [h, or_comm]
  · rename_i h
    rw [Bool.and_eq_true, List.contains_iff_mem] at h
    simp [h]

@[simp] theorem succeed_zone (w : World) (i : Instance) (b : Bool) :
    (w.succeed i b).zone = w.zone := by
  unfold World.succeed
  split <;> rfl

@[simp] theorem succeed_running (w : World) (i : Instance) (b : Bool) :
    (w.succeed i b).running = w.running := by
  unfold World.succeed
  split <;> rfl

@[simp] theorem succeed_found (w : World) (i : Instance) (b : Bool) :
    (w.succeed i b).found = w.found := by
  unfold World.succeed
  split <;> rfl

@[simp] theorem succeed_asked (w : World) (i : Instance) (b : Bool) :
    (w.succeed i b).asked = w.asked := by
  unfold World.succeed
  split <;> rfl

/-- A run that finds the alias there, or whose request is carried out, leaves the name as it should
be. -/
theorem Kept.succeed {first : List Text} {events : List Event} {w : World}
    (h : Kept first events w) (i : Instance) (b : Bool)
    (hb : b = true → w.zone.Names i) : Kept first events (w.succeed i b) where
  named := by
    intro j hj halone hreported
    rw [succeed_zone]
    rcases mem_succeed.mp hj with hj | ⟨rfl, hsucceeded, -⟩
    · exact h.named j hj halone hreported
    · exact hb hsucceeded
  running := by
    intro j hj
    rw [succeed_running]
    rcases mem_succeed.mp hj with hj | ⟨rfl, -, hrunning⟩
    · exact h.running j hj
    · exact hrunning
  alive := by rw [succeed_running, h.alive]
  dead := by simpa using h.dead
  asked := by simpa using h.asked

/-- What was asked for stays so. -/
theorem Kept.asked_longer {first : List Text} {events : List Event} {w : World}
    (h : Kept first events w) (e : Event) {run : Nat} {a : Asked} (ha : w.asked run = some a) :
    IsPosted a ∧ ∃ n, .ask n a.who ∈ events ++ [e] := by
  obtain ⟨hposted, n, hn⟩ := h.asked run a ha
  exact ⟨hposted, n, List.mem_append_left _ hn⟩

/-- An event that starts and ends no instance. -/
theorem Kept.longer {first : List Text} {events : List Event} {w : World}
    (h : Kept first events w) (e : Event)
    (hsame : Dns.alive first (events ++ [e]) = Dns.alive first events) :
    Kept first (events ++ [e]) w where
  named := fun i hi halone hreported => h.named i hi halone.before hreported.before
  running := h.running
  alive := by rw [h.alive, hsame]
  dead := fun c hc i hvalue hreported => h.dead c hc i hvalue hreported.before
  asked := fun _ _ ha => h.asked_longer e ha

theorem Kept.setAsked {first : List Text} {events : List Event} {w : World}
    (h : Kept first events w) (run : Nat)
    {a : Option Asked} (ha : ∀ b, a = some b → IsPosted b ∧ ∃ n, .ask n b.who ∈ events) :
    Kept first events (w.setAsked run a) where
  named := h.named
  running := h.running
  alive := h.alive
  dead := h.dead
  asked := by
    intro other b hb
    dsimp only [World.setAsked] at hb
    split at hb
    · exact ha b hb
    · exact h.asked other b hb

/-- A zone in which nobody who has succeeded has lost the name. -/
theorem Kept.setZone {first : List Text} {events : List Event} {w : World}
    (h : Kept first events w) {z : Zone}
    (hz : ∀ i ∈ w.succeeded, Alone i events → Reported first i events →
      w.zone.Names i → z.Names i) :
    Kept first events { w with zone := z } where
  named := fun i hi halone hreported => hz i hi halone hreported (h.named i hi halone hreported)
  running := h.running
  alive := h.alive
  dead := h.dead
  asked := h.asked

theorem Kept.post {first : List Text} {events : List Event} {w : World}
    (h : Kept first events w) {run : Nat} {a : Asked}
    (ha : w.asked run = some a) :
    Kept first events { w with zone := s.receive w.zone a.update } := by
  obtain ⟨hposted, n, hn⟩ := h.asked run a ha
  apply h.setZone
  intro i _ halone _ hnamed
  rcases receive_posted s hposted w.zone with ⟨hsame, -⟩ | ⟨held, hnot, hchange⟩
  · rw [hsame]
    exact hnamed
  · obtain ⟨ttl, hheld⟩ := hnamed
    refine ⟨ttl, Zone.changeAll_keeps hchange hheld ?_⟩
    intro hdelete
    rcases List.mem_append.mp hdelete with hdelete | hcreate
    · -- Only a run for the same name deletes it, and that one is for the same instance.
      simp only [Option.mem_toList, Option.map_eq_some_iff] at hdelete
      obtain ⟨r, hr, heq⟩ := hdelete
      injection heq with hname httl hvalue
      have hwho : a.who = i := halone n a.who hn hname
      apply hnot
      rw [Already, hr, Option.map_some, hvalue, hwho]
    · simp at hcreate

theorem Kept.clean {first : List Text} {events : List Event} {w : World}
    (h : Kept first events w) :
    Kept first events { w with zone := s.submit w.zone w.found } := by
  apply h.setZone
  intro i hi _ hreported hnamed
  cases hchange : w.zone.changeAll w.found with
  | none =>
    rw [s.refuses _ _ hchange]
    exact hnamed
  | some z' =>
    rw [s.accepts _ _ _ hchange]
    obtain ⟨ttl, hheld⟩ := hnamed
    refine ⟨ttl, Zone.changeAll_keeps hchange hheld ?_⟩
    intro hdelete
    exact h.dead _ hdelete i rfl hreported (h.running i hi)

/-- What is read from a list comes from something in it. -/
theorem mem_read {α β : Type} {f : α → Option β} {y : β} : ∀ {xs : List α},
    y ∈ (xs.mapM f).getD [] → ∃ x ∈ xs, f x = some y
  | [], h => by simp at h
  | x :: xs, h => by
    rw [List.mapM_cons] at h
    cases hx : f x with
    | none => simp [hx] at h
    | some first =>
      cases hxs : xs.mapM f with
      | none => simp [hx, hxs] at h
      | some rest =>
        simp only [hx, hxs, Option.pure_def, Option.bind_eq_bind, Option.bind_some,
          Option.getD_some] at h
        rcases List.mem_cons.mp h with rfl | h
        · exact ⟨x, List.mem_cons_self, hx⟩
        · have hrest : y ∈ (xs.mapM f).getD [] := by
            rw [hxs]
            exact h
          obtain ⟨z, hz, hread⟩ := mem_read hrest
          exact ⟨z, List.mem_cons_of_mem x hz, hread⟩

/-- What the cleaning asks for is the deletion of a record for whose value a call has reported no
instance. -/
theorem found_dead {describe : Nat → Text → Outcome} {listed : List Listed} {c : Change}
    (h : c ∈ readFile (cleanRoute53 matching describe (listingText listed))) :
    ∃ n, (describe n c.value).reportsInstance = false := by
  obtain ⟨doc, hdoc, hread⟩ := mem_read h
  rw [← submitted, submitted_eq] at hdoc
  obtain ⟨⟨d, o⟩, hmem, rfl⟩ := List.mem_map.mp hdoc
  obtain ⟨hcall, hnone⟩ := List.mem_filter.mp hmem
  obtain ⟨n, rfl⟩ := mem_calls hcall
  have hchange : changeOfDoc (deleteDoc d.removal.aliasName d.ttl.text d.removal.hostname) =
      some (.delete (unrooted d.removal.aliasName) d.ttl.text d.removal.hostname) := by
    rw [deleteDoc, changeOfDoc, if_pos ⟨rfl, rfl⟩, changeOf, if_pos rfl]
  have heq := hchange.symm.trans hread
  cases heq
  exact ⟨n, (Bool.not_eq_true' _).mp hnone⟩

theorem alive_append (first : List Text) (events : List Event) (e : Event) :
    alive first (events ++ [e]) =
      match e with
      | .launch ec2Name => ec2Name :: alive first events
      | .terminate ec2Name => (alive first events).filter (· ≠ ec2Name)
      | _ => alive first events := by
  rw [alive, List.foldl_append]
  rfl

/-! ### One event -/

section Events

variable {first : List Text} {events : List Event} {w : World} (h : Kept first events w)
include h

theorem Kept.launched {ec2Name : Text} (fresh : ∀ c ∈ w.found, c.value ≠ ec2Name) :
    Kept first (events ++ [.launch ec2Name]) { w with running := ec2Name :: w.running } where
  named := fun i hi halone hreported => h.named i hi halone.before hreported.before
  running := fun i hi => List.mem_cons_of_mem _ (h.running i hi)
  alive := by rw [alive_append, h.alive]
  dead := by
    intro c hc i hvalue hreported hrunning
    rcases List.mem_cons.mp hrunning with heq | hrunning
    · exact fresh c hc heq
    · exact h.dead c hc i hvalue hreported.before hrunning
  asked := fun _ _ ha => h.asked_longer _ ha

theorem Kept.terminated (ec2Name : Text) : Kept first (events ++ [.terminate ec2Name])
    { w with
      running := w.running.filter (· ≠ ec2Name)
      succeeded := w.succeeded.filter fun i => i.ec2Name.text ≠ ec2Name } where
  named := fun i hi halone hreported =>
    h.named i (List.mem_of_mem_filter hi) halone.before hreported.before
  running := by
    intro i hi
    obtain ⟨hi, hne⟩ := List.mem_filter.mp hi
    exact List.mem_filter.mpr ⟨h.running i hi, by simpa using hne⟩
  alive := by rw [alive_append, h.alive]
  dead := fun c hc i hvalue hreported hrunning =>
    h.dead c hc i hvalue hreported.before (List.mem_of_mem_filter hrunning)
  asked := fun _ _ ha => h.asked_longer _ ha

/-- A run that asks is told what the zone holds, and has succeeded if that is the alias. -/
theorem Kept.answered {i : Instance} {held : Option (Lifetime × Hostname)}
    (hz : w.zone.Holds i.fqdn held) {update : Update}
    (hupdate : update = if held.map (fun r => r.2.text) = some i.ec2Name.text then .unchanged
      else .posted (request i.fqdn held i.ec2Name)) (run : Nat) :
    Kept first (events ++ [.ask run i])
      ((w.setAsked run (some ⟨i, update⟩)).succeed i (decide (update = .unchanged))) := by
  have hposted : IsPosted ⟨i, update⟩ := by
    split at hupdate
    · exact Or.inl hupdate
    · rename_i hnot
      exact Or.inr ⟨held, hupdate, hnot⟩
  apply ((h.longer _ (alive_append _ _ _)).setAsked run _).succeed
  · intro hunchanged
    rw [decide_eq_true_iff, hupdate] at hunchanged
    split at hunchanged
    · rename_i halready
      obtain ⟨r, hr, hname⟩ := Option.map_eq_some_iff.mp halready
      refine ⟨r.1.text, ?_⟩
      show w.zone.cname i.fqdn.text = _
      rw [show w.zone.cname i.fqdn.text = _ from hz, hr, Option.map_some, hname]
    · cases hunchanged
  · intro b hb
    cases hb
    exact ⟨hposted, run, by simp⟩

theorem Kept.posted {run : Nat} {a : Asked} (ha : w.asked run = some a) :
    Kept first (events ++ [.post run])
      (({ w with zone := s.receive w.zone a.update }.setAsked run none).succeed a.who
        (a.update.accepted w.zone)) := by
  obtain ⟨hposted, -⟩ := h.asked run a ha
  apply Kept.succeed
  · apply Kept.setAsked
    · exact (h.post s ha).longer _ (alive_append _ _ _)
    · simp
  · intro haccepted
    rcases receive_posted s hposted w.zone with ⟨-, hrefused⟩ | ⟨held, -, hchange⟩
    · rw [hrefused] at haccepted
      cases haccepted
    · refine ⟨newTTL, ?_⟩
      show (s.receive w.zone a.update).cname a.who.fqdn.text = _
      rw [changeAll_batch_eq hchange, Zone.set_same]

/-- EC2 reports an instance that is running, so the cleaning has not found it dead. -/
theorem Kept.searched (listed : List Listed) (describe : Nat → Text → Outcome) :
    Kept first (events ++ [.search listed describe])
      { w with found := readFile (cleanRoute53 matching describe (listingText listed)) } := by
  have hlonger := h.longer (.search listed describe) (alive_append _ _ _)
  exact {
    named := hlonger.named
    running := h.running
    alive := hlonger.alive
    dead := by
      intro c hc i hvalue hreported hrunning
      obtain ⟨n, hnone⟩ := found_dead matching hc
      have hreports := hreported events listed describe (List.prefix_refl _) (by
        rw [hvalue, ← h.alive]
        exact hrunning) n
      rw [hvalue, hnone] at hreports
      cases hreports
    asked := hlonger.asked }

theorem Kept.cleaned : Kept first (events ++ [.clean])
    { w with zone := s.submit w.zone w.found, found := [] } := by
  have hclean := (h.clean s).longer .clean (alive_append _ _ _)
  exact {
    named := hclean.named
    running := h.running
    alive := hclean.alive
    dead := by simp
    asked := hclean.asked }

end Events

theorem Kept.step {first : List Text} {events : List Event} {w w' : World} {e : Event}
    (h : Kept first events w)
    (hstep : Step matching s w e w') : Kept first (events ++ [e]) w' := by
  cases hstep with
  | launch ec2Name fresh => exact h.launched fresh
  | terminate ec2Name => exact h.terminated ec2Name
  | @ask run i held authServer answer hserver hz hanswer update hupdate =>
    rw [updateCname_eq matching hserver hanswer] at hupdate
    exact h.answered hz hupdate run
  | @post run a ha => exact h.posted s ha
  | search listed describe => exact h.searched matching listed describe
  | clean => exact h.cleaned s

theorem system_kept {zone : Zone} {first : List Text} {events : List Event} {w : World}
    (run : (system matching s zone first).Reaches events w) : Kept first events w := by
  apply run.invariant
  · rintro w ⟨-, hrunning, hasked, hfound, hsucceeded⟩
    exact ⟨by simp [hsucceeded], by simp [hsucceeded], hrunning, by simp [hfound],
      by simp [hasked]⟩
  · intro events w e w' h hstep
    exact h.step matching s hstep

/-- **An instance that runs and has been told that its name is registered has its name**, whatever
the other runs and the cleaning have done since. -/
theorem stays_registered {zone : Zone} {first : List Text} {events : List Event} {w : World}
    (run : (system matching s zone first).Reaches events w) {i : Instance} (hi : i ∈ w.succeeded)
    (halone : Alone i events) (hreported : Reported first i events) :
    ∃ ttl, w.zone.cname i.fqdn.text = some (ttl, i.ec2Name.text) :=
  (system_kept matching s run).named i hi halone hreported

/-! ### One instance -/

def web : Instance := ⟨webName, newInstance⟩

/-- The instance runs and has asked. -/
def webAsked (changeset : Text) : World :=
  { zone := webZone
    running := [newInstance.text]
    asked := fun run => if run = 0 then some ⟨web, .posted changeset⟩ else none
    found := []
    succeeded := [] }

def webDone (changeset : Text) : World :=
  ({ webAsked changeset with zone := plainRoute53.receive webZone (.posted changeset) }.setAsked 0
    none).succeed web ((Update.posted changeset).accepted webZone)

def webRequest : Text := request webName (some (minute, oldInstance)) newInstance

theorem webRequest_posted : Update.posted webRequest = updateCname (fun _ => []) "ns".toList
    (Text.unlines (["; <<>> DiG".toList] ++ webLine :: [])) webName.text newInstance.text := by
  rw [updateCname_eq _ (by decide) webAnswer, if_neg (by decide), webRequest]

theorem web_asked {changeset : Text} (h : Update.posted changeset = updateCname (fun _ => [])
    "ns".toList (Text.unlines (["; <<>> DiG".toList] ++ webLine :: [])) webName.text
    newInstance.text) :
    (system (fun _ => []) plainRoute53 webZone []).Reaches
      [.launch newInstance.text, .ask 0 web] (webAsked changeset) := by
  have hstart : (system (fun _ => []) plainRoute53 webZone []).Reaches []
      ⟨webZone, [], fun _ => none, [], []⟩ := .start ⟨rfl, rfl, fun _ => rfl, rfl, rfl⟩
  have hposts : decide (Update.posted changeset = .unchanged) = false := decide_eq_false (by simp)
  have hask := (hstart.step (Step.launch newInstance.text (by simp))).step
    (Step.ask 0 web (by decide) webZone_holds webAnswer h)
  rw [hposts] at hask
  exact hask

theorem web_posts (changeset : Text) :
    Step (fun _ => []) plainRoute53 (webAsked changeset) (.post 0) (webDone changeset) := by
  have hpost : (webAsked changeset).asked 0 = some ⟨web, .posted changeset⟩ := by
    dsimp only [webAsked]
    rw [if_pos rfl]
  exact Step.post 0 hpost

theorem webRequest_accepted : (Update.posted webRequest).accepted webZone = true := by
  have hread := request_read webName (some (minute, oldInstance)) newInstance
  have hchange := changeAll_batch webZone_holds rfl newInstance
  simp only [Update.accepted, webRequest, hread, Option.any_some, hchange, Option.isSome_some]

/-- EC2 reports the new instance and no other. -/
def webDescribe (_ : Nat) (name : Text) : Outcome :=
  ⟨true, if name = newInstance.text then "INSTANCES\n".toList else []⟩

/-- The cleaning has gone through a listing. -/
def World.cleaned (w : World) (listed : List Listed) (describe : Nat → Text → Outcome) : World :=
  { w with
    zone := plainRoute53.submit w.zone
      (readFile (cleanRoute53 (fun _ => []) describe (listingText listed)))
    found := [] }

theorem reaches_cleaned {events : List Event} {w : World}
    (run : (system (fun _ => []) plainRoute53 webZone []).Reaches events w) (listed : List Listed)
    (describe : Nat → Text → Outcome) : (system (fun _ => []) plainRoute53 webZone []).Reaches
      (events ++ [.search listed describe] ++ [.clean]) (w.cleaned listed describe) :=
  (run.step (Step.search listed describe)).step Step.clean

def webEvents : List Event :=
  [.launch newInstance.text, .ask 0 web, .post 0] ++ [.search [.cname webRecord] webDescribe] ++
    [.clean]

theorem web_run : (system (fun _ => []) plainRoute53 webZone []).Reaches webEvents
    ((webDone webRequest).cleaned [.cname webRecord] webDescribe) :=
  reaches_cleaned ((web_asked webRequest_posted).step (web_posts webRequest)) _ _

theorem webEvents_alone : Alone web webEvents := by
  intro run other hask _
  simp only [webEvents, List.mem_append, List.mem_cons, List.not_mem_nil, or_false, reduceCtorEq,
    false_or] at hask
  injection hask

theorem webEvents_reported : Reported [] web webEvents := by
  intro before listed describe hpart _ n
  have hmem := hpart.subset (List.mem_append_right before (List.mem_singleton_self _))
  simp only [webEvents, List.mem_append, List.mem_cons, List.not_mem_nil, or_false, reduceCtorEq,
    false_or] at hmem
  injection hmem with _ hdescribe
  subst hdescribe
  dsimp only [webDescribe, web]
  rw [if_pos rfl]
  decide

theorem stays_registered_web :
    ∃ ttl, ((webDone webRequest).cleaned [.cname webRecord] webDescribe).zone.cname web.fqdn.text =
      some (ttl, web.ec2Name.text) := by
  have hsucceeded : web ∈ (webDone webRequest).succeeded :=
    mem_succeed.mpr (Or.inr ⟨rfl, webRequest_accepted, List.mem_singleton_self _⟩)
  have hcleaned : ∀ (w : World) listed describe, web ∈ w.succeeded →
      web ∈ (w.cleaned listed describe).succeeded := fun _ _ _ h => h
  exact stays_registered (fun _ => []) plainRoute53 web_run (hcleaned _ _ _ hsucceeded)
    webEvents_alone webEvents_reported

/-! ## Without the cleaning -/

theorem Kept.name_kept {first : List Text} {events : List Event} {w w' : World} {e : Event}
    (h : Kept first events w) (hstep : Step matching s w e w') (hclean : e ≠ .clean) {name : Text}
    (hname : (w.zone.cname name).isSome) : (w'.zone.cname name).isSome := by
  cases hstep with
  | launch ec2Name fresh => exact hname
  | terminate ec2Name => exact hname
  | ask run i hserver hz hanswer hupdate =>
    rw [succeed_zone]
    exact hname
  | search listed describe => exact hname
  | clean => exact absurd rfl hclean
  | post run ha =>
    rw [succeed_zone]
    show ((s.receive w.zone _).cname name).isSome
    rcases receive_posted s (h.asked _ _ ha).1 w.zone with ⟨hsame, -⟩ | ⟨held, -, hchange⟩
    · rw [hsame]
      exact hname
    · rw [changeAll_batch_eq hchange]
      dsimp only [Zone.set]
      split
      · rfl
      · exact hname

/-- **Registering never leaves a name without a record**: one that has a record in some state has
one in every later state, whatever the order in which the runs ask and post. -/
theorem names_kept {zone : Zone} {first : List Text} {events more : List Event} {w w' : World}
    (run : (system matching s zone first).Reaches events w)
    (later : (system matching s zone first).Steps w more w') (hclean : .clean ∉ more) (name : Text)
    (hname : (w.zone.cname name).isSome) : (w'.zone.cname name).isSome := by
  induction later generalizing events with
  | nil => exact hname
  | @cons w v w' e more hstep _ ih =>
    rw [List.mem_cons, not_or] at hclean
    have hkept := (system_kept matching s run).name_kept matching s hstep (Ne.symm hclean.1) hname
    exact ih (run.step hstep) hclean.2 hkept

theorem names_kept_web : ((webDone webRequest).zone.cname webName.text).isSome := by
  have hname : ((webAsked webRequest).zone.cname webName.text).isSome := by
    rw [show (webAsked webRequest).zone.cname webName.text = _ from webZone_holds]
    rfl
  exact names_kept (fun _ => []) plainRoute53 (web_asked webRequest_posted)
    (.cons (web_posts webRequest) .nil) (by simp) webName.text hname

end Dns
end TdsAdmin
