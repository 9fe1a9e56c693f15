import TdsAdmin.Proof.Autoscale.Pool

/-!
# What becomes of a message

A message is deleted after it has been dealt with and not before, so none is lost, whenever the
script ends and is started again (`none_lost`). The price is that a message may be dealt with
twice, when the script ends between the edit and the deletion: a server is then in the file twice.

A message that cannot be dealt with is never deleted either. As long as EC2 does not know the
instance all that the script can do with the message is to die, with the file as it was and the
message still in the queue, and it is there again when the script is started (`unknown_kept`).
-/

set_option autoImplicit false

namespace TdsAdmin
namespace Autoscale

/-- The messages that have been dealt with, in their order. -/
def dealt (events : List Event) : List Message :=
  events.filterMap fun
    | .act m _ => some m
    | .discard m => some m
    | _ => none

@[simp] theorem dealt_append (events more : List Event) :
    dealt (events ++ more) = dealt events ++ dealt more := List.filterMap_append

@[simp] theorem dealt_act (m : Message) (ec2 : Ec2) : dealt [.act m ec2] = [m] := rfl

@[simp] theorem dealt_discard (m : Message) : dealt [.discard m] = [m] := rfl

@[simp] theorem dealt_publish (m : Message) : dealt [.publish m] = [] := rfl

@[simp] theorem dealt_receive (m : Message) : dealt [.receive m] = [] := rfl

@[simp] theorem dealt_delete (m : Message) : dealt [.delete m] = [] := rfl

@[simp] theorem dealt_die (m : Message) (ec2 : Ec2) : dealt [.die m ec2] = [] := rfl

@[simp] theorem dealt_crash : dealt [.crash] = [] := rfl

/-! ## None is lost -/

/-- What is not in the queue has been dealt with. -/
structure Safe (events : List Event) (w : World) : Prop where
  kept : ∀ m ∈ w.published, m ∈ w.queue ∨ m ∈ dealt events
  acted : ∀ m, w.phase = .acted m → m ∈ dealt events

theorem Safe.taken {events : List Event} {w : World} (h : Safe events w) {m : Message}
    (hm : m ∈ dealt events) :
    ∀ other ∈ w.published, other ∈ w.queue.filter (· ≠ m) ∨ other ∈ dealt events := by
  intro other hother
  by_cases heq : other = m
  · rw [heq]
    exact Or.inr hm
  · simpa [heq] using h.kept other hother

theorem Safe.step {numeric : Odometer.Numeric} {events : List Event} {w w' : World} {e : Event}
    (h : Safe events w) (hstep : Step numeric w e w') : Safe (events ++ [e]) w' := by
  cases hstep with
  | publish m fresh =>
    refine ⟨?_, by simpa using h.acted⟩
    intro other hother
    rcases List.mem_append.mp hother with hother | hother
    · rcases h.kept other hother with hq | hd
      · exact Or.inl (List.mem_append_left _ hq)
      · exact Or.inr (by simpa using hd)
    · exact Or.inl (List.mem_append_right _ hother)
  | receive m hm hw => exact ⟨by simpa using h.kept, by simp⟩
  | discard m hw hact =>
    have hsafe : Safe (events ++ [.discard m]) w := by
      refine ⟨fun other hother => ?_, fun other hother => ?_⟩
      · exact (h.kept other hother).imp_right fun hd => by simp [hd]
      · simp [h.acted other hother]
    exact ⟨hsafe.taken (by simp), by simp⟩
  | act m ec2 hw hedit =>
    refine ⟨fun other hother => ?_, by simp⟩
    exact (h.kept other hother).imp_right fun hd => by simp [hd]
  | die m ec2 hw hdied => exact ⟨by simpa using h.kept, by simp⟩
  | delete m hw =>
    refine ⟨?_, by simp⟩
    simpa using h.taken (h.acted m hw)
  | crash => exact ⟨by simpa using h.kept, by simp⟩

theorem safe_of_run {numeric : Odometer.Numeric} {file : Text} {events : List Event} {w : World}
    (run : (system numeric file).Reaches events w) : Safe events w := by
  apply run.invariant
  · intro s hs
    refine ⟨fun m hm => Or.inl ?_, by simp [hs.2.2.1]⟩
    rw [← hs.1]
    exact hm
  · intro events s e t h hstep
    exact h.step hstep

/-- **No message is lost**, however the group, the queue and the script take their turns and
wherever the script ends. -/
theorem none_lost (numeric : Odometer.Numeric) (file : Text) {events : List Event} {w : World}
    (run : (system numeric file).Reaches events w) :
    ∀ m ∈ w.published, m ∈ w.queue ∨ m ∈ dealt events := (safe_of_run run).kept

/-- The first message has been deleted, and with the second one the script was ended. -/
theorem none_lost_run :
    (firstLaunch ∈ [firstEnd] ∨ firstLaunch ∈ dealt runEvents) ∧
      (secondLaunch ∈ [firstEnd] ∨ secondLaunch ∈ dealt runEvents) ∧
      (firstEnd ∈ [firstEnd] ∨ firstEnd ∈ dealt runEvents) := by
  have hkept := none_lost afterNone blank.text run_reaches
  exact ⟨hkept firstLaunch (by simp [runWorld]), hkept secondLaunch (by simp [runWorld]),
    hkept firstEnd (by simp [runWorld])⟩

/-! ## The one that EC2 does not know -/

/-- The answer that EC2 gives in an event, if it is asked. -/
def Event.answer : Event → Option Ec2
  | .act _ ec2 => some ec2
  | .die _ ec2 => some ec2
  | _ => none

/-- Whenever it is asked, EC2 does not know the instance. -/
def Unknown (id : Text) (events : List Event) : Prop :=
  ∀ e ∈ events, ∀ ec2, e.answer = some ec2 → ec2.describe id = none

theorem Unknown.before {id : Text} {events more : List Event} (h : Unknown id (events ++ more)) :
    Unknown id events := fun e he => h e (List.mem_append_left more he)

theorem Unknown.append {id : Text} {events more : List Event} (h : Unknown id events)
    (hmore : Unknown id more) : Unknown id (events ++ more) := by
  intro e he
  exact (List.mem_append.mp he).elim (h e) (hmore e)

theorem Unknown.last {id : Text} {events : List Event} {e : Event}
    (h : Unknown id (events ++ [e])) {ec2 : Ec2} (he : e.answer = some ec2) :
    ec2.describe id = none := h e (List.mem_append_right events (List.mem_singleton.mpr rfl)) ec2 he

section Unknown

variable {numeric : Odometer.Numeric} {m : Message} {action : Action} {id : Text}

theorem handle_unknown (hact : actionOf m.body = some (action, id)) {ec2 : Ec2}
    (hnone : ec2.describe id = none) (file : Text) : handle numeric ec2 file m.body = .died := by
  simp [handle, hact, hnone]

/-- A step deals with a message only when EC2 knows its instance. -/
theorem not_dealt_step (hact : actionOf m.body = some (action, id)) {w w' : World} {e : Event}
    (hstep : Step numeric w e w') (hunknown : ∀ ec2, e.answer = some ec2 → ec2.describe id = none) :
    m ∉ dealt [e] := by
  cases hstep with
  | publish other fresh => simp
  | receive other hother hw => simp
  | die other ec2 hw hdied => simp
  | delete other hw => simp
  | crash => simp
  | discard other hw hnone =>
    rw [dealt_discard, List.mem_singleton]
    intro heq
    rw [← heq, hact] at hnone
    cases hnone
  | act other ec2 hw hedit =>
    rw [dealt_act, List.mem_singleton]
    intro heq
    rw [← heq, handle_unknown hact (hunknown ec2 rfl)] at hedit
    cases hedit

/-- With the message at hand the script cannot but die. -/
theorem stuck_step (hact : actionOf m.body = some (action, id)) {w w' : World} {e : Event}
    (hstep : Step numeric w e w') (hw : w.phase = .received m)
    (hunknown : ∀ ec2, e.answer = some ec2 → ec2.describe id = none) :
    w'.file = w.file ∧ (w'.phase = .received m ∨ w'.phase = .waiting) := by
  cases hstep with
  | publish other fresh => exact ⟨rfl, Or.inl hw⟩
  | receive other hother hwait => exact ⟨rfl, Or.inr (by simp [hw] at hwait)⟩
  | die other ec2 hother hdied => exact ⟨rfl, Or.inr rfl⟩
  | delete other hacted => exact ⟨rfl, Or.inr rfl⟩
  | crash => exact ⟨rfl, Or.inr rfl⟩
  | discard other hother hnone => exact ⟨rfl, Or.inr rfl⟩
  -- EC2 does not know the instance, so there is no edit
  | act other ec2 hother hedit =>
    rw [hw] at hother
    cases hother
    rw [handle_unknown hact (hunknown ec2 rfl)] at hedit
    cases hedit

theorem not_dealt (hact : actionOf m.body = some (action, id)) {file : Text} {events : List Event}
    {w : World} (run : (system numeric file).Reaches events w) :
    Unknown id events → m ∉ dealt events := by
  apply run.invariant (P := fun events _ => Unknown id events → m ∉ dealt events)
  · intro s _ _
    simp [dealt]
  · intro events s e t ih hstep hunknown
    rw [dealt_append, List.mem_append, not_or]
    exact ⟨ih hunknown.before, not_dealt_step hact hstep fun _ => hunknown.last⟩

/-- What was published stays so. -/
theorem published_step {w w' : World} {e : Event} (hstep : Step numeric w e w')
    (hm : m ∈ w.published) : m ∈ w'.published := by
  cases hstep with
  | publish other fresh => exact List.mem_append_left _ hm
  | _ => exact hm

end Unknown

/-- **A message about an instance that EC2 does not know is in the queue for ever**: it is never
dealt with, and while the script has it in hand nothing that can happen next changes the file. -/
theorem unknown_kept (numeric : Odometer.Numeric) (file : Text) {events : List Event} {w : World}
    (run : (system numeric file).Reaches events w) {m : Message} (hm : m ∈ w.published)
    {action : Action} {id : Text} (hact : actionOf m.body = some (action, id))
    (hunknown : Unknown id events) :
    m ∈ w.queue ∧ m ∉ dealt events ∧
      ∀ e w', w.phase = .received m → Step numeric w e w' → Unknown id [e] →
        w'.file = w.file ∧ m ∈ w'.queue ∧ (w'.phase = .received m ∨ w'.phase = .waiting) := by
  have hqueue : ∀ {events w}, (system numeric file).Reaches events w → m ∈ w.published →
      Unknown id events → m ∈ w.queue := by
    intro events w run hm hunknown
    exact ((safe_of_run run).kept m hm).resolve_right (not_dealt hact run hunknown)
  refine ⟨hqueue run hm hunknown, not_dealt hact run hunknown, ?_⟩
  intro e w' hw hstep hnext
  have hasked : ∀ ec2, e.answer = some ec2 → ec2.describe id = none :=
    hnext e (List.mem_singleton.mpr rfl)
  obtain ⟨hfile, hphase⟩ := stuck_step hact hstep hw hasked
  exact ⟨hfile, hqueue (run.step hstep) (published_step hstep hm) (hunknown.append hnext), hphase⟩

/-! ### A message that comes back -/

/-- An EC2 without instances. -/
def knowsNone : Ec2 := ⟨fun _ => none, by simp⟩

def stuckEvents : List Event :=
  [.publish firstLaunch, .receive firstLaunch, .die firstLaunch knowsNone, .receive firstLaunch]

def stuckWorld : World :=
  ⟨[firstLaunch], [firstLaunch], .received firstLaunch, blank.text⟩

theorem stuck_reaches : (system afterNone blank.text).Reaches stuckEvents stuckWorld := by
  have hdied : handle afterNone knowsNone blank.text firstLaunch.body = .died :=
    handle_unknown firstLaunch_action rfl blank.text
  have h := blank_start.step (Step.publish firstLaunch (by simp))
  have h := h.step (Step.receive firstLaunch (by simp) rfl)
  have h := h.step (Step.die firstLaunch knowsNone rfl hdied)
  exact h.step (Step.receive firstLaunch (by simp) rfl)

theorem unknown_kept_received : firstLaunch ∈ [firstLaunch] ∧ firstLaunch ∉ dealt stuckEvents ∧
    ∀ e w', Step afterNone stuckWorld e w' → Unknown firstId [e] →
      w'.file = blank.text ∧ firstLaunch ∈ w'.queue ∧
        (w'.phase = .received firstLaunch ∨ w'.phase = .waiting) := by
  have hunknown : Unknown firstId stuckEvents := by
    simp [Unknown, stuckEvents, Event.answer, knowsNone]
  obtain ⟨hqueue, hdealt, hnext⟩ := unknown_kept afterNone blank.text stuck_reaches
    (m := firstLaunch) (by decide) firstLaunch_action hunknown
  exact ⟨hqueue, hdealt, fun e w' => hnext e w' rfl⟩

end Autoscale
end TdsAdmin
