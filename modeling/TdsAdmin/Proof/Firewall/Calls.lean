import TdsAdmin.Firewall.Provision

/-!
# What an unknown protocol opens

`$port` is a global variable, and the last branch of the `case` only prints a message. So what a
call opens is a matter of the calls before it. The loop of `create_instance.sh` is taken apart
into the sequence of its calls, which does not depend on `$port`, and the run of that sequence,
which does (`openPorts_eq_run`). The run is right as long as no port has been set, and from then on
as long as every call sets its own (`run_opens_own`).

A call that finds `$port` unset asks for nothing: the command then has a `--port` without a
number, which is refused.
-/

set_option autoImplicit false

namespace TdsAdmin
namespace Firewall
namespace CreateInstance

/-! ## The sequence of the calls -/

/-- The arguments of a call, cut into words. -/
def callArgs (s : Settings) (ifs : Char) (server t : Text) : List Text :=
  Fields.words ifs s.sgName.text ++ Fields.words ifs t ++ Fields.words ifs (remoteServer s server)

/-- The calls that the loop makes, each with its cell. -/
def calls (s : Settings) (ifs : Char) (servers : List Text) :
    Nat → List Text → List (Text × List Text)
  | _, [] => []
  | i, t :: rest =>
      if t = [] then calls s ifs servers (i + 1) rest
      else match servers[i]? with
        | none => calls s ifs servers (i + 1) rest
        | some server =>
            if '/' ∈ t then [] else (t, callArgs s ifs server t) :: calls s ifs servers (i + 1) rest

/-- The calls for a role. -/
def callsOf (s : Settings) (groupFound : Bool) (ec2Role : Text) (file : Text) :
    List (Text × List Text) :=
  calls s (if groupFound then '\t' else '\n') (Fields.readArray ',' ((firewall file).headD [])) 2
    ((openPortsOf ec2Role (firewall file)).drop 2)

/-- One call after the other. -/
def run : Option Nat → List (Text × List Text) → List (Text × Request)
  | _, [] => []
  | port, (t, args) :: rest =>
      let (request, port) := addSecurityGroupIngress port args
      (t, request) :: run port rest

theorem openPorts_eq_run {s : Settings} {ifs : Char} {servers : List Text} :
    ∀ (port : Option Nat) (i : Nat) (cells : List Text),
      openPorts s ifs servers port i cells = run port (calls s ifs servers i cells)
  | _, _, [] => rfl
  | port, i, t :: rest => by
    have ih := fun port => @openPorts_eq_run s ifs servers port (i + 1) rest
    rw [openPorts, calls]
    by_cases ht : t = []
    · rw [if_pos ht, if_pos ht]
      exact ih port
    · rw [if_neg ht, if_neg ht]
      cases servers[i]? with
      | none => exact ih port
      | some server =>
        by_cases hslash : '/' ∈ t
        · dsimp only
          rw [if_pos hslash, if_pos hslash]
          rfl
        · dsimp only
          rw [if_neg hslash, if_neg hslash, ih]
          rfl

theorem rules_eq_run (s : Settings) (groupFound : Bool) (ec2Role file : Text) :
    rules s groupFound ec2Role file = run none (callsOf s groupFound ec2Role file) :=
  openPorts_eq_run _ _ _

/-! ## The port of a call -/

/-- A command that is sent opens the port of the protocol it was called with. -/
def OpensOwn (q : Request) : Prop := ∀ port, q.port = some port → portOf q.protocol = some port

/-- The protocol of the call is one of the names in the `case`. -/
def KnownCall (call : Text × List Text) : Prop := (portOf (call.2.getD 1 [])).isSome = true

theorem known_call_opens {port : Option Nat} {call : Text × List Text} (h : KnownCall call) :
    OpensOwn (addSecurityGroupIngress port call.2).1 ∧
      (addSecurityGroupIngress port call.2).2.isSome = true := by
  obtain ⟨own, hown⟩ := Option.isSome_iff_exists.mp h
  have hset : setPort port (call.2.getD 1 []) = some own := by
    rw [setPort, hown]
    rfl
  constructor
  · intro p hp
    change setPort port (call.2.getD 1 []) = some p at hp
    change portOf (call.2.getD 1 []) = some p
    rw [hown, ← hset, hp]
  · change (setPort port (call.2.getD 1 [])).isSome = true
    rw [hset]
    rfl

/-- An unknown protocol leaves the port alone, and opens it when there is one. -/
theorem unknown_call_opens {port : Option Nat} {call : Text × List Text} (h : ¬ KnownCall call) :
    (OpensOwn (addSecurityGroupIngress port call.2).1 ↔ port = none) ∧
      (addSecurityGroupIngress port call.2).2 = port := by
  have hnone : portOf (call.2.getD 1 []) = none := Option.not_isSome_iff_eq_none.mp h
  have hset : setPort port (call.2.getD 1 []) = port := by
    rw [setPort, hnone]
    rfl
  refine ⟨?_, hset⟩
  change (∀ p, setPort port (call.2.getD 1 []) = some p → portOf (call.2.getD 1 []) = some p) ↔ _
  rw [hset, hnone]
  cases port with
  | none => simp
  | some p => simp

/-- **A run opens what its calls name as long as no unknown protocol comes after a known one.** -/
theorem run_opens_own : ∀ (calls : List (Text × List Text)) (port : Option Nat),
    (∀ x ∈ run port calls, OpensOwn x.2) ↔
      (port.isSome = true → ∀ call ∈ calls, KnownCall call) ∧
        calls.Pairwise fun a b => KnownCall a → KnownCall b
  | [], port => by simp [run]
  | (t, args) :: rest, port => by
    have ih := run_opens_own rest (addSecurityGroupIngress port args).2
    have hstep : (∀ x ∈ run port ((t, args) :: rest), OpensOwn x.2) ↔
        OpensOwn (addSecurityGroupIngress port args).1 ∧
          ∀ x ∈ run (addSecurityGroupIngress port args).2 rest, OpensOwn x.2 := by
      rw [run]
      exact List.forall_mem_cons
    rw [hstep, ih, List.pairwise_cons, List.forall_mem_cons]
    by_cases hknown : KnownCall (t, args)
    · obtain ⟨hopens, hport⟩ := @known_call_opens port _ hknown
      constructor
      · rintro ⟨-, hrest, hpairs⟩
        exact ⟨fun _ => ⟨hknown, hrest hport⟩, fun call hcall _ => hrest hport call hcall, hpairs⟩
      · rintro ⟨-, hrest, hpairs⟩
        exact ⟨hopens, fun _ call hcall => hrest call hcall hknown, hpairs⟩
    · obtain ⟨hopens, hport⟩ := @unknown_call_opens port _ hknown
      rw [hopens, hport]
      constructor
      · rintro ⟨rfl, -, hpairs⟩
        exact ⟨fun h => absurd h (by decide), fun _ _ h => absurd h hknown, hpairs⟩
      · rintro ⟨hport', -, hpairs⟩
        cases port with
        | none => exact ⟨rfl, fun h => absurd h (by decide), hpairs⟩
        | some p => exact absurd (hport' rfl).1 hknown

/-- **Every rule opens the port of its own protocol exactly when, along the row, no unknown
protocol comes after a known one.** -/
theorem opens_own_iff (s : Settings) (groupFound : Bool) (ec2Role file : Text) :
    (∀ x ∈ rules s groupFound ec2Role file, OpensOwn x.2) ↔
      (callsOf s groupFound ec2Role file).Pairwise fun a b => KnownCall a → KnownCall b := by
  rw [rules_eq_run, run_opens_own]
  exact and_iff_right fun h => absurd h (by decide)

/-- Two servers, and a protocol in the wrong case after one in the right case. -/
def misspelt : Text :=
  "1\n2\n3\n4\n5\n".toList ++ "Prefix,,cs,ssh\n".toList ++ "web,Web server,HTTPS,Ssh\n".toList

/-- The misspelt protocol opens the port of the one before it. -/
theorem misspelt_protocol_opens : ¬ ∀ (s : Settings) (groupFound : Bool) (ec2Role file : Text),
    ∀ x ∈ rules s groupFound ec2Role file, OpensOwn x.2 := by
  intro h
  have hport : (rules ⟨⟨"sg".toList, by decide⟩, ⟨"dev".toList, by decide⟩,
      ⟨"org".toList, by decide⟩⟩ false "web".toList misspelt).map
        (fun x => (x.2.protocol, x.2.port)) =
      [("HTTPS".toList, some 443), ("Ssh".toList, some 443)] := by decide +kernel
  obtain ⟨x, hx, hpair⟩ :=
    List.mem_map.mp (hport ▸ List.mem_cons_of_mem _ (List.mem_singleton_self _))
  have hown := h _ _ _ _ x hx 443 (congrArg Prod.snd hpair)
  have hprotocol : x.2.protocol = "Ssh".toList := congrArg Prod.fst hpair
  rw [hprotocol] at hown
  exact absurd hown (by decide)

end CreateInstance
end Firewall
end TdsAdmin
