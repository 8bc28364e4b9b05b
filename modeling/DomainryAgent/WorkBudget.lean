import Mathlib.Algebra.Order.BigOperators.Group.List
import Mathlib.Algebra.Order.Group.Nat
import DomainryAgent.PlanIntegrity
import DomainryAgent.WorkMeter

/-!
The work of a root conversation against its budget: what is used and reserved
stays within it, ledgers are conserved, and what the budget says about what
calls really consume.
-/

namespace DomainryAgent

open Lib Protocol Refinement

variable {m : Meter}

/-! ### The budget of a root -/

/-- Work budgets are safe: under every interleaving in which a completion has its
reservation, what a root used and what is reserved under it stay within its
budget. -/
theorem usage_and_reservations_within_budget (reached : Meter.ReachableBy Meter.may m)
    {root : LedgerKey} {ledger : WorkLedger} (stored : m.db.ledgers.get? root = some ledger)
    (dim : Dimension) :
    dim.used ledger.usage + dim.held ledger ≤ dim.cap ledger.budget :=
  (reached.safe.budgeted root ledger stored).within dim

/-- What a check of `may` needs to see. -/
def Meter.check (m : Meter) : Op → Bool
  | .completeExecutionStep claim number _ => (claim.runID, claim.fence, number) ∈ m.reserved
  | _ => true

theorem Meter.may_of_check (m : Meter) (op : Op) (passes : m.check op = true) : m.may op := by
  cases op with
  | completeExecutionStep => exact fun _ _ _ => of_decide_eq_true passes
  | _ => trivial

def meterAfter (ops : List Op) : Meter := runActions Meter.step (.initial 0 none) ops

theorem reachable_meterAfter (ops : List Op)
    (passes : checkedActions Meter.step Meter.check (.initial 0 none) ops = true) :
    Meter.ReachableBy Meter.may (meterAfter ops) :=
  ⟨0, none, Reaches.checkedActions Meter.may_of_check .start ops passes⟩

/-- A delegation completes a step of its work and reserves the next. -/
def meteredDelegation : List Op :=
  launchedDelegation ++
    [.startWork delegatedClaim 0,
      .executionStep delegatedClaim 0
        { tools := [sampleTool], maxToolCalls := 4, maxParallelTools := 0, payload := 0 },
      .tick 5,
      .completeExecutionStep delegatedClaim 0
        { finishReason := .toolCalls, content := "", calls := [⟨30, 5, 0, 0⟩]
          usage := ⟨some 4, some 6, []⟩ },
      .reserveWork delegatedClaim 1 ⟨20, 20, 200⟩]

def sampleRoot : LedgerKey := ledgerKey 1 sampleUser

theorem metered_delegation_within_budget :
    ∃ ledger, (meterAfter meteredDelegation).db.ledgers.get? sampleRoot = some ledger ∧
      Dimension.input.used ledger.usage = 4 ∧ Dimension.input.held ledger = 20 ∧
      ∀ dim : Dimension, dim.used ledger.usage + dim.held ledger ≤ dim.cap ledger.budget := by
  obtain ⟨ledger, found, used, held⟩ : ∃ ledger,
      (meterAfter meteredDelegation).db.ledgers.get? sampleRoot = some ledger ∧
      Dimension.input.used ledger.usage = 4 ∧ Dimension.input.held ledger = 20 := by decide +kernel
  have reached := reachable_meterAfter meteredDelegation (by decide +kernel)
  exact ⟨ledger, found, used, held, usage_and_reservations_within_budget reached found⟩

/-- Ledgers are conserved: under any interleaving the usage of a root is what its
delegations used, field by field, and what was charged to it; and a reservation
that was started is outstanding or was settled, once. -/
theorem ledger_conserved (reached : Meter.ReachableBy (fun _ _ => True) m) :
    (∀ root ledger, m.db.ledgers.get? root = some ledger →
      ledger.usage = ledger.allocations.total (·.usage)) ∧
    (∀ root, usageAt m.db.toCore root = ((eventsAt m.log root).map WorkEvent.charge).sum) ∧
    ∀ root k fence, (eventsAt m.log root).countP (WorkEvent.starts k fence) =
      (eventsAt m.log root).countP (WorkEvent.settles k fence) +
        (outstanding (reservationsAt m.db.toCore root) k fence).toNat := by
  obtain ⟨now, limits, inv⟩ := reached.accounted
  refine ⟨inv.balanced, reached.usage, fun root k fence => ?_⟩
  have counts := inv.accounts.starts root k fence
  have none_yet : outstanding (reservationsAt (Db.initial now limits).toCore root) k fence =
      false := rfl
  rw [none_yet, Bool.toNat_false] at counts
  omega

theorem metered_delegation_conserved :
    (eventsAt (meterAfter meteredDelegation).log sampleRoot).countP
        (WorkEvent.starts (workReservationKey delegatedClaim 0) 1) = 1 ∧
      (∀ root ledger, (meterAfter meteredDelegation).db.ledgers.get? root = some ledger →
        ledger.usage = ledger.allocations.total (·.usage)) ∧
      ∀ root k fence, (eventsAt (meterAfter meteredDelegation).log root).countP
          (WorkEvent.starts k fence) =
        (eventsAt (meterAfter meteredDelegation).log root).countP (WorkEvent.settles k fence) +
          (outstanding (reservationsAt (meterAfter meteredDelegation).db.toCore root) k
            fence).toNat := by
  have reached : Meter.ReachableBy (fun _ _ => True) (meterAfter meteredDelegation) :=
    ⟨0, none, Reaches.start.runActions meteredDelegation fun _ _ _ => trivial⟩
  obtain ⟨balanced, _, settled⟩ := ledger_conserved reached
  exact ⟨by decide +kernel, balanced, settled⟩

/-! ### What calls consume -/

/-- The reservations under which calls were started, one for each call. -/
def startedCalls (log : List (LedgerKey × WorkEvent)) (root : LedgerKey) :
    List WorkReservationRow :=
  (eventsAt log root).filterMap fun
    | .started item => some item
    | .settled .. => none

def WorkEvent.completion : WorkEvent → Option WorkUsage
  | .settled _ .completed amount => some amount
  | _ => none

/-- What the completed calls of a root were charged. -/
def completedCharges (log : List (LedgerKey × WorkEvent)) (root : LedgerKey) : List WorkUsage :=
  (eventsAt log root).filterMap WorkEvent.completion

/-- A started call is given up, and another one takes the whole budget again. -/
def releasedCall : List Op :=
  launchedDelegation ++
    [.reserveWork delegatedClaim 1 ⟨16 * 1024 * 1024 - 10, 10, 100⟩, .startWork delegatedClaim 1,
      .releaseWork delegatedClaim 1,
      .reserveWork delegatedClaim 2 ⟨16 * 1024 * 1024 - 10, 10, 100⟩, .startWork delegatedClaim 2]

/-- A released call is not charged its tokens, so the calls a root started can
consume more than its budget within what they reserved. -/
theorem released_call_consumes_beyond_budget :
    ∃ m root ledger, ∃ consumed : List Nat, Meter.ReachableBy Meter.may m ∧
      m.db.ledgers.get? root = some ledger ∧
      List.Forall₂ (fun tokens item => tokens ≤ item.bounds.inputTokenUpperBound) consumed
        (startedCalls m.log root) ∧
      ledger.budget.maxInputTokens < consumed.sum := by
  obtain ⟨ledger, found, budget⟩ : ∃ ledger,
      (meterAfter releasedCall).db.ledgers.get? sampleRoot = some ledger ∧
      ledger.budget.maxInputTokens = 16 * 1024 * 1024 := by decide +kernel
  have started : (startedCalls (meterAfter releasedCall).log sampleRoot).map
      (·.bounds.inputTokenUpperBound) = [16 * 1024 * 1024 - 10, 16 * 1024 * 1024 - 10] := by
    decide +kernel
  refine ⟨_, sampleRoot, ledger,
    (startedCalls (meterAfter releasedCall).log sampleRoot).map (·.bounds.inputTokenUpperBound),
    reachable_meterAfter releasedCall (by decide +kernel), found, ?_, ?_⟩
  · rw [List.forall₂_map_left_iff]
    exact List.forall₂_same.mpr fun _ _ => le_rfl
  · rw [started, budget]
    decide

/-- Completions are charged among everything else. -/
theorem completions_le_charges (dim : Dimension) (events : List WorkEvent) :
    ((events.filterMap WorkEvent.completion).map dim.used).sum ≤
      dim.used (events.map WorkEvent.charge).sum := by
  induction events with
  | nil => exact Nat.zero_le _
  | cons event rest ih =>
    rw [List.map_cons, List.sum_cons, Dimension.used_add, List.filterMap_cons]
    split
    · exact ih.trans (Nat.le_add_left _ _)
    · next amount completed =>
      have charged : event.charge = amount := by
        unfold WorkEvent.completion at completed
        split at completed
        · exact Option.some.inj completed
        · cases completed
      rw [List.map_cons, List.sum_cons, charged]
      exact Nat.add_le_add_left ih _

/-- The budget of a root bounds what its calls consume, as far as it learns of
it: the completed calls, each within what it was charged, and the calls in
flight, each within what it reserved. -/
theorem known_consumption_within_budget (reached : Meter.ReachableBy Meter.may m)
    {root : LedgerKey} {ledger : WorkLedger} (stored : m.db.ledgers.get? root = some ledger)
    (dim : Dimension) {completed inFlight : List Nat}
    (charged : List.Forall₂ (fun tokens amount => tokens ≤ dim.used amount) completed
      (completedCharges m.log root))
    (reserved : List.Forall₂ (fun tokens item => tokens ≤ dim.bound item.bounds) inFlight
      (ledger.reservations.rows.filter (·.counted))) :
    completed.sum + inFlight.sum ≤ dim.cap ledger.budget := by
  have usage : ledger.usage = ((eventsAt m.log root).map WorkEvent.charge).sum := by
    rw [← reached.usage root]
    simp [usageAt, stored]
  have settled : completed.sum ≤ dim.used ledger.usage := by
    rw [usage]
    exact (List.forall₂_map_right_iff.mpr charged).sum_le_sum.trans (completions_le_charges dim _)
  have pending : inFlight.sum ≤ dim.held ledger :=
    (List.forall₂_map_right_iff.mpr reserved).sum_le_sum.trans
      ((List.filter_sublist.map _).sum_le_sum fun _ _ => Nat.zero_le _)
  have within := (reached.safe.budgeted root ledger stored).within dim
  omega

/-- A completed call and one in flight. -/
def callInFlight : List Op := meteredDelegation ++ [.startWork delegatedClaim 1]

theorem call_in_flight_within_budget :
    ∃ ledger, (meterAfter callInFlight).db.ledgers.get? sampleRoot = some ledger ∧
      [4].sum + [20].sum ≤ Dimension.input.cap ledger.budget := by
  obtain ⟨ledger, found, pending⟩ : ∃ ledger,
      (meterAfter callInFlight).db.ledgers.get? sampleRoot = some ledger ∧
      (ledger.reservations.rows.filter (·.counted)).map (·.bounds.inputTokenUpperBound) = [20] := by
    decide +kernel
  have done : (completedCharges (meterAfter callInFlight).log sampleRoot).map
      Dimension.input.used = [4] := by decide +kernel
  refine ⟨ledger, found, known_consumption_within_budget
    (reachable_meterAfter callInFlight (by decide +kernel)) found .input ?_ ?_⟩
  · rw [← done, List.forall₂_map_left_iff]
    exact List.forall₂_same.mpr fun _ _ => le_rfl
  · rw [← pending, List.forall₂_map_left_iff]
    exact List.forall₂_same.mpr fun _ _ => le_rfl

end DomainryAgent
