import DomainryAgent.Lib.Totals
import DomainryAgent.Protocol.Steps

/-!
The work ledgers: what is settled and what is still held back.

A reservation holds back its upper bounds until it is settled, and a settlement
charges no more than was held.  So a ledger stays within its budget
(`Budgeted`), and as every charge goes to one of the delegations below the root
too, their usage adds up to the root's (`Balanced`).
-/

namespace DomainryAgent

open Lib Table

instance : Add WorkUsage := ⟨WorkUsage.add⟩

instance : Zero WorkUsage := ⟨WorkUsage.zero⟩

instance : AddCommMonoid WorkUsage where
  add_assoc x y z := by
    change (x.add y).add z = x.add (y.add z)
    simp only [WorkUsage.add, Nat.add_assoc]
  zero_add x := by
    change WorkUsage.zero.add x = x
    simp only [WorkUsage.add, WorkUsage.zero, Nat.zero_add]
  add_zero x := by
    change x.add .zero = x
    simp only [WorkUsage.add, WorkUsage.zero, Nat.add_zero]
  add_comm x y := by
    change x.add y = y.add x
    simp only [WorkUsage.add, Nat.add_comm]
  nsmul := nsmulRec

namespace Protocol

variable {allowed : Hazard → Prop} {s t : Core}

/-! ### Dimensions of a budget -/

/-- What a budget limits. -/
inductive Dimension where
  | input
  | output
  | duration
  deriving DecidableEq

namespace Dimension

def used : Dimension → WorkUsage → Nat
  | input, usage => usage.inputTokens
  | output, usage => usage.outputTokens
  | duration, usage => usage.durationMillis

def bound : Dimension → WorkReservation → Nat
  | input, bounds => bounds.inputTokenUpperBound
  | output, bounds => bounds.maxOutputTokens
  | duration, bounds => bounds.maxDurationMillis

def cap : Dimension → WorkBudget → Nat
  | input, budget => budget.maxInputTokens
  | output, budget => budget.maxOutputTokens
  | duration, budget => budget.maxDurationSeconds * 1000

/-- What the reservations of a ledger hold back. -/
def held (dim : Dimension) (ledger : WorkLedger) : Nat :=
  ledger.reservations.total (fun item => dim.bound item.bounds)

@[simp] theorem used_add (dim : Dimension) (x y : WorkUsage) :
    dim.used (x + y) = dim.used x + dim.used y := by
  cases dim <;> rfl

end Dimension

/-! ### Charges -/

/-- The usage of the delegations below a root adds up to the root's. -/
def Balanced (ledger : WorkLedger) : Prop := ledger.usage = ledger.allocations.total (·.usage)

variable {ledger old new : WorkLedger} {k : ReservationKey} {item : WorkReservationRow}
  {P : WorkLedger → Prop} {now : Time} {items : List WorkReservationRow} {events : List WorkEvent}

theorem Balanced.charge (balanced : Balanced ledger) (delegationID : Id) (amount : WorkUsage) :
    Balanced (chargeLedger ledger delegationID amount) := by
  have allocated : ledger.allocations.amountAt (·.usage) delegationID =
      (workAllocation ledger delegationID).usage := by
    unfold Table.amountAt workAllocation
    cases ledger.allocations.get? delegationID <;> rfl
  have payee : (workAllocation ledger delegationID).delegationID = delegationID := by
    unfold workAllocation
    cases found : ledger.allocations.get? delegationID with
    | none => rfl
    | some allocation => exact key_of_get? found
  have before := ledger.allocations.total_erase (·.usage) delegationID
  unfold Balanced chargeLedger
  simp only [Table.total_upsert, payee]
  change ledger.usage + amount = _ + ((workAllocation ledger delegationID).usage + amount)
  rw [balanced, before, allocated, ← add_assoc]
  congr 1
  exact add_comm _ _

/-- A ledger that holds back what it may still be charged. -/
structure Budgeted (ledger : WorkLedger) : Prop where
  timed : ∀ k item, ledger.reservations.get? k = some item → 1 ≤ item.bounds.maxDurationMillis
  within : ∀ dim : Dimension, dim.used ledger.usage + dim.held ledger ≤ dim.cap ledger.budget

theorem held_erase (found : ledger.reservations.get? k = some item) (dim : Dimension) :
    dim.held ledger = dim.bound item.bounds +
      (ledger.reservations.erase k).total (fun item => dim.bound item.bounds) := by
  have split := ledger.reservations.total_erase (fun item => dim.bound item.bounds) k
  rwa [Table.amountAt_of_some found] at split

/-- Dropping a reservation and charging no more than it held. -/
theorem Budgeted.erase {next : WorkLedger} (budgeted : Budgeted ledger)
    (found : ledger.reservations.get? k = some item)
    (reservations : next.reservations = ledger.reservations.erase k)
    (budget : next.budget = ledger.budget)
    (charged : ∀ dim : Dimension, dim.used next.usage ≤ dim.used ledger.usage + dim.bound item.bounds) :
    Budgeted next := by
  constructor
  · intro l other there
    rw [reservations, get?_erase] at there
    split at there
    · cases there
    · exact budgeted.timed l other there
  · intro dim
    have within := budgeted.within dim
    have charged := charged dim
    rw [held_erase found dim] at within
    rw [Dimension.held, reservations, budget]
    omega

theorem Budgeted.settle (budgeted : Budgeted ledger)
    (found : ledger.reservations.get? k = some item) (delegationID : Id) {amount : WorkUsage}
    (fits : ∀ dim : Dimension, dim.used amount ≤ dim.bound item.bounds) :
    Budgeted (settleReservation ledger k delegationID amount) := by
  refine budgeted.erase found rfl rfl fun dim => ?_
  have charged : dim.used (settleReservation ledger k delegationID amount).usage =
      dim.used ledger.usage + dim.used amount := dim.used_add ledger.usage amount
  rw [charged]
  exact Nat.add_le_add_left (fits dim) _

/-! ### Abandoned reservations -/

theorem abandonedCharge_fits (now : Time) (timed : 1 ≤ item.bounds.maxDurationMillis)
    (dim : Dimension) : dim.used (abandonedCharge item now) ≤ dim.bound item.bounds := by
  unfold abandonedCharge
  split
  · cases dim with
    | input | output => exact Nat.zero_le _
    | duration =>
      change abandonedDuration item now ≤ item.bounds.maxDurationMillis
      unfold abandonedDuration
      rw [if_pos (by omega)]
      exact Nat.min_le_right _ _
  · cases dim <;> exact Nat.zero_le _

/-- A started reservation is settled when it is dropped, the others just go. -/
theorem dropReservation_eq (now : Time) (ledger : WorkLedger) (item : WorkReservationRow) :
    dropReservation now ledger item =
      if item.counted then
        settleReservation ledger item.key item.delegationID (abandonedCharge item now)
      else { ledger with reservations := ledger.reservations.erase item.key } := by
  unfold dropReservation settleAbandonedConversationWork settleReservation abandonedCharge
  split
  · rfl
  · rfl

theorem Balanced.drop (balanced : Balanced ledger) (now : Time) (item : WorkReservationRow) :
    Balanced (dropReservation now ledger item) := by
  rw [dropReservation_eq]
  split
  · exact balanced.charge item.delegationID _
  · exact balanced

theorem Budgeted.drop (budgeted : Budgeted ledger) (now : Time)
    (found : ledger.reservations.get? item.key = some item) :
    Budgeted (dropReservation now ledger item) := by
  rw [dropReservation_eq]
  split
  · exact budgeted.settle found item.delegationID
      (abandonedCharge_fits now (budgeted.timed _ _ found))
  · exact budgeted.erase found rfl rfl fun dim => Nat.le_add_right _ _

theorem reservations_drop (now : Time) (ledger : WorkLedger) (item : WorkReservationRow) :
    (dropReservation now ledger item).reservations = ledger.reservations.erase item.key := by
  rw [dropReservation_eq]
  split <;> rfl

/-- What holds of a ledger and survives each drop of a reservation it has, holds
after a list of them is dropped. -/
theorem foldl_drop
    (drop : ∀ ledger item, ledger.reservations.get? item.key = some item → P ledger →
      P (dropReservation now ledger item)) (distinct : (items.map (·.key)).Nodup)
    (there : ∀ item ∈ items, ledger.reservations.get? item.key = some item) (base : P ledger) :
    P (items.foldl (dropReservation now) ledger) := by
  induction items generalizing ledger with
  | nil => exact base
  | cons item rest ih =>
    rw [List.map_cons, List.nodup_cons] at distinct
    rw [List.foldl_cons]
    apply ih distinct.2
    · intro other member
      have apart : other.key ≠ item.key := fun same =>
        distinct.1 (same ▸ List.mem_map_of_mem member)
      rw [reservations_drop, get?_erase, if_neg apart]
      exact there other (List.mem_cons_of_mem _ member)
    · exact drop ledger item (there item List.mem_cons_self) base

theorem prune_induction
    (drop : ∀ ledger item, ledger.reservations.get? item.key = some item → P ledger →
      P (dropReservation s.now ledger item)) (base : P ledger) :
    P (pruneConversationWorkReservations s ledger) := by
  refine foldl_drop drop ?_ ?_ base
  · exact ledger.reservations.nodup.sublist (List.filter_sublist.map _)
  · intro item member
    exact get?_of_mem (List.mem_filter.mp member).1

theorem get?_foldl_drop : (items.foldl (dropReservation now) ledger).reservations.get? k =
      if k ∈ items.map (·.key) then none else ledger.reservations.get? k := by
  induction items generalizing ledger with
  | nil => simp
  | cons item rest ih =>
    rw [List.foldl_cons, ih, reservations_drop, get?_erase, List.map_cons]
    by_cases here : k = item.key
    · simp [here]
    · simp [here]

/-- Pruning drops what is abandoned and nothing else. -/
theorem get?_prune (ledger : WorkLedger) (k : ReservationKey) :
    (pruneConversationWorkReservations s ledger).reservations.get? k =
      (ledger.reservations.get? k).filter (fun item => !abandoned s item) := by
  unfold pruneConversationWorkReservations
  rw [get?_foldl_drop]
  cases found : ledger.reservations.get? k with
  | none => simp
  | some item =>
    have key : item.key = k := key_of_get? found
    by_cases gone : abandoned s item = true
    · have member : k ∈ (ledger.reservations.rows.filter (abandoned s)).map (·.key) :=
        List.mem_map.mpr ⟨item, List.mem_filter.mpr ⟨mem_of_get? found, gone⟩, key⟩
      rw [if_pos member]
      simp [Option.filter, gone]
    · have absent : k ∉ (ledger.reservations.rows.filter (abandoned s)).map (·.key) := by
        intro member
        obtain ⟨other, inside, same⟩ := List.mem_map.mp member
        obtain ⟨row, drops⟩ := List.mem_filter.mp inside
        have lookup := get?_of_mem row
        rw [same, found] at lookup
        cases lookup
        exact gone drops
      rw [if_neg absent]
      simp [Option.filter, gone]

/-! ### Ledgers over steps -/

/-- What a step does to the ledgers. -/
inductive LedgersStep (allowed : Hazard → Prop) (s : Core) : Table WorkLedger.key → Prop
  | same : LedgersStep allowed s s.ledgers
  | opened {ledger : WorkLedger} {grown : Table WorkLedger.key} (unused : ledger.usage = .zero)
      (free : ledger.reservations = .empty) (unallocated : ledger.allocations = .empty)
      (inserted : s.ledgers.insert? ledger = some grown) : LedgersStep allowed s grown
  | work {old new : WorkLedger} {events : List WorkEvent}
      (found : s.ledgers.get? old.key = some old) (work : LedgerWork allowed s old new events)
      (draws : (∃ delegations, new = { old with delegations := delegations }) ∨ allowed .draw) :
      LedgersStep allowed s (s.ledgers.put new)

theorem Step.ledgers (step : Step allowed s t) : LedgersStep allowed s t.ledgers := by
  cases step with
  | move move =>
    cases move with
    | openLedger unused free unallocated inserted => exact .opened unused free unallocated inserted
    | ledger found work draws => exact .work found work draws
    | _ => exact .same
  | _ => exact .same

/-- A property of fresh ledgers that all work keeps is kept by every step. -/
theorem LedgersStep.forall {ledgers : Table WorkLedger.key} (step : LedgersStep allowed s ledgers)
    (fresh : ∀ ledger : WorkLedger, ledger.usage = .zero → ledger.reservations = .empty →
      ledger.allocations = .empty → P ledger)
    (works : ∀ old new events, LedgerWork allowed s old new events → P old → P new)
    (before : ∀ k ledger, s.ledgers.get? k = some ledger → P ledger) :
    ∀ k ledger, ledgers.get? k = some ledger → P ledger := by
  intro k ledger found
  cases step with
  | same => exact before k ledger found
  | opened unused free unallocated inserted =>
    rcases get?_insert?_some inserted found with ⟨_, rfl⟩ | ⟨_, old⟩
    · exact fresh _ unused free unallocated
    · exact before k ledger old
  | @work old new events stored work draws =>
    rcases get?_put_some found with ⟨_, rfl, _⟩ | ⟨_, same⟩
    · exact works old _ events work (before _ _ stored)
    · exact before k ledger same

/-- What is settled under a root; nothing before its ledger is opened. -/
def usageAt (s : Core) (root : LedgerKey) : WorkUsage :=
  ((s.ledgers.get? root).map (·.usage)).getD .zero

/-- The reservations under a root. -/
def reservationsAt (s : Core) (root : LedgerKey) : Table WorkReservationRow.key :=
  ((s.ledgers.get? root).map (·.reservations)).getD .empty

/-- Without drawing, no step settles anything or touches a reservation. -/
theorem Step.undrawn (step : Step allowed s t) (undrawn : ¬allowed .draw) (root : LedgerKey) :
    usageAt t root = usageAt s root ∧ reservationsAt t root = reservationsAt s root := by
  have ledgers := step.ledgers
  unfold usageAt reservationsAt
  generalize t.ledgers = after at ledgers ⊢
  cases ledgers with
  | same => exact ⟨rfl, rfl⟩
  | @opened ledger _ unused free _ inserted =>
    obtain ⟨missing, lookup⟩ := get?_insert? inserted
    rw [lookup]
    by_cases here : root = ledger.key
    · rw [if_pos here, here, missing, Option.map_some, Option.map_some, unused, free]
      exact ⟨rfl, rfl⟩
    · rw [if_neg here]
      exact ⟨rfl, rfl⟩
  | @work old new _ found _ draws =>
    obtain ⟨delegations, rfl⟩ := draws.resolve_right undrawn
    rw [get?_put]
    by_cases here : root = old.key
    · rw [if_pos here, here, found]
      exact ⟨rfl, rfl⟩
    · rw [if_neg here]
      exact ⟨rfl, rfl⟩

theorem LedgerWork.balanced (work : LedgerWork allowed s old new events) (balanced : Balanced old) :
    Balanced new := by
  cases work with
  | join => exact balanced
  | reserve =>
    exact prune_induction (P := Balanced) (fun _ item _ held => held.drop s.now item) balanced
  | start =>
    apply Balanced.charge
    exact balanced
  | complete | unreserved => exact balanced.charge _ _
  | release => exact balanced.drop _ _

theorem Step.balanced (step : Step allowed s t)
    (before : ∀ k ledger, s.ledgers.get? k = some ledger → Balanced ledger) :
    ∀ k ledger, t.ledgers.get? k = some ledger → Balanced ledger := by
  refine step.ledgers.forall ?_ (fun _ _ _ work => work.balanced) before
  intro ledger unused _ unallocated
  rw [Balanced, unused, unallocated]
  rfl

/-! ### The budget -/

theorem Budgeted.fresh (unused : ledger.usage = .zero) (free : ledger.reservations = .empty) :
    Budgeted ledger := by
  constructor
  · intro k item found
    rw [free, get?_empty] at found
    cases found
  · intro dim
    rw [Dimension.held, unused, free, Table.total_empty]
    cases dim <;> exact Nat.zero_le _

theorem Budgeted.hold (budgeted : Budgeted ledger) (timed : 1 ≤ item.bounds.maxDurationMillis)
    (fits : ∀ dim : Dimension, dim.used ledger.usage +
      (ledger.reservations.erase item.key).total (fun item => dim.bound item.bounds) +
      dim.bound item.bounds ≤ dim.cap ledger.budget) : Budgeted (holdReservation ledger item) := by
  constructor
  · intro k other found
    simp only [holdReservation, get?_upsert] at found
    split at found
    · cases found
      exact timed
    · exact budgeted.timed k other found
  · intro dim
    have fits := fits dim
    have held : dim.held (holdReservation ledger item) =
        (ledger.reservations.erase item.key).total (fun item => dim.bound item.bounds) +
          dim.bound item.bounds := Table.total_upsert _ _ _
    rw [held]
    change dim.used ledger.usage + _ ≤ dim.cap ledger.budget
    omega

theorem Budgeted.start (budgeted : Budgeted ledger)
    (found : ledger.reservations.get? item.key = some item) (now : Time) (delegationID : Id) :
    Budgeted (chargeLedger (holdReservation ledger { item with counted := true, startedAt := now })
      delegationID ⟨0, 0, 0, 1, 0⟩) := by
  have held : Budgeted (holdReservation ledger { item with counted := true, startedAt := now }) := by
    have timed := budgeted.timed _ _ found
    refine budgeted.hold timed fun dim => ?_
    have within := budgeted.within dim
    rw [held_erase found dim] at within
    change _ + (ledger.reservations.erase item.key).total (fun item => dim.bound item.bounds) +
      dim.bound item.bounds ≤ _
    omega
  refine ⟨held.timed, fun dim => ?_⟩
  have within := held.within dim
  cases dim <;> exact within

theorem LedgerWork.budgeted (work : LedgerWork allowed s old new events)
    (reserved : ¬allowed .unreserved) (budgeted : Budgeted old) : Budgeted new := by
  cases work with
  | join => exact ⟨budgeted.timed, budgeted.within⟩
  | reserve _ _ positive _ fits =>
    have pruned : Budgeted (pruneConversationWorkReservations s old) :=
      prune_induction (fun _ _ found held => held.drop s.now found) budgeted
    refine pruned.hold positive fun dim => ?_
    obtain ⟨input, output, duration⟩ := fits
    cases dim with
    | input => exact input
    | output => exact output
    | duration => exact duration
  | start _ _ found => exact budgeted.start (get?_key found) _ _
  | complete _ _ found _ input output duration =>
    refine budgeted.settle found _ fun dim => ?_
    cases dim with
    | input => exact input
    | output => exact output
    | duration => exact duration
  | unreserved hazard => exact absurd hazard reserved
  | release _ _ found => exact budgeted.drop s.now (get?_key found)

theorem Step.budgeted (step : Step allowed s t) (reserved : ¬allowed .unreserved)
    (before : ∀ k ledger, s.ledgers.get? k = some ledger → Budgeted ledger) :
    ∀ k ledger, t.ledgers.get? k = some ledger → Budgeted ledger :=
  step.ledgers.forall (fun _ unused free _ => .fresh unused free)
    (fun _ _ _ work => work.budgeted reserved) before

/-! ### The events of a ledger -/

/-- What an event adds to the usage. -/
def WorkEvent.charge : WorkEvent → WorkUsage
  | .started _ => ⟨0, 0, 0, 1, 0⟩
  | .settled _ _ amount => amount

theorem usage_drop (now : Time) (ledger : WorkLedger) (item : WorkReservationRow) :
    (dropReservation now ledger item).usage = ledger.usage + abandonedCharge item now := by
  rw [dropReservation_eq]
  split
  · rfl
  · next uncounted =>
    rw [abandonedCharge, if_neg uncounted]
    exact (add_zero ledger.usage).symm

theorem usage_foldl_drop : (items.foldl (dropReservation now) ledger).usage =
      ledger.usage + (items.map (abandonedCharge · now)).sum := by
  induction items generalizing ledger with
  | nil => exact (add_zero ledger.usage).symm
  | cons item rest ih =>
    rw [List.foldl_cons, ih, usage_drop, List.map_cons, List.sum_cons, add_assoc]

theorem key_prune (ledger : WorkLedger) :
    (pruneConversationWorkReservations s ledger).key = ledger.key := by
  refine prune_induction (P := fun l => l.key = ledger.key) (fun l item _ same => ?_) rfl
  rw [dropReservation_eq]
  split <;> exact same

theorem LedgerWork.key (work : LedgerWork allowed s old new events) : new.key = old.key := by
  cases work with
  | join | start | complete | unreserved => rfl
  | reserve => exact key_prune old
  | release =>
    rw [dropReservation_eq]
    split <;> rfl

/-- Nothing is charged beside the events. -/
theorem LedgerWork.usage (work : LedgerWork allowed s old new events) :
    new.usage = old.usage + (events.map WorkEvent.charge).sum := by
  cases work with
  | join => exact (add_zero old.usage).symm
  | reserve =>
    have pruned : (pruneConversationWorkReservations s old).usage = _ := usage_foldl_drop
    rw [pruneEvents, List.map_map]
    exact pruned
  | start | complete | unreserved => rw [List.map_singleton, List.sum_singleton]; rfl
  | release => rw [List.map_singleton, List.sum_singleton]; exact usage_drop _ _ _

/-- A started reservation of a step under a fence that is not settled. -/
def outstanding (reservations : Table WorkReservationRow.key) (k : ReservationKey) (fence : Nat) :
    Bool := (reservations.get? k).any (fun item => item.counted && item.fence == fence)

def WorkEvent.starts (k : ReservationKey) (fence : Nat) : WorkEvent → Bool
  | .started item => item.key == k && item.fence == fence
  | .settled .. => false

def WorkEvent.settles (k : ReservationKey) (fence : Nat) : WorkEvent → Bool
  | .started _ => false
  | .settled item _ _ => item.key == k && (item.counted && item.fence == fence)

theorem outstanding_drop (found : ledger.reservations.get? item.key = some item) (how : Settlement)
    (amount : WorkUsage) (k : ReservationKey) (fence : Nat) :
    (outstanding (ledger.reservations.erase item.key) k fence).toNat +
        [WorkEvent.settled item how amount].countP (WorkEvent.settles k fence) =
      (outstanding ledger.reservations k fence).toNat := by
  unfold outstanding
  rw [get?_erase, List.countP_singleton, WorkEvent.settles]
  by_cases here : k = item.key
  · rw [if_pos here, here, found]
    cases holds : (item.counted && item.fence == fence) <;> simp [holds]
  · have other : (item.key == k) = false := by simpa using Ne.symm here
    simp [here, other]

/-- Pruning settles every started reservation it drops, once. -/
theorem outstanding_prune (ledger : WorkLedger) (k : ReservationKey) (fence : Nat) :
    (outstanding (pruneConversationWorkReservations s ledger).reservations k fence).toNat +
        (pruneEvents s ledger.reservations).countP (WorkEvent.settles k fence) =
      (outstanding ledger.reservations k fence).toNat := by
  have settled : (pruneEvents s ledger.reservations).countP (WorkEvent.settles k fence) =
      ((ledger.reservations.get? k).any (fun item =>
        (item.counted && item.fence == fence) && abandoned s item)).toNat := by
    rw [pruneEvents, List.countP_map, List.countP_filter, ← Table.countP_key]
    refine List.countP_congr fun item _ => ?_
    simp only [Function.comp, WorkEvent.settles, Bool.and_eq_true, beq_iff_eq, decide_eq_true_eq,
      and_assoc]
  rw [settled, outstanding, get?_prune, outstanding]
  cases found : ledger.reservations.get? k with
  | none => rfl
  | some item =>
    cases gone : abandoned s item <;>
      cases holds : (item.counted && item.fence == fence) <;> simp [Option.filter, gone, holds]

theorem countP_starts_prune (reservations : Table WorkReservationRow.key) (k : ReservationKey)
    (fence : Nat) : (pruneEvents s reservations).countP (WorkEvent.starts k fence) = 0 := by
  rw [pruneEvents, List.countP_map, List.countP_eq_zero]
  exact fun _ _ h => nomatch h

/-- A reservation is outstanding from its start to its settlement. -/
theorem LedgerWork.starts (work : LedgerWork allowed s old new events) (k : ReservationKey)
    (fence : Nat) :
    (outstanding new.reservations k fence).toNat + events.countP (WorkEvent.settles k fence) =
      (outstanding old.reservations k fence).toNat + events.countP (WorkEvent.starts k fence) := by
  cases work with
  | join => rfl
  | @reserve claim _ step requested delegationID _ _ _ free _ =>
    rw [countP_starts_prune, Nat.add_zero, ← outstanding_prune old]
    congr 2
    unfold outstanding holdReservation
    dsimp only
    rw [get?_upsert]
    split
    · next here =>
      change k = workReservationKey claim step at here
      rw [here, free]
      rfl
    · rfl
  | @start _ _ _ item _ _ _ found _ first =>
    have here := get?_key found
    unfold outstanding
    simp only [chargeLedger, holdReservation, get?_upsert, List.countP_singleton,
      WorkEvent.settles, WorkEvent.starts]
    by_cases same : k = item.key
    · rw [if_pos same, same, here]
      simp only [Option.any_some, first, Bool.true_and, Bool.false_and, beq_self_eq_true]
      cases item.fence == fence <;> rfl
    · have other : (item.key == k) = false := by simpa using Ne.symm same
      simp [same, other]
  | @complete _ _ _ item _ amount _ _ found =>
    have settled := outstanding_drop (get?_key found) .completed amount k fence
    rw [key_of_get? found] at settled
    exact settled
  | @unreserved claim _ step _ delegationID amount _ _ _ missing unstarted =>
    have same : (settleReservation old (workReservationKey claim step) delegationID
        amount).reservations = old.reservations := Table.erase_of_none missing
    rw [same]
    simp [WorkEvent.settles, WorkEvent.starts, unstarted]
  | release _ _ found =>
    rw [reservations_drop]
    exact outstanding_drop (get?_key found) _ _ k fence

/-- A reservation stays under its fence until it is settled. -/
theorem LedgerWork.survives (work : LedgerWork allowed s old new events)
    (held : old.reservations.get? k = some item) :
    (∃ next, new.reservations.get? k = some next ∧ next.fence = item.fence ∧
      next.owner = item.owner) ∨ ∃ how amount, .settled item how amount ∈ events := by
  cases work with
  | join => exact .inl ⟨item, held, rfl, rfl⟩
  | @reserve claim _ step _ _ _ _ _ free =>
    cases gone : abandoned s item with
    | true =>
      refine .inr ⟨.abandoned, abandonedCharge item s.now, ?_⟩
      exact List.mem_map.mpr
        ⟨item, List.mem_filter.mpr ⟨mem_of_get? held, gone⟩, rfl⟩
    | false =>
      have kept : (pruneConversationWorkReservations s old).reservations.get? k = some item := by
        rw [get?_prune, held]
        simp [Option.filter, gone]
      have other : k ≠ workReservationKey claim step := by
        rintro rfl
        rw [free] at kept
        cases kept
      refine .inl ⟨item, ?_, rfl, rfl⟩
      simp only [holdReservation, get?_upsert]
      rw [if_neg other]
      exact kept
  | @start _ _ _ started _ _ _ found =>
    simp only [chargeLedger, holdReservation, get?_upsert]
    by_cases here : k = started.key
    · have same := get?_key found
      rw [← here, held] at same
      cases same
      exact .inl ⟨_, if_pos here, rfl, rfl⟩
    · exact .inl ⟨item, (if_neg here).trans held, rfl, rfl⟩
  | @complete claim _ step settled _ _ _ _ found =>
    by_cases here : k = workReservationKey claim step
    · rw [here, found] at held
      cases held
      exact .inr ⟨_, _, List.mem_singleton_self _⟩
    · refine .inl ⟨item, ?_, rfl, rfl⟩
      simp only [settleReservation, chargeLedger, get?_erase]
      exact (if_neg here).trans held
  | @unreserved claim _ step _ delegationID amount _ _ _ missing =>
    have same : (settleReservation old (workReservationKey claim step) delegationID
        amount).reservations = old.reservations := Table.erase_of_none missing
    exact .inl ⟨item, same ▸ held, rfl, rfl⟩
  | @release _ _ _ dropped _ _ found =>
    by_cases here : k = dropped.key
    · have same := get?_key found
      rw [← here, held] at same
      cases same
      exact .inr ⟨_, _, List.mem_singleton_self _⟩
    · refine .inl ⟨item, ?_, rfl, rfl⟩
      rw [reservations_drop, get?_erase]
      exact (if_neg here).trans held

end Protocol

end DomainryAgent
