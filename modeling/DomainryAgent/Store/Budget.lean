import DomainryAgent.Store.Runs

/-!
The work ledger of a root conversation: usage shared by every delegated task
below it, and the reservations of the model steps in flight.

A step reserves its upper bounds, is counted when the provider call starts,
and is settled by its completion, by a release, or, when its claim is gone, by
the next reservation that prunes the ledger.

Where no file is named, a definition models the function of `conversation_work_budget_store.go`
of its name.
-/

namespace DomainryAgent

open Lib Tx

def defaultConversationWorkBudget : WorkBudget :=
  { maxInputTokens := 16 * 1024 * 1024, maxOutputTokens := 1024 * 1024
    maxDurationSeconds := 6 * 60 * 60 }

def validConversationWorkBudget (value : WorkBudget) : Bool :=
  1 ≤ value.maxInputTokens && value.maxInputTokens ≤ 1000000000 &&
  1 ≤ value.maxOutputTokens && value.maxOutputTokens ≤ 100000000 &&
  1 ≤ value.maxDurationSeconds && value.maxDurationSeconds ≤ 30 * 24 * 60 * 60

def WorkUsage.zero : WorkUsage := ⟨0, 0, 0, 0, 0⟩

/-- The ledger a root starts with. -/
def openLedger (key : LedgerKey) (budget : WorkBudget) (delegations : Nat) : WorkLedger :=
  { key := key, budget := budget, usage := .zero, delegations := delegations
    reservations := .empty, allocations := .empty }

/-- The ledger of a root conversation. -/
def ledgerKey (root : Id) (a : Authority) : LedgerKey := ⟨a.runtimeID, a.workspaceID, root⟩

/-- Overwrite the ledger a transaction read. -/
def saveConversationWorkLedger (ledger : WorkLedger) : StoreTx Unit :=
  write (fun s => { s with ledgers := s.ledgers.put ledger })

/-- Insert the first ledger of a root. -/
def insertConversationWorkLedger (ledger : WorkLedger) : StoreTx Unit :=
  insertRow (·.ledgers) (fun t s => { s with ledgers := t }) "_agent_conversation_work_budgets"
    ledger

def conversationWorkDelegationCount (s : Db) (root : Id) : Nat :=
  (s.delegations.rows.filter (·.rootConversationID = root)).length

/-- Another delegation below a root: the ledger must have budget and room. -/
def admitToLedger (ledger : WorkLedger) (requested : Option WorkBudget) (count : Nat) :
    StoreTx WorkBudget := do
  demand (∀ budget ∈ requested, budget = ledger.budget) (conflict "work_budget_changed")
  demand (ledger.usage.inputTokens < ledger.budget.maxInputTokens ∧
    ledger.usage.outputTokens < ledger.budget.maxOutputTokens ∧
    ledger.usage.durationMillis < ledger.budget.maxDurationSeconds * 1000)
    (rateLimited "work_budget_exhausted")
  let delegations := if ledger.delegations = 0 then count else ledger.delegations
  demand (delegations < 32) (rateLimited "delegation_limit")
  saveConversationWorkLedger { ledger with delegations := delegations + 1 }
  pure ledger.budget

/-- The first delegation below a root opens its ledger. -/
def admitNewLedger (key : LedgerKey) (requested : Option WorkBudget) : StoreTx WorkBudget := do
  let budget := requested.getD defaultConversationWorkBudget
  demand (validConversationWorkBudget budget = true) (badRequest "work_budget_invalid")
  insertConversationWorkLedger (openLedger key budget 1)
  pure budget

def admitConversationWorkBudget (root : Id) (requested : Option WorkBudget) (a : Authority) :
    StoreTx WorkBudget := do
  let found ← read (fun s => s.ledgers.get? (ledgerKey root a))
  let count ← read (conversationWorkDelegationCount · root)
  match found with
  | some ledger => admitToLedger ledger requested count
  | none => admitNewLedger (ledgerKey root a) requested

def workReservationKey (claim : Claim) (step : Nat) : ReservationKey :=
  ⟨claim.conversationID, claim.runID, step⟩

/-! ### Settling reservations -/

def workAllocation (ledger : WorkLedger) (delegationID : Id) : WorkAllocation :=
  (ledger.allocations.get? delegationID).getD ⟨delegationID, .zero⟩

/-- Add to the usage of a ledger and of one delegation below it. -/
def WorkUsage.add (x y : WorkUsage) : WorkUsage :=
  ⟨x.inputTokens + y.inputTokens, x.outputTokens + y.outputTokens,
    x.durationMillis + y.durationMillis, x.modelCalls + y.modelCalls, x.toolCalls + y.toolCalls⟩

def chargeLedger (ledger : WorkLedger) (delegationID : Id) (amount : WorkUsage) : WorkLedger :=
  let allocation := workAllocation ledger delegationID
  { ledger with
    usage := ledger.usage.add amount
    allocations := ledger.allocations.upsert
      { allocation with usage := allocation.usage.add amount } }

/-- The duration an abandoned step is charged: at least a millisecond, at most
what it reserved. -/
def abandonedDuration (item : WorkReservationRow) (now : Time) : Nat :=
  let duration := max 1 (now - item.startedAt)
  if 0 < item.bounds.maxDurationMillis then min duration item.bounds.maxDurationMillis else duration

def settleAbandonedConversationWork (ledger : WorkLedger) (item : WorkReservationRow)
    (now : Time) : WorkLedger :=
  if item.counted then
    chargeLedger ledger item.delegationID ⟨0, 0, abandonedDuration item now, 0, 0⟩
  else ledger

/-- A reservation whose claim can no longer complete it. -/
def abandoned (s : Core) (item : WorkReservationRow) : Bool :=
  match s.runs.get? item.key.runID with
  | none => true
  | some row =>
    !(row.run.conversationID = item.key.conversationID ∧
      conversationOwner row.authority = item.owner ∧ row.run.status = .running ∧
      row.fence = item.fence ∧ s.now < row.expires)

/-- Settle one abandoned reservation and drop it. -/
def dropReservation (now : Time) (ledger : WorkLedger) (item : WorkReservationRow) : WorkLedger :=
  let settled := settleAbandonedConversationWork ledger item now
  { settled with reservations := settled.reservations.erase item.key }

def pruneConversationWorkReservations (s : Core) (ledger : WorkLedger) : WorkLedger :=
  (ledger.reservations.rows.filter (abandoned s)).foldl (dropReservation s.now) ledger

/-- Hold a reservation, in the place of an earlier one under its key. -/
def holdReservation (ledger : WorkLedger) (item : WorkReservationRow) : WorkLedger :=
  { ledger with reservations := ledger.reservations.upsert item }

/-- Charge what a step used and drop its reservation. -/
def settleReservation (ledger : WorkLedger) (key : ReservationKey) (delegationID : Id)
    (amount : WorkUsage) : WorkLedger :=
  let charged := chargeLedger ledger delegationID amount
  { charged with reservations := charged.reservations.erase key }

def workLedgerForClaim (row : RunRow) (claim : Claim) : StoreTx (Delegation × WorkLedger) :=
  match row.run.delegated with
  | none => Tx.fail (badRequest "work_budget_unavailable")
  | some (id, _) => do
    let d ← conversationDelegation id claim.authority
    let found ← read (fun s => s.ledgers.get? (ledgerKey d.rootConversationID claim.authority))
    let count ← read (conversationWorkDelegationCount · d.rootConversationID)
    match found with
    | some ledger => pure (d, ledger)
    | none => do
      let ledger := openLedger (ledgerKey d.rootConversationID claim.authority) d.workBudget
        (max 1 count)
      insertConversationWorkLedger ledger
      pure (d, ledger)

/-- What the reservations under other keys hold back. -/
def reservedExcept (ledger : WorkLedger) (key : ReservationKey) (amount : WorkReservation → Nat) :
    Nat :=
  ((ledger.reservations.rows.filter (·.key ≠ key)).map (fun item => amount item.bounds)).sum

/-- The budget covers what is used, what other steps hold back and the request. -/
def fitsBudget (ledger : WorkLedger) (key : ReservationKey) (requested : WorkReservation) : Prop :=
  ledger.usage.inputTokens + reservedExcept ledger key (·.inputTokenUpperBound) +
      requested.inputTokenUpperBound ≤ ledger.budget.maxInputTokens ∧
    ledger.usage.outputTokens + reservedExcept ledger key (·.maxOutputTokens) +
      requested.maxOutputTokens ≤ ledger.budget.maxOutputTokens ∧
    ledger.usage.durationMillis + reservedExcept ledger key (·.maxDurationMillis) +
      requested.maxDurationMillis ≤ ledger.budget.maxDurationSeconds * 1000

instance (ledger : WorkLedger) (key : ReservationKey) (requested : WorkReservation) :
    Decidable (fitsBudget ledger key requested) := inferInstanceAs (Decidable (_ ∧ _ ∧ _))

/-- `ReserveConversationWorkStep`.
The same claim finds its reservation again; the pruned ledger is then not
saved. -/
def reserveConversationWorkStep (claim : Claim) (step : Nat) (requested : WorkReservation) :
    StoreTx WorkReservation := do
  demand (1 ≤ requested.inputTokenUpperBound ∧ 1 ≤ requested.maxOutputTokens ∧
    1 ≤ requested.maxDurationMillis) (badRequest "work_budget_reservation_invalid")
  let row ← claimed claim
  let (d, ledger) ← workLedgerForClaim row claim
  let ledger ← read (fun s => pruneConversationWorkReservations s.toCore ledger)
  let key := workReservationKey claim step
  match (ledger.reservations.get? key).filter (·.fence = claim.fence) with
  | some existing => pure existing.bounds
  | none => do
    demand (fitsBudget ledger key requested) (rateLimited "work_budget_exhausted")
    let now ← read (·.now)
    saveConversationWorkLedger (holdReservation ledger
      { key := key, bounds := requested, owner := conversationOwner claim.authority
        delegationID := d.id, fence := claim.fence, counted := false, startedAt := now })
    pure requested

def startConversationWorkStep (claim : Claim) (step : Nat) : StoreTx Unit := do
  let row ← claimed claim
  let (d, ledger) ← workLedgerForClaim row claim
  let item ← require (ledger.reservations.get? (workReservationKey claim step))
    (conflict "work_budget_reservation_lost")
  demand (item.fence = claim.fence) (conflict "work_budget_reservation_lost")
  if item.counted then pure ()
  else do
    let now ← read (·.now)
    saveConversationWorkLedger (chargeLedger
      (holdReservation ledger { item with counted := true, startedAt := now }) d.id ⟨0, 0, 0, 1, 0⟩)

/-- Cache counters add to the input tokens; a malformed one makes the step cost
what it reserved. -/
def addCacheTokens (bounds : WorkReservation) : List (Option Nat) → Nat × Nat → Nat × Nat
  | [], used => used
  | none :: _, _ => (bounds.inputTokenUpperBound, bounds.maxOutputTokens)
  | some cache :: rest, (input, output) => addCacheTokens bounds rest (input + cache, output)

/-- The tokens a completed step is charged; unknown usage costs what was
reserved. -/
def chargedTokens (usage : UsageReport) (bounds : WorkReservation) : Nat × Nat :=
  addCacheTokens bounds usage.cacheTokens
    (match usage.inputTokens, usage.outputTokens with
      | some input, some output => (input, output)
      | _, _ => (bounds.inputTokenUpperBound, bounds.maxOutputTokens))

/-- The stand-in for callers that complete a step without having reserved
it. -/
def unreserved (claim : Claim) (step : Nat) (d : Delegation) (usage : UsageReport) (now : Time) :
    WorkReservationRow :=
  { key := workReservationKey claim step, owner := conversationOwner claim.authority
    delegationID := d.id, fence := claim.fence, counted := false, startedAt := now
    bounds := match usage.inputTokens, usage.outputTokens with
      | some input, some output => ⟨input, output, 1⟩
      | _, _ => ⟨0, 0, 1⟩ }

def completeConversationWorkStep (row : RunRow) (claim : Claim) (step : Nat) (result : StepResult) :
    StoreTx Unit := do
  let (d, ledger) ← workLedgerForClaim row claim
  let key := workReservationKey claim step
  let found := ledger.reservations.get? key
  demand (∀ item ∈ found, item.fence = claim.fence) (conflict "work_budget_reservation_lost")
  let now ← read (·.now)
  let reservation := found.getD (unreserved claim step d result.usage now)
  let tokens := chargedTokens result.usage reservation.bounds
  demand (tokens.1 ≤ reservation.bounds.inputTokenUpperBound ∧
    tokens.2 ≤ reservation.bounds.maxOutputTokens)
    (conflict "work_budget_provider_usage_exceeded")
  let duration := max 1 (now - reservation.startedAt)
  demand (duration ≤ reservation.bounds.maxDurationMillis) (rateLimited "work_budget_exhausted")
  let settled := settleReservation ledger key d.id
    ⟨tokens.1, tokens.2, duration, if reservation.counted then 0 else 1, result.calls.length⟩
  demand (settled.usage.inputTokens ≤ settled.budget.maxInputTokens ∧
    settled.usage.outputTokens ≤ settled.budget.maxOutputTokens ∧
    settled.usage.durationMillis ≤ settled.budget.maxDurationSeconds * 1000)
    (rateLimited "work_budget_exhausted")
  saveConversationWorkLedger settled

def releaseConversationWorkStep (claim : Claim) (step : Nat) : StoreTx Unit := do
  let row ← claimed claim
  let (_, ledger) ← workLedgerForClaim row claim
  match ledger.reservations.get? (workReservationKey claim step) with
  | none => pure ()
  | some item => do
    demand (item.fence = claim.fence) (conflict "work_budget_reservation_lost")
    let now ← read (·.now)
    saveConversationWorkLedger (dropReservation now ledger item)

end DomainryAgent
