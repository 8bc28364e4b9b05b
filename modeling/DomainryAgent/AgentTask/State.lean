import DomainryAgent.AgentTask.Store

/-!
The state service of agent tasks.

Each operation makes a new run out of the copy its caller holds and hands it to
one guarded writer of the store.  The copy is the caller's own: what the store
holds by then is for the guard to find out.

Where no file is named, a definition models the function of `task_state_service.go`
of its name.
-/

namespace DomainryAgent.AgentTask

open Lib

/-! ### Creation -/

/-- The cost budget of a task definition. -/
inductive CostBudget where
  | low
  | high
  /-- Any other text. -/
  | other (text : String)
  deriving DecidableEq

/-- `task_tool_service.go::agentTaskCostBudgetUnits`. -/
def agentTaskCostBudgetUnits : CostBudget → Nat
  | .low => 5
  | .high => 50
  | .other _ => 20

/-- What a command asks for. -/
structure Request where
  id : Id
  workspaceID : Id
  processID : Option Id
  maxAttempts : Nat
  maxToolCalls : Nat
  costBudget : CostBudget
  authorization : Id
  deriving DecidableEq

/-- `task_execution_service.go::StartRun` and `Create`. -/
def newRun (request : Request) (now : Time) : TaskRun where
  id := request.id
  workspaceID := request.workspaceID
  processID := request.processID
  status := .pending
  attempt := 0
  maxAttempts := if request.maxAttempts < 1 then 1 else request.maxAttempts
  maxToolCalls := agentTaskMaxToolCalls request.maxToolCalls
  maxCostUnits := agentTaskCostBudgetUnits request.costBudget
  toolCallCount := 0
  authorization := [request.authorization]
  invocations := []
  outcome := ""
  output := none
  lastErrorCode := ""
  lease := .empty
  nextAttemptAt := none
  cancelRequestedAt := none
  cancellationReason := ""
  approval := none
  reconciliation := .empty
  operations := []
  revision := 1
  createdAt := now
  updatedAt := now

/-- `agent_task_run_store.go::Create`, the row it inserts. -/
def newRow (request : Request) (now : Time) : Row where
  run := newRun request now
  status := .pending
  leaseOwner := none
  fencingToken := 0
  leaseExpiresAt := 0
  nextAttemptAt := 0
  createdAt := now
  updatedAt := now

/-! ### Under the lease -/

/-- The run that waits for a decision on a proposal. -/
def waitingRun (copy : TaskRun) (proposalID : Id) (now : Time) : TaskRun :=
  { copy with
    status := .waitingApproval, updatedAt := now, revision := copy.revision + 1
    approval := some
      { proposalID := proposalID, status := .pending, decision := none, actor := none, reason := ""
        execution := none, requestedAt := now, expiresAt := now + 24 * 3600000
        resolvedAt := none } }

def waitForApproval (copy : TaskRun) (owner : Option Id) (token : Nat) (proposalID : Id)
    (now : Time) : TaskTx TaskRun := do
  Tx.demand (copy.status = .running ∧ copy.lease.holds owner token)
    (conflict "agent.task.terminal_fence_rejected")
  saveRunning (waitingRun copy proposalID now) owner token
  pure (waitingRun copy proposalID now)

/-- The run after a failed attempt.  A retry needs an attempt left and a due time
that is still ahead. -/
def failedRun (copy : TaskRun) (errorCode : String) (retryable : Bool) (nextAttemptAt now : Time) :
    TaskRun :=
  let failed := { copy with
    lastErrorCode := errorCode, updatedAt := now, revision := copy.revision + 1 }
  if retryable = true ∧ copy.attempt < copy.maxAttempts ∧ now < nextAttemptAt then
    { failed with status := .retryScheduled, nextAttemptAt := some nextAttemptAt }
  else { failed with status := .deadLetter, outcome := "error" }

def failAttempt (copy : TaskRun) (owner : Option Id) (token : Nat) (errorCode : String)
    (retryable : Bool) (nextAttemptAt now : Time) : TaskTx TaskRun := do
  Tx.demand (copy.status = .running ∧ copy.lease.holds owner token)
    (conflict "agent.task.terminal_fence_rejected")
  saveRunning (failedRun copy errorCode retryable nextAttemptAt now) owner token
  pure (failedRun copy errorCode retryable nextAttemptAt now)

/-- `agentpersistence.AgentTaskRunCompletion`. -/
structure Completion where
  status : Status
  outcome : String
  output : Option Output
  errorCode : String
  authorization : List Id
  reconciliation : Reconciliation
  deriving DecidableEq

/-- The run with its completion. -/
def completedRun (copy : TaskRun) (completion : Completion) (now : Time) : TaskRun :=
  { copy with
    status := completion.status, outcome := completion.outcome, output := completion.output
    lastErrorCode := completion.errorCode, authorization := completion.authorization
    reconciliation := completion.reconciliation, updatedAt := now, revision := copy.revision + 1 }

def complete (copy : TaskRun) (owner : Option Id) (token : Nat) (completion : Completion)
    (now : Time) : TaskTx TaskRun := do
  Tx.demand (copy.status = .running ∧ copy.lease.holds owner token ∧
    completion.status.terminal = true) (conflict "agent.task.terminal_fence_rejected")
  saveRunning (completedRun copy completion now) owner token
  pure (completedRun copy completion now)

/-! ### Approvals -/

/-- `agentpersistence.AgentTaskApprovalResolution`. -/
structure Resolution where
  proposalID : Id
  decision : Decision
  actor : Option Id
  reason : String
  execution : Option Execution
  deriving DecidableEq

/-- The status, outcome and error code a decision leads to. -/
def decisionResult (resolution : Resolution) (lastErrorCode : String) :
    Option (Status × String × String) :=
  match resolution.decision with
  | .approved =>
    if resolution.execution.map (·.status) = some .failed then
      some (.failed, "error", "agent.task.approval_execution_failed")
    else some (.succeeded, "success", lastErrorCode)
  | .rejected | .returned => some (.rejected, "rejected", lastErrorCode)
  | .timedOut => some (.failed, "error", "agent.task.approval_timeout")
  | .cancelled => some (.cancelled, "error", "agent.task.approval_cancelled")
  | .other _ => none

/-- The run after a decision on its proposal. -/
def resolvedRun (copy : TaskRun) (approval : Approval) (resolution : Resolution)
    (result : Status × String × String) (now : Time) : TaskRun :=
  { copy with
    approval := some { approval with
      status := .resolved, decision := some resolution.decision, actor := resolution.actor
      reason := resolution.reason, execution := resolution.execution, resolvedAt := some now }
    output := some (.decided resolution.proposalID resolution.decision resolution.execution)
    status := result.1, outcome := result.2.1, lastErrorCode := result.2.2
    updatedAt := now, revision := copy.revision + 1
    reconciliation := if copy.processID.isSome then callbackPending else copy.reconciliation }

/-- What `ResolveApproval` makes of the run it read: the decision is on it
already, or this run is to be saved. -/
inductive Resolving where
  | replayed
  | save (run : TaskRun)
  deriving DecidableEq

/-- `ResolveApproval`, up to its write. -/
def resolveApproval (copy : TaskRun) (resolution : Resolution) (now : Time) :
    Except Error Resolving :=
  match copy.approval with
  | none => .error (conflict "agent.task.approval_state_conflict")
  | some approval =>
    if copy.status.terminal = true ∧ approval.proposalID = resolution.proposalID ∧
        approval.decision = some resolution.decision then .ok .replayed
    else if copy.status ≠ .waitingApproval ∨ approval.proposalID ≠ resolution.proposalID then
      .error (conflict "agent.task.approval_state_conflict")
    else match decisionResult resolution copy.lastErrorCode with
      | none => .error (badRequest "agent.task.approval_decision_invalid")
      | some result => .ok (.save (resolvedRun copy approval resolution result now))

/-! ### After the end of a run -/

/-- The run with its callback delivered. -/
def deliveredRun (copy : TaskRun) (now : Time) : TaskRun :=
  { copy with
    reconciliation := { copy.reconciliation with required := false, state := .delivered }
    updatedAt := now, revision := copy.revision + 1 }

/-- `MarkWorkflowCompletionDelivered` goes on to write. -/
def marks (copy : TaskRun) : Prop :=
  copy.status.terminal = true ∧
    ¬(copy.reconciliation.required = false ∧ copy.reconciliation.state = .delivered)

instance (copy : TaskRun) : Decidable (marks copy) := inferInstanceAs (Decidable (_ ∧ _))

/-- The run with another output. -/
def overriddenRun (copy : TaskRun) (output : String) (now : Time) : TaskRun :=
  { copy with output := some (.value output), updatedAt := now, revision := copy.revision + 1 }

/-- The run an operator's command makes, before it is recorded on it. -/
def operatedRun (copy : TaskRun) : OperationKind → Except Error TaskRun
  | .retry =>
    if copy.status ≠ .failed ∧ copy.status ≠ .deadLetter ∧ copy.status ≠ .cancelled then
      .error (conflict "agent.task.retry_state_invalid")
    else .ok { copy with
      status := .pending, outcome := "", nextAttemptAt := none, cancelRequestedAt := none
      cancellationReason := "", reconciliation := ⟨false, .forceRestart, none⟩ }
  | .reconcile =>
    if copy.reconciliation.required = false ∨ copy.reconciliation.externalRunID = none then
      .error (conflict "agent.task.reconcile_state_invalid")
    else .ok { copy with
      status := .pending, outcome := "", nextAttemptAt := none
      reconciliation := { copy.reconciliation with state := .pollRequired } }
  | .resolve =>
    if copy.status.terminal = false ∨ copy.reconciliation.required = false then
      .error (conflict "agent.task.resolve_state_invalid")
    else .ok { copy with
      status := .manualReview, outcome := "manual_review", lastErrorCode := ""
      reconciliation := { copy.reconciliation with required := false, state := .manuallyResolved } }
  | .other _ => .error (badRequest "agent.task.operation_invalid")

/-- What `Operate` makes of the run it read: the command was recorded before, or
this run is to be saved. -/
inductive Operating where
  | replayed
  | save (run : TaskRun)
  deriving DecidableEq

/-- `Operate`, up to its write. -/
def operate (copy : TaskRun) (operation : Operation) (now : Time) : Except Error Operating :=
  match copy.operations.find? (·.idempotencyKey = operation.idempotencyKey) with
  | some earlier =>
    if earlier.kind ≠ operation.kind then .error (conflict "backend.idempotency.key_reused")
    else .ok .replayed
  | none =>
    match operatedRun copy operation.kind with
    | .error e => .error e
    | .ok run => .ok (.save { run with
        operations := copy.operations ++ [operation], updatedAt := now
        revision := copy.revision + 1 })

end DomainryAgent.AgentTask
