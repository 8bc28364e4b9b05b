import DomainryAgent.Store.Database

/-!
The durable runs of agent tasks, as the task store keeps them.

A row has columns the statements test (status, lease, fencing token, due time,
time of the last change) and the whole run as its payload.  The payload repeats
most of the columns.  Statements set the two sides separately, so a row can say
one thing in a column and another in its payload.
-/

namespace DomainryAgent.AgentTask

open Lib

/-! ### Statuses -/

inductive Status where
  | pending
  | running
  | retryScheduled
  | waitingApproval
  | succeeded
  | manualReview
  | rejected
  | noResult
  | failed
  | cancelled
  | deadLetter
  deriving DecidableEq

/-- The statuses that end a run: those `processRecovery` lists. -/
def Status.terminal : Status → Bool
  | succeeded | manualReview | rejected | noResult | failed | cancelled | deadLetter => true
  | _ => false

/-! ### What a run records -/

structure Lease where
  owner : Option Id
  token : Nat
  expiresAt : Time
  deriving DecidableEq

/-- No worker ever held it. -/
def Lease.empty : Lease := ⟨none, 0, 0⟩

/-- `AgentTaskLease.Matches`. -/
def Lease.holds (lease : Lease) (owner : Option Id) (token : Nat) : Prop :=
  lease.owner = owner ∧ lease.token = token

instance (lease : Lease) (owner : Option Id) (token : Nat) : Decidable (lease.holds owner token) :=
  inferInstanceAs (Decidable (_ ∧ _))

/-- The tools a task may call, as far as their prices differ. -/
inductive Tool where
  | invokeAction
  | queryRecords
  | other (name : Id)
  deriving DecidableEq

/-- `task_tool_service.go::agentToolCostUnits`. -/
def agentToolCostUnits : Tool → Nat
  | .invokeAction => 5
  | .queryRecords => 2
  | .other _ => 1

/-- One entry of the tool ledger.  The source builds the reference from the run
and the count of its calls. -/
structure Invocation where
  ref : Nat
  tool : Tool
  inputHash : Id
  status : String
  errorCode : String
  authorization : Id
  costUnits : Nat
  startedAt : Time
  finishedAt : Option Time
  deriving DecidableEq

inductive Decision where
  | approved
  | rejected
  | returned
  | timedOut
  | cancelled
  /-- Any other text. -/
  | other (text : String)
  deriving DecidableEq

inductive ExecutionStatus where
  | applied
  | failed
  | skipped
  deriving DecidableEq

/-- What carrying out an approved proposal came to. -/
structure Execution where
  status : ExecutionStatus
  detail : String
  deriving DecidableEq

inductive ApprovalStatus where
  | pending
  | resolved
  deriving DecidableEq

structure Approval where
  proposalID : Id
  status : ApprovalStatus
  decision : Option Decision
  actor : Option Id
  reason : String
  execution : Option Execution
  requestedAt : Time
  expiresAt : Time
  resolvedAt : Option Time
  deriving DecidableEq

inductive Output where
  /-- What a provider or an operator gave. -/
  | value (json : String)
  /-- What became of a proposal. -/
  | decided (proposalID : Id) (decision : Decision) (execution : Option Execution)
  deriving DecidableEq

inductive CallbackState where
  | none
  | pending
  | delivered
  | manuallyResolved
  | forceRestart
  | pollRequired
  deriving DecidableEq

structure Reconciliation where
  required : Bool
  state : CallbackState
  externalRunID : Option Id
  deriving DecidableEq

/-- A run that reconciles nothing. -/
def Reconciliation.empty : Reconciliation := ⟨false, .none, none⟩

/-- The workflow has not acknowledged the completion of the run. -/
def callbackPending : Reconciliation := ⟨true, .pending, none⟩

inductive OperationKind where
  | retry
  | reconcile
  | resolve
  /-- Any other text. -/
  | other (text : String)
  deriving DecidableEq

structure Operation where
  kind : OperationKind
  idempotencyKey : Id
  deriving DecidableEq

structure TaskRun where
  id : Id
  workspaceID : Id
  processID : Option Id
  status : Status
  attempt : Nat
  maxAttempts : Nat
  maxToolCalls : Nat
  maxCostUnits : Nat
  toolCallCount : Nat
  authorization : List Id
  invocations : List Invocation
  outcome : String
  output : Option Output
  lastErrorCode : String
  lease : Lease
  nextAttemptAt : Option Time
  cancelRequestedAt : Option Time
  cancellationReason : String
  approval : Option Approval
  reconciliation : Reconciliation
  operations : List Operation
  revision : Nat
  createdAt : Time
  updatedAt : Time
  deriving DecidableEq

/-- The workspace and the id of a run. -/
abbrev Key := Id × Id

abbrev TaskRun.key (run : TaskRun) : Key := (run.workspaceID, run.id)

/-- `agent_task_run_store.go::agentTaskRunColumns`. -/
structure Row where
  run : TaskRun
  status : Status
  leaseOwner : Option Id
  fencingToken : Nat
  leaseExpiresAt : Time
  nextAttemptAt : Time
  createdAt : Time
  updatedAt : Time
  deriving DecidableEq

abbrev Row.key (row : Row) : Key := row.run.key

/-- The table of task runs. -/
abbrev Rows := Table Row.key

/-- A transaction or statement of the task store. -/
abbrev TaskTx := Tx Rows Error

/-! ### Budgets of tool calls -/

/-- The largest value of an `int`. -/
def maxInt : Nat := 2 ^ 63 - 1

/-- `execution/budget.go::AddCost`. -/
def addCost (used charge : Nat) : Option Nat :=
  if maxInt - charge < used then none else some (used + charge)

/-- What the ledger has charged so far. -/
def chargedCost (invocations : List Invocation) : Option Nat :=
  invocations.foldl (fun used item => used.bind (addCost · item.costUnits)) (some 0)

inductive BudgetError where
  | calls
  | cost
  deriving DecidableEq

structure Usage where
  calls : Nat
  cost : Nat
  deriving DecidableEq

/-- `execution/budget.go::Reserve`. -/
def reserve (budget used charge : Usage) : Except BudgetError Usage :=
  if budget.calls < 1 ∨ charge.calls < 1 ∨ budget.calls < used.calls ∨
      budget.calls - used.calls < charge.calls then .error .calls
  else if budget.cost < used.cost ∨ budget.cost - used.cost < charge.cost then .error .cost
  else .ok ⟨used.calls + charge.calls, used.cost + charge.cost⟩

/-- `task_tool_service.go::agentTaskMaxToolCalls`. -/
def agentTaskMaxToolCalls (value : Nat) : Nat := if 0 < value then value else 20

/-- `task_tool_service.go::agentTaskMaxCostUnits`. -/
def agentTaskMaxCostUnits (value : Nat) : Nat := if 0 < value then value else 20

end DomainryAgent.AgentTask
