import Mathlib.Data.List.Sort
import DomainryAgent.AgentTask.Records

/-!
The statements and transactions of the task store.

Three predicates guard the writers: the lease pair with the status `running`,
the status with the revision of the payload, and the time of the last change.
A transaction is atomic.  `Heartbeat` and `RequestCancel` are no transactions:
their statements are separate here.

Where no file is named, a definition models the function of `agent_task_transition_store.go`
of its name.
-/

namespace DomainryAgent.AgentTask

open Lib Tx

/-! ### Predicates -/

/-- `agent_task_run_store.go::agentTaskLeasePredicate`. -/
def Row.leased (row : Row) (owner : Option Id) (token : Nat) : Prop :=
  row.status = .running ∧ row.leaseOwner = owner ∧ row.fencingToken = token

instance (row : Row) (owner : Option Id) (token : Nat) : Decidable (row.leased owner token) :=
  inferInstanceAs (Decidable (_ ∧ _ ∧ _))

/-- `agent_task_run_store.go::agentTaskEligiblePredicate`. -/
def Row.eligible (row : Row) (now : Time) : Prop :=
  (row.status = .pending ∨ row.status = .retryScheduled) ∧ row.nextAttemptAt ≤ now ∨
    row.status = .running ∧ row.leaseExpiresAt ≤ now

instance (row : Row) (now : Time) : Decidable (row.eligible now) :=
  inferInstanceAs (Decidable (_ ∨ _))

/-- `agent_task_run_store.go::timeMillis`. -/
def timeMillis (value : Option Time) : Time := value.getD 0

/-! ### Rows as the statements leave them -/

/-- `agent_task_claim_store.go::claimAgentTaskRunOnce`, the row it writes. -/
def claimedRow (row : Row) (owner : Id) (now : Time) (duration : Nat) : Row :=
  { row with
    status := .running, leaseOwner := some owner, fencingToken := row.fencingToken + 1
    leaseExpiresAt := now + duration, updatedAt := now
    run := { row.run with
      status := .running, attempt := row.run.attempt + 1, revision := row.run.revision + 1
      updatedAt := now, lease := ⟨some owner, row.fencingToken + 1, now + duration⟩ } }

/-- The payload a heartbeat writes back. -/
def beatRun (copy : TaskRun) (now expires : Time) : TaskRun :=
  { copy with
    lease := { copy.lease with expiresAt := expires }, updatedAt := now
    revision := copy.revision + 1 }

def mergeAgentAuthorizationEvidence (current incoming : List Id) : List Id :=
  (current ++ incoming).eraseDups

/-- The payload `SaveRunning` writes: the run it is given, with the tool ledger
that is stored. -/
def savedRun (current run : TaskRun) : TaskRun :=
  { run with
    toolCallCount := current.toolCallCount
    authorization := mergeAgentAuthorizationEvidence current.authorization run.authorization
    invocations := current.invocations
    revision := if run.revision ≤ current.revision then current.revision + 1 else run.revision }

/-- The row `SaveRunning` writes. -/
def savedRow (row : Row) (run : TaskRun) : Row :=
  { row with
    status := run.status, nextAttemptAt := timeMillis run.nextAttemptAt, updatedAt := run.updatedAt
    run := savedRun row.run run }

/-- `agent_task_run_store.go::agentTaskStatusUpdate`. -/
def statusRow (row : Row) (run : TaskRun) : Row :=
  { row with status := run.status, run := run, updatedAt := run.updatedAt }

/-- The payload and the time of the change, and nothing else. -/
def payloadRow (row : Row) (run : TaskRun) : Row := { row with run := run, updatedAt := run.updatedAt }

/-! ### Transactions -/

/-- The row under a key; a missing one is the error given. -/
def rowOf (key : Key) (missing : Error) : TaskTx Row := do
  let found ← read (fun rows => rows.get? key)
  require found missing

/-- `agent_task_run_store.go::Create`.  A taken key is read again. -/
def create (row : Row) : TaskTx TaskRun := do
  let found ← read (fun rows : Rows => rows.get? row.key)
  match found with
  | some existing => pure existing.run
  | none => do
    let grown ← read (fun rows : Rows => rows.insert? row)
    let rows ← require grown ⟨.constraint, "_agent_task_runs"⟩
    write (fun _ => rows)
    pure row.run

/-- Write a claim of a row that was read as eligible. -/
def takeRow (row : Row) (owner : Id) (now : Time) (duration : Nat) : TaskTx (Option TaskRun) := do
  write (fun rows => rows.put (claimedRow row owner now duration))
  pure (some (claimedRow row owner now duration).run)

/-- `agent_task_claim_store.go::claimAgentTaskRunOnce`. -/
def claimAgentTaskRunOnce (key : Key) (owner : Id) (now : Time) (duration : Nat) :
    TaskTx (Option TaskRun) := do
  let found ← read (fun rows : Rows => (rows.get? key).filter (·.eligible now))
  match found with
  | none => pure none
  | some row => takeRow row owner now duration

/-- The eligible rows of a workspace, oldest first. -/
def eligibleRows (rows : Rows) (workspaceID : Id) (now : Time) : List Row :=
  (rows.rows.filter (fun row => row.run.workspaceID = workspaceID ∧ row.eligible now)).insertionSort
    (fun x y => x.createdAt ≤ y.createdAt)

/-- `agent_task_claim_store.go::claimNextOnce`. -/
def claimNextOnce (workspaceID owner : Id) (now : Time) (duration : Nat) :
    TaskTx (Option TaskRun) := do
  let found ← read (fun rows => (eligibleRows rows workspaceID now).head?)
  match found with
  | none => pure none
  | some row => takeRow row owner now duration

/-- `Heartbeat`, its first statement. -/
def heartbeatTouch (key : Key) (owner : Option Id) (token : Nat) (now : Time) (duration : Nat) :
    TaskTx Bool := do
  let found ← read (fun rows : Rows => (rows.get? key).filter
    (fun row => row.leased owner token ∧ now < row.leaseExpiresAt))
  match found with
  | none => pure false
  | some row => do
    write (fun rows => rows.put { row with leaseExpiresAt := now + duration, updatedAt := now })
    pure true

/-- `Heartbeat`, its last statement. -/
def heartbeatWrite (run : TaskRun) (owner : Option Id) (token : Nat) : TaskTx Unit := do
  let found ← read (fun rows : Rows => (rows.get? run.key).filter (·.leased owner token))
  match found with
  | none => pure ()
  | some row => write (fun rows => rows.put { row with run := run })

def saveRunning (run : TaskRun) (owner : Option Id) (token : Nat) : TaskTx Unit := do
  let row ← rowOf run.key (conflict "agent.task.terminal_fence_rejected")
  demand (row.leased owner token) (conflict "agent.task.terminal_fence_rejected")
  write (fun rows => rows.put (savedRow row run))

def saveWaitingApproval (run : TaskRun) (expectedRevision : Nat) : TaskTx Unit := do
  let row ← rowOf run.key (conflict "agent.task.approval_state_conflict")
  demand (row.status = .waitingApproval ∧ row.run.revision = expectedRevision ∧
    row.run.approval.isSome = true ∧
    row.run.approval.map (·.proposalID) = run.approval.map (·.proposalID))
    (conflict "agent.task.approval_state_conflict")
  write (fun rows => rows.put (statusRow row run))

def saveTerminalOverride (run : TaskRun) (expectedRevision : Nat) : TaskTx Unit := do
  demand (run.status.terminal = true) (conflict "agent.task.override_terminal_required")
  let row ← rowOf run.key (conflict "agent.task.override_state_conflict")
  demand (row.status = run.status ∧ row.run.revision = expectedRevision)
    (conflict "agent.task.override_state_conflict")
  write (fun rows => rows.put (payloadRow row run))

def saveOperationalTransition (run : TaskRun) (expectedStatus : Status) (expectedRevision : Nat) :
    TaskTx Unit := do
  let row ← rowOf run.key (conflict "agent.task.operation_state_conflict")
  demand (row.status = expectedStatus ∧ row.run.revision = expectedRevision)
    (conflict "agent.task.operation_state_conflict")
  write (fun rows => rows.put (statusRow row run))

/-- The run a cancel request makes of the one it read. -/
def cancelledRun (copy : TaskRun) (reason : String) (now : Time) : TaskRun :=
  { copy with
    cancelRequestedAt := some now, cancellationReason := reason, updatedAt := now
    revision := copy.revision + 1
    status := if copy.status = .pending ∨ copy.status = .retryScheduled then .cancelled
      else copy.status }

/-- `RequestCancel`, its update.  The
time of the last change stands for the row it read. -/
def cancelWrite (copy : TaskRun) (reason : String) (now : Time) : TaskTx Bool := do
  let found ← read (fun rows : Rows => (rows.get? copy.key).filter
    (fun row => row.updatedAt = copy.updatedAt))
  match found with
  | none => pure false
  | some row => do
    write (fun rows => rows.put (statusRow row (cancelledRun copy reason now)))
    pure true

/-! ### Tool calls -/

/-- `agentpersistence.AgentToolCallStart`. -/
structure ToolCallStart where
  key : Key
  owner : Option Id
  token : Nat
  tool : Tool
  inputHash : Id
  authorization : Id
  costUnits : Nat
  maxToolCalls : Nat
  maxCostUnits : Nat
  now : Time
  deriving DecidableEq

/-- The payload with one more call in its ledger. -/
def begunRun (run : TaskRun) (start : ToolCallStart) (calls : Nat) : TaskRun :=
  { run with
    toolCallCount := calls, revision := run.revision + 1, updatedAt := start.now
    authorization := run.authorization ++ [start.authorization]
    invocations := run.invocations ++ [
      { ref := calls, tool := start.tool, inputHash := start.inputHash, status := "running"
        errorCode := "", authorization := start.authorization, costUnits := start.costUnits
        startedAt := start.now, finishedAt := none }] }

/-- What one more call makes of the budget. -/
def reserveCall (run : TaskRun) (start : ToolCallStart) : Except Error Nat :=
  match chargedCost run.invocations with
  | none => .error (rateLimited "agent.task.cost_budget_exceeded")
  | some used =>
    if start.costUnits = 0 ∨ start.maxCostUnits = 0 then
      .error (rateLimited "agent.task.cost_budget_exceeded")
    else match reserve ⟨start.maxToolCalls, start.maxCostUnits⟩ ⟨run.toolCallCount, used⟩
        ⟨1, start.costUnits⟩ with
      | .error .calls => .error (rateLimited "agent.task.tool_call_limit")
      | .error .cost => .error (rateLimited "agent.task.cost_budget_exceeded")
      | .ok next => .ok next.calls

/-- `agent_tool_call_store.go::BeginAgentToolCall`. -/
def beginAgentToolCall (start : ToolCallStart) : TaskTx Nat := do
  let row ← rowOf start.key (notFound "agent.task.not_found")
  demand (row.leased start.owner start.token) (conflict "agent.task.tool_fence_rejected")
  let calls ← check (fun _ => reserveCall row.run start)
  write (fun rows => rows.put (payloadRow row (begunRun row.run start calls)))
  pure calls

/-- `agentpersistence.AgentToolCallFinish`. -/
structure ToolCallFinish where
  key : Key
  owner : Option Id
  token : Nat
  ref : Nat
  status : String
  errorCode : String
  authorization : Option Id
  now : Time
  deriving DecidableEq

/-- The entry of a call that ended. -/
def finishedInvocation (item : Invocation) (finish : ToolCallFinish) : Invocation :=
  { item with
    status := finish.status, errorCode := finish.errorCode, finishedAt := some finish.now
    authorization := finish.authorization.getD item.authorization }

/-- End the first call under a reference. -/
def finishInvocations (finish : ToolCallFinish) : List Invocation → List Invocation
  | [] => []
  | item :: rest =>
    if item.ref = finish.ref then finishedInvocation item finish :: rest
    else item :: finishInvocations finish rest

/-- The payload with a call ended. -/
def finishedRun (run : TaskRun) (finish : ToolCallFinish) : TaskRun :=
  { run with
    invocations := finishInvocations finish run.invocations, updatedAt := finish.now
    revision := run.revision + 1
    authorization := run.authorization ++ finish.authorization.toList }

/-- `agent_tool_call_store.go::FinishAgentToolCall`. -/
def finishAgentToolCall (finish : ToolCallFinish) : TaskTx Unit := do
  let row ← rowOf finish.key (notFound "agent.task.not_found")
  demand (row.leased finish.owner finish.token) (conflict "agent.task.tool_fence_rejected")
  match row.run.invocations.find? (·.ref = finish.ref) with
  | none => Tx.fail (notFound "agent.task.tool_call_not_found")
  | some item =>
    if item.finishedAt ≠ none then pure ()
    else write (fun rows => rows.put (payloadRow row (finishedRun row.run finish)))

/-! ### What a writer finds -/

variable {rows : Rows}

/-- What a claim of one run takes. -/
def claimable (rows : Rows) (key : Key) (now : Time) : Option Row :=
  (rows.get? key).filter (·.eligible now)

/-- What a claim of the next run of a workspace takes. -/
def nextClaimable (rows : Rows) (workspaceID : Id) (now : Time) : Option Row :=
  (eligibleRows rows workspaceID now).head?

variable {now : Time} {row : Row}

theorem claimable_spec {key : Key} (found : claimable rows key now = some row) :
    rows.get? row.key = some row ∧ row.eligible now := by
  obtain ⟨stored, eligible⟩ := Option.filter_eq_some_iff.mp found
  exact ⟨Table.get?_key stored, of_decide_eq_true eligible⟩

theorem nextClaimable_spec {workspaceID : Id}
    (found : nextClaimable rows workspaceID now = some row) :
    rows.get? row.key = some row ∧ row.eligible now := by
  have member : row ∈ eligibleRows rows workspaceID now := List.mem_of_mem_head? found
  unfold eligibleRows at member
  have chosen := List.mem_filter.mp ((List.mem_insertionSort _).mp member)
  exact ⟨Table.get?_of_mem chosen.1, (of_decide_eq_true chosen.2).2⟩

theorem rowOf_ensures (key : Key) (missing : Error) {Q : Row → Rows → Prop} :
    (rowOf key missing).Ensures rows Q ↔ ∀ row, rows.get? key = some row → Q row rows := by
  simp only [rowOf, wp]

theorem saveRunning_ensures (run : TaskRun) (owner : Option Id) (token : Nat) :
    (saveRunning run owner token).Ensures rows fun _ rows' =>
      ∃ row, rows.get? run.key = some row ∧ row.leased owner token ∧
        rows' = rows.put (savedRow row run) := by
  simp only [saveRunning, wp, rowOf_ensures]
  exact fun row found leased => ⟨row, found, leased, rfl⟩

theorem saveWaitingApproval_ensures (run : TaskRun) (expectedRevision : Nat) :
    (saveWaitingApproval run expectedRevision).Ensures rows fun _ rows' =>
      ∃ row, rows.get? run.key = some row ∧ row.status = .waitingApproval ∧
        row.run.revision = expectedRevision ∧
        row.run.approval.map (·.proposalID) = run.approval.map (·.proposalID) ∧
          rows' = rows.put (statusRow row run) := by
  simp only [saveWaitingApproval, wp, rowOf_ensures]
  exact fun row found guard => ⟨row, found, guard.1, guard.2.1, guard.2.2.2, rfl⟩

end DomainryAgent.AgentTask
