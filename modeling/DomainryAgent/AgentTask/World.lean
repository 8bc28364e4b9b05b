import DomainryAgent.AgentTask.State
import DomainryAgent.Lib.System

/-!
Workers, callers and operators over one table of task runs.

Every statement and every transaction is one action.  A call that needs several
of them stands in `calls` between two, with the copy of the run it has read; a
worker that crashes loses its calls.  Each action has
its own clock.  `log` keeps what happened outside the table, the newest first.

Where no file is named, a definition models the function of `task_execution_service.go`
of its name.
-/

namespace DomainryAgent.AgentTask

open Lib

/-! ### Calls in progress -/

/-- On whose behalf an approval is resolved. -/
inductive Resolver where
  /-- A decision on the proposal: the workflow is notified afterwards. -/
  | proposal
  /-- A cancel request that found the run waiting. -/
  | cancel
  /-- The deadline of the approval. -/
  | deadline
  deriving DecidableEq

inductive Call where
  /-- `executeClaim` before it asks anyone. -/
  | execute (run : TaskRun)
  /-- `executeClaim` with the provider started. -/
  | provider (run : TaskRun)
  /-- `notifyWorkflow` with the run it was given. -/
  | notify (run : TaskRun)
  /-- `MarkWorkflowCompletionDelivered` before it reads. -/
  | mark (key : Key)
  | markWrite (copy : TaskRun) (now : Time)
  /-- `Heartbeat` after its first update. -/
  | heartbeatRead (key : Key) (owner : Option Id) (token : Nat) (now : Time) (duration : Nat)
  | heartbeatWrite (copy : TaskRun) (owner : Option Id) (token : Nat) (now : Time) (duration : Nat)
  /-- `Invoke` before and after the call of the host, and before it waits. -/
  | beginTool (copy : TaskRun) (tool : Tool) (inputHash authorization : Id)
  | finishTool (copy : TaskRun) (ref : Nat)
  | awaitApproval (copy : TaskRun) (proposalID : Id)
  /-- `RequestCancel` after its read, and after an update that missed. -/
  | cancelWrite (copy : TaskRun) (reason : String) (now : Time)
  | cancelRead (key : Key)
  /-- `ResolveApproval` before its read and before its write. -/
  | resolve (key : Key) (resolution : Resolution) (resolver : Resolver)
  | resolveWrite (copy : TaskRun) (resolution : Resolution) (now : Time) (resolver : Resolver)
  | operateWrite (copy : TaskRun) (operation : Operation) (now : Time)
  | overrideWrite (copy : TaskRun) (output : String) (now : Time)
  deriving DecidableEq

/-- What a provider came back with.  An outcome is `accepted` when the
authorization allows it and the output meets its schema. -/
inductive TaskResult where
  | completed (outcome output : String) (authorization : Id) (accepted : Bool)
  | cancelled
  | failed
  | unknown
  deriving DecidableEq

/-- What the host made of a tool call, and the proposal it asks to wait for. -/
structure ToolResult where
  status : String
  errorCode : String
  authorization : Option Id
  proposal : Option Id
  deriving DecidableEq

/-- What the outside answers when a call is taken up. -/
inductive Reply where
  | silent
  /-- An authorization, a credential, an attachment or the provider failed;
  `failClaim` reads the clock once more for the next attempt. -/
  | failed (errorCode : String) (retryable : Bool) (computedAt : Time)
  | started
  | result (result : TaskResult)
  | acknowledged
  | tool (result : ToolResult)
  deriving DecidableEq

inductive Action where
  | start (request : Request) (now : Time)
  | claim (key : Key) (owner : Id) (now : Time) (duration : Nat)
  | claimNext (workspaceID owner : Id) (now : Time) (duration : Nat)
  | heartbeat (key : Key) (owner : Option Id) (token : Nat) (now : Time) (duration : Nat)
  | invoke (key : Key) (tool : Tool) (inputHash authorization : Id)
  | requestCancel (key : Key) (reason : String) (now : Time)
  /-- A decision on a proposal, or the deadline of an approval. -/
  | resolve (key : Key) (resolution : Resolution) (decided : Bool)
  | operate (key : Key) (operation : Operation) (now : Time)
  | override (key : Key) (output : String) (now : Time)
  /-- A poll or a recovery pass looks at a run. -/
  | observe (key : Key)
  | resume (call : Call) (reply : Reply) (now : Time)
  /-- The process a call runs in is gone. -/
  | crash (call : Call)
  deriving DecidableEq

inductive Event where
  | claimed (key : Key) (owner : Id) (token : Nat)
  | started (key : Key) (token : Nat)
  /-- The host took a completion with this status, outcome and output. -/
  | acknowledged (key : Key) (status : Status) (outcome : String) (output : Option Output)
  /-- The run was marked delivered with this status, outcome and output. -/
  | marked (key : Key) (status : Status) (outcome : String) (output : Option Output)
  | cancelReturned (key : Key)
  | resolved (key : Key) (token : Nat) (decision : Decision)
  deriving DecidableEq

structure World where
  rows : Rows
  calls : List Call
  log : List Event

/-- No run yet. -/
def World.empty : World := ⟨.empty, [], []⟩

/-! ### What one action does -/

/-- The table an action leaves, the calls it starts and what happened. -/
structure Turn where
  rows : Rows
  calls : List Call
  events : List Event

/-- Nothing. -/
def Turn.idle (rows : Rows) : Turn := ⟨rows, [], []⟩

/-- A transaction and what follows from its result; a failed one ends the
call. -/
def Turn.of {α : Type} (rows : Rows) (tx : TaskTx α) (follow : α → List Call × List Event) : Turn :=
  match tx rows with
  | .ok (a, rows') => ⟨rows', (follow a).1, (follow a).2⟩
  | .error _ => .idle rows

/-- Go on with the run that is stored. -/
def Turn.reading (rows : Rows) (key : Key) (follow : TaskRun → List Call × List Event) : Turn :=
  match rows.get? key with
  | some row => ⟨rows, (follow row.run).1, (follow row.run).2⟩
  | none => .idle rows

/-- The workflow of a run is notified. -/
def notifies (run : TaskRun) : List Call :=
  if run.processID.isSome = true ∧ run.status.terminal = true then [.notify run] else []

/-- A claim starts its execution. -/
def claimed (owner : Id) : Option TaskRun → List Call × List Event
  | none => ([], [])
  | some run => ([.execute run], [.claimed run.key owner run.lease.token])

/-- `failClaim`, the copy it hands on. -/
def failingRun (run : TaskRun) (retryable : Bool) : TaskRun :=
  if run.processID.isSome = true ∧ (retryable = false ∨ run.maxAttempts ≤ run.attempt) then
    { run with reconciliation := callbackPending }
  else run

/-- When the next attempt is due, in milliseconds. -/
def nextAttempt (run : TaskRun) (computedAt : Time) : Time :=
  computedAt + 1000 * 2 ^ min run.attempt 10

def failClaim (rows : Rows) (run : TaskRun) (errorCode : String) (retryable : Bool)
    (computedAt now : Time) : Turn :=
  .of rows (failAttempt (failingRun run retryable) run.lease.owner run.lease.token errorCode
      retryable (nextAttempt run computedAt) now)
    fun failed => (if failed.status = .retryScheduled then [] else notifies failed, [])

/-- The callback a completion leaves on its run. -/
def completionCallback (run : TaskRun) : Reconciliation :=
  if run.processID.isSome = true then callbackPending else .empty

/-- The completion of a run that was cancelled. -/
def cancelledCompletion (run : TaskRun) : Completion :=
  { status := .cancelled, outcome := "cancelled", output := none, errorCode := "agent.task.cancelled"
    authorization := run.authorization, reconciliation := completionCallback run }

/-- Complete a run and notify its workflow. -/
def completeClaim (rows : Rows) (run : TaskRun) (completion : Completion) (now : Time) : Turn :=
  .of rows (complete run run.lease.owner run.lease.token completion now)
    fun completed => (notifies completed, [])

def cancelClaim (rows : Rows) (run : TaskRun) (now : Time) : Turn :=
  completeClaim rows run (cancelledCompletion run) now

def taskStatusForOutcome (outcome : String) : Status :=
  if outcome = "success" then .succeeded
  else if outcome = "manual_review" then .manualReview
  else if outcome = "rejected" then .rejected
  else if outcome = "no_result" then .noResult
  else .failed

def taskCompletion (run : TaskRun) : TaskResult → Option Completion
  | .completed outcome output authorization accepted =>
    if accepted = true then some
      { status := taskStatusForOutcome outcome, outcome := outcome, output := some (.value output)
        errorCode := "", authorization := run.authorization ++ [authorization]
        reconciliation := completionCallback run }
    else none
  | .cancelled => some (cancelledCompletion run)
  | .failed | .unknown => none

/-- `executeClaim`, up to the provider's start. -/
def executeClaim (rows : Rows) (run : TaskRun) (reply : Reply) (now : Time) : Turn :=
  if run.cancelRequestedAt.isSome = true then cancelClaim rows run now
  else match reply with
    | .failed errorCode retryable computedAt =>
      failClaim rows run errorCode retryable computedAt now
    | .started => ⟨rows, [.provider run], [.started run.key run.lease.token]⟩
    | _ => .idle rows

/-- `executeClaim`, after the provider's start. -/
def settleClaim (rows : Rows) (run : TaskRun) (reply : Reply) (now : Time) : Turn :=
  match reply with
  | .failed errorCode retryable computedAt => failClaim rows run errorCode retryable computedAt now
  | .result result =>
    match taskCompletion run result with
    | some completion => completeClaim rows run completion now
    | none => failClaim rows run "agent.task.output_invalid" false now now
  | _ => .idle rows

/-- `task_tool_service.go::Invoke`, up to the ledger. -/
def invokeTool (rows : Rows) (key : Key) (tool : Tool) (inputHash authorization : Id) : Turn :=
  .reading rows key fun run =>
    if run.status = .running ∧ run.cancelRequestedAt = none ∧ run.lease.owner.isSome = true ∧
        0 < run.lease.token then ([.beginTool run tool inputHash authorization], [])
    else ([], [])

/-- The call `Invoke` asks the ledger to begin. -/
def toolCallStart (copy : TaskRun) (tool : Tool) (inputHash authorization : Id) (now : Time) :
    ToolCallStart :=
  { key := copy.key, owner := copy.lease.owner, token := copy.lease.token, tool := tool
    inputHash := inputHash, authorization := authorization, costUnits := agentToolCostUnits tool
    maxToolCalls := agentTaskMaxToolCalls copy.maxToolCalls
    maxCostUnits := agentTaskMaxCostUnits copy.maxCostUnits, now := now }

/-- `task_tool_service.go::finishToolCall`. -/
def toolCallFinish (copy : TaskRun) (ref : Nat) (result : ToolResult) (now : Time) :
    ToolCallFinish :=
  { key := copy.key, owner := copy.lease.owner, token := copy.lease.token, ref := ref
    status := result.status, errorCode := result.errorCode, authorization := result.authorization
    now := now }

/-- How a cancel request ends with the run it has in hand: a waiting one is
resolved first. -/
def cancelOutcome (run : TaskRun) : List Call × List Event :=
  match run.approval with
  | some approval =>
    if run.status = .waitingApproval then
      ([.resolve run.key ⟨approval.proposalID, .cancelled, none, run.cancellationReason, none⟩
        .cancel], [])
    else ([], [.cancelReturned run.key])
  | none => ([], [.cancelReturned run.key])

/-- `task_state_service.go::RequestCancel` and
`agent_task_transition_store.go::RequestCancel`, up to the update. -/
def requestCancel (rows : Rows) (key : Key) (reason : String) (now : Time) : Turn :=
  .reading rows key fun run =>
    if run.status.terminal = true ∨ run.cancelRequestedAt.isSome = true then cancelOutcome run
    else ([.cancelWrite run reason now], [])

/-- How `ResolveApproval` ends for the one who asked. -/
def resolvedOutcome (run : TaskRun) : Resolver → List Call × List Event
  | .proposal => (notifies run, [])
  | .cancel => ([], [.cancelReturned run.key])
  | .deadline => ([], [])

/-- The fencing token of a run. -/
def tokenOf (rows : Rows) (key : Key) : Nat := ((rows.get? key).map (·.fencingToken)).getD 0

/-- Take up a call. -/
def resumeCall (rows : Rows) (call : Call) (reply : Reply) (now : Time) : Turn :=
  match call with
  | .execute run => executeClaim rows run reply now
  | .provider run => settleClaim rows run reply now
  | .notify run =>
    match reply with
    | .acknowledged =>
      ⟨rows, [.mark run.key], [.acknowledged run.key run.status run.outcome run.output]⟩
    | _ => .idle rows
  | .mark key => .reading rows key fun run => (if marks run then [.markWrite run now] else [], [])
  | .markWrite copy stamp => .of rows (saveTerminalOverride (deliveredRun copy stamp) copy.revision)
      fun _ => ([], [.marked copy.key copy.status copy.outcome copy.output])
  | .heartbeatRead key owner token stamp duration => .reading rows key fun run =>
      ([.heartbeatWrite run owner token stamp duration], [])
  | .heartbeatWrite copy owner token stamp duration =>
    .of rows (heartbeatWrite (beatRun copy stamp (stamp + duration)) owner token) fun _ => ([], [])
  | .beginTool copy tool inputHash authorization =>
    .of rows (beginAgentToolCall (toolCallStart copy tool inputHash authorization now))
      fun ref => ([.finishTool copy ref], [])
  | .finishTool copy ref =>
    match reply with
    | .tool result => .of rows (finishAgentToolCall (toolCallFinish copy ref result now))
        fun _ => ((result.proposal.map (Call.awaitApproval copy)).toList, [])
    | _ => .idle rows
  | .awaitApproval copy proposalID =>
    .of rows (waitForApproval copy copy.lease.owner copy.lease.token proposalID now)
      fun _ => ([], [])
  | .cancelWrite copy reason stamp => .of rows (cancelWrite copy reason stamp) fun updated =>
      if updated then cancelOutcome (cancelledRun copy reason stamp) else ([.cancelRead copy.key], [])
  | .cancelRead key => .reading rows key cancelOutcome
  | .resolve key resolution resolver => .reading rows key fun run =>
      match resolveApproval run resolution now with
      | .ok .replayed => resolvedOutcome run resolver
      | .ok (.save _) => ([.resolveWrite run resolution now resolver], [])
      | .error _ => ([], [])
  | .resolveWrite copy resolution stamp resolver =>
    match resolveApproval copy resolution stamp with
    | .ok (.save run) => .of rows (saveWaitingApproval run copy.revision) fun _ =>
        ((resolvedOutcome run resolver).1,
          (resolvedOutcome run resolver).2 ++
            [.resolved copy.key (tokenOf rows copy.key) resolution.decision])
    | _ => .idle rows
  | .operateWrite copy operation stamp =>
    match operate copy operation stamp with
    | .ok (.save run) => .of rows (saveOperationalTransition run copy.status copy.revision)
        fun _ => ([], [])
    | _ => .idle rows
  | .overrideWrite copy output stamp =>
    .of rows (saveTerminalOverride (overriddenRun copy output stamp) copy.revision) fun _ => ([], [])

def turn (rows : Rows) : Action → Turn
  | .start request now => .of rows (create (newRow request now)) fun _ => ([], [])
  | .claim key owner now duration =>
    .of rows (claimAgentTaskRunOnce key owner now duration) (claimed owner)
  | .claimNext workspaceID owner now duration =>
    .of rows (claimNextOnce workspaceID owner now duration) (claimed owner)
  | .heartbeat key owner token now duration =>
    .of rows (heartbeatTouch key owner token now duration) fun touched =>
      (if touched then [.heartbeatRead key owner token now duration] else [], [])
  | .invoke key tool inputHash authorization => invokeTool rows key tool inputHash authorization
  | .requestCancel key reason now => requestCancel rows key reason now
  | .resolve key resolution decided =>
    ⟨rows, [.resolve key resolution (if decided then .proposal else .deadline)], []⟩
  | .operate key operation now => .reading rows key fun run =>
      match operate run operation now with
      | .ok (.save _) => ([.operateWrite run operation now], [])
      | _ => ([], [])
  | .override key output now => .reading rows key fun run =>
      (if run.status.terminal = true then [.overrideWrite run output now] else [], [])
  | .observe key => .reading rows key fun run =>
      (if run.reconciliation.required = true ∧ run.reconciliation.state = .pending then notifies run
        else [], [])
  | .resume call reply now => resumeCall rows call reply now
  | .crash _ => .idle rows

/-- The action takes up a call that is not in progress. -/
def Action.stray (w : World) : Action → Bool
  | .resume call _ _ | .crash call => decide (call ∉ w.calls)
  | _ => false

/-- The calls that are left when an action takes one up. -/
def Action.left (w : World) : Action → List Call
  | .resume call _ _ | .crash call => w.calls.erase call
  | _ => w.calls

def step (w : World) (action : Action) : World :=
  if action.stray w = true then w
  else
    let t := turn w.rows action
    ⟨t.rows, t.calls ++ action.left w, t.events ++ w.log⟩

end DomainryAgent.AgentTask
