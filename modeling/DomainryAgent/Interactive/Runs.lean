import DomainryAgent.Lib.System
import DomainryAgent.Store.Plans

/-!
Interactive runs and those who write to one of them.

A writer reads the run, changes it and saves it with the revision it has read.
`SaveInteractiveRun` compares revisions in one statement and writes in another,
and the second goes by the column `updated_at`, the stamp of the run cut to
milliseconds.  A handoff to a task compares, inserts the task and writes in one
transaction, but its write goes by the same column.

Stamps are kept as they are read off the clock, in nanoseconds.
-/

namespace DomainryAgent.Interactive

open Lib

/-! ### Records -/

/-- A reading of the clock, in nanoseconds. -/
abbrev Instant := Nat

/-- `Time.UnixMilli`. -/
def unixMilli (instant : Instant) : Time := instant / 1000000

/-- `agentmodel.AgentInteractiveRunStatus`. -/
inductive RunStatus where
  | running
  | completed
  | failed
  | handedOff
  deriving DecidableEq

/-- `AgentInteractiveRunStatus.Terminal`. -/
def RunStatus.terminal : RunStatus → Bool
  | running => false
  | completed | failed | handedOff => true

/-- `agentmodel.AgentTaskToolInvocationEvidence`. -/
structure ToolEvidence where
  ref : String
  tool : String
  deriving DecidableEq

/-- `agentmodel.AgentInteractiveRun`. -/
structure InteractiveRun where
  id : Id
  workspaceID : Id
  status : RunStatus
  structuredResult : String
  errorCode : String
  toolCallCount : Nat
  toolInvocations : List ToolEvidence
  routeType : String
  routedTargetKey : String
  routedTargetVersion : String
  processID : String
  taskRunID : Option Id
  updatedAt : Instant
  completedAt : Option Instant
  revision : Nat
  deriving DecidableEq

/-- A row of `_agent_interactive_runs`. -/
structure RunRow where
  payload : InteractiveRun
  updatedAt : Time
  deriving DecidableEq

/-- The row of a run. -/
def InteractiveRun.row (run : InteractiveRun) : RunRow := ⟨run, unixMilli run.updatedAt⟩

/-- A row of `_agent_task_runs`. -/
structure TaskRow where
  id : Id
  workspaceID : Id
  interactiveRunID : Option Id
  taskKey : String
  taskVersion : String
  processID : String
  idempotencyKey : String
  deriving DecidableEq

abbrev TaskRow.key (task : TaskRow) : Id × Id := (task.workspaceID, task.id)

/-- One interactive run and the tasks. -/
structure Store where
  row : RunRow
  tasks : Table TaskRow.key

/-- `agentpersistence.AgentInteractiveRoute`. -/
structure Route where
  routeType : String
  targetKey : String
  targetVersion : String
  idempotencyKey : String

/-! ### The store -/

/-- `SaveInteractiveRun` up to its update: the stamp it will go by. -/
def lookInteractiveRun (row : RunRow) (run : InteractiveRun) (expectedRevision : Nat) :
    Option Time :=
  if row.payload.id = run.id ∧ row.payload.workspaceID = run.workspaceID ∧
      row.payload.revision = expectedRevision then
    some (unixMilli row.payload.updatedAt)
  else none

/-- `agent_interactive_run_store.go::interactiveRunUpdateBuilder`. -/
def updateInteractiveRun (row : RunRow) (run : InteractiveRun) (expectedUpdatedAt : Time) :
    Option RunRow :=
  if row.payload.id = run.id ∧ row.payload.workspaceID = run.workspaceID ∧
      row.updatedAt = expectedUpdatedAt then some run.row
  else none

/-- The run after a handoff to a task. -/
def handedOffRun (current run : InteractiveRun) (task : TaskRow) (now : Instant) :
    InteractiveRun :=
  { current with
    status := .handedOff, routeType := run.routeType, routedTargetKey := run.routedTargetKey
    routedTargetVersion := run.routedTargetVersion, processID := task.processID
    taskRunID := some task.id, updatedAt := now, completedAt := some now
    revision := current.revision + 1 }

/-- A violated constraint of the task table. -/
def taskTaken : Error := ⟨.constraint, "_agent_task_runs"⟩

/-- `agent_interactive_run_store.go::CommitInteractiveTaskHandoff`.  The
flag says whether the run had been handed off before. -/
def commitInteractiveTaskHandoff (run : InteractiveRun) (expectedRevision : Nat) (task : TaskRow)
    (now : Instant) : Tx Store Error (InteractiveRun × Bool) := do
  let current ← Tx.read fun store : Store => store.row.payload
  if current.taskRunID ≠ none then pure (current, true)
  else
    Tx.demand (current.revision = expectedRevision ∧ current.status = .running ∧
      current.workspaceID = task.workspaceID ∧ task.interactiveRunID = some current.id)
      (conflict "agent.interactive.handoff_conflict")
    let tasks ← Tx.read fun store : Store => store.tasks
    Tx.demand (tasks.rows.all fun other => !(other.workspaceID == task.workspaceID &&
      other.idempotencyKey == task.idempotencyKey)) taskTaken
    let inserted ← Tx.require (tasks.insert? task) taskTaken
    let updated ← Tx.read fun store : Store =>
      updateInteractiveRun store.row (handedOffRun current run task now) (unixMilli run.updatedAt)
    let row ← Tx.require updated (conflict "agent.interactive.handoff_conflict")
    Tx.write fun _ => ⟨row, inserted⟩
    pure (row.payload, false)

/-! ### The service -/

/-- `interactive_state_service.go::Complete`, up to the run it saves. -/
def complete (run : InteractiveRun) (status : RunStatus) (result errorCode : String)
    (now : Instant) : Except Error InteractiveRun :=
  if run.status ≠ .running ∨ status.terminal = false ∨ status = .handedOff then
    .error (conflict "agent.interactive.transition_invalid")
  else .ok { run with
    status := status, structuredResult := result, errorCode := trimSpace errorCode
    updatedAt := now, completedAt := some now, revision := run.revision + 1 }

/-- `interactive_state_service.go::RecordToolInvocation`, up to the run it
saves. -/
def recordToolInvocation (run : InteractiveRun) (evidence : ToolEvidence) (now : Instant) :
    Except Error InteractiveRun :=
  if run.status ≠ .running ∨ trimSpace evidence.ref = "" ∨ trimSpace evidence.tool = "" then
    .error (conflict "agent.interactive.tool_evidence_invalid")
  else .ok { run with
    toolCallCount := run.toolCallCount + 1
    toolInvocations := run.toolInvocations ++ [evidence]
    updatedAt := now, revision := run.revision + 1 }

/-- `interactive_state_service.go::HandoffWorkflow`, up to the run it
saves. -/
def handoffWorkflow (run : InteractiveRun) (route : Route) (processID : String) (now : Instant) :
    Except Error InteractiveRun :=
  if run.status ≠ .running ∨ route.routeType ≠ "workflow" ∨ trimSpace route.targetKey = "" ∨
      trimSpace route.idempotencyKey = "" ∨ trimSpace processID = "" then
    .error (conflict "agent.interactive.handoff_invalid")
  else .ok { run with
    status := .handedOff, routeType := route.routeType, routedTargetKey := route.targetKey
    routedTargetVersion := route.targetVersion, processID := trimSpace processID
    updatedAt := now, completedAt := some now, revision := run.revision + 1 }

/-- What `HandoffWorkflow` answers when its run was not saved. -/
def recheckWorkflow (current : InteractiveRun) (route : Route) (processID : String) :
    Except Error (InteractiveRun × Bool) :=
  if current.status = .handedOff ∧ current.routeType = route.routeType ∧
      current.routedTargetKey = route.targetKey ∧ current.processID = processID then
    .ok (current, true)
  else .error (conflict "agent.interactive.handoff_conflict")

/-- `interactive_state_service.go::HandoffTask`. -/
def handoffTask (run : InteractiveRun) (route : Route) (task : TaskRow) (now : Instant) :
    Tx Store Error (InteractiveRun × Bool) :=
  if run.status ≠ .running ∨ route.routeType ≠ "agent_task" ∨
      trimSpace route.targetKey ≠ task.taskKey ∨ trimSpace route.targetVersion ≠ task.taskVersion ∨
      trimSpace route.idempotencyKey = "" then
    Tx.fail (conflict "agent.interactive.handoff_invalid")
  else
    commitInteractiveTaskHandoff
      { run with
        routeType := route.routeType, routedTargetKey := route.targetKey
        routedTargetVersion := route.targetVersion }
      run.revision { task with interactiveRunID := some run.id } now

/-! ### Writers -/

/-- What a writer does with the run it has read. -/
inductive Call where
  | complete (status : RunStatus) (result errorCode : String)
  | recordToolInvocation (evidence : ToolEvidence)
  | handoffWorkflow (route : Route) (processID : String)
  | handoffTask (route : Route) (task : TaskRow)
  /-- A save made through the repository itself. -/
  | save (value : InteractiveRun)

/-- A writer, before its next statement. -/
inductive Writer where
  /-- It has read the run. -/
  | holding (run : InteractiveRun)
  /-- `SaveInteractiveRun` was called. -/
  | saving (run value : InteractiveRun) (call : Call)
  /-- It has found the revision it expected. -/
  | updating (run value : InteractiveRun) (expectedUpdatedAt : Time) (call : Call)
  /-- A handoff to a workflow was not saved. -/
  | checking (run : InteractiveRun) (route : Route) (processID : String)

/-- What a writer that had read `revision` was answered; the flag marks an
answer that wrote nothing because the run had been handed off before. -/
structure Outcome where
  revision : Nat
  answer : Except Error (InteractiveRun × Bool)

/-- The writer's change was stored. -/
def Outcome.stored (outcome : Outcome) : Bool :=
  match outcome.answer with
  | .ok (_, replayed) => !replayed
  | .error _ => false

/-- The store, the writers, what they were answered and the tasks the run was
handed to. -/
structure Switchboard where
  store : Store
  writers : Id → Option Writer
  outcomes : List Outcome
  handedTo : List Id

namespace Switchboard

/-- A run as it is created, beside any tasks. -/
def initial (run : InteractiveRun) (tasks : Table TaskRow.key) : Switchboard :=
  ⟨⟨run.row, tasks⟩, fun _ => none, [], []⟩

def become (w : Switchboard) (writer : Id) (next : Option Writer) : Switchboard :=
  { w with writers := Function.update w.writers writer next }

/-- The writer is answered. -/
def finish (w : Switchboard) (writer : Id) (run : InteractiveRun)
    (answer : Except Error (InteractiveRun × Bool)) : Switchboard :=
  { w with
    writers := Function.update w.writers writer none
    outcomes := ⟨run.revision, answer⟩ :: w.outcomes }

/-- The run was not saved. -/
def notSaved (w : Switchboard) (writer : Id) (run : InteractiveRun) : Call → Switchboard
  | .handoffWorkflow route processID => w.become writer (some (.checking run route processID))
  | _ => w.finish writer run (.error (conflict "agent.interactive.revision_conflict"))

/-- The run a call saves; a handoff to a task does not save. -/
def prepared (run : InteractiveRun) (now : Instant) : Call → Option (Except Error InteractiveRun)
  | .complete status result errorCode => some (Interactive.complete run status result errorCode now)
  | .recordToolInvocation evidence => some (Interactive.recordToolInvocation run evidence now)
  | .handoffWorkflow route processID => some (Interactive.handoffWorkflow run route processID now)
  | .save value => some (.ok value)
  | .handoffTask _ _ => none

/-- The handoff to a task, in one transaction. -/
def handOff (w : Switchboard) (writer : Id) (run : InteractiveRun) (route : Route) (task : TaskRow)
    (now : Instant) : Switchboard :=
  match handoffTask run route task now w.store with
  | .error e => w.finish writer run (.error e)
  | .ok ((answer, replayed), store) =>
    let w' := w.finish writer run (.ok (answer, replayed))
    { w' with
      store := store
      handedTo := if replayed then w.handedTo else task.id :: w.handedTo }

/-- A writer that holds the run makes its call. -/
def begin (w : Switchboard) (writer : Id) (run : InteractiveRun) (call : Call) (now : Instant) :
    Switchboard :=
  match call with
  | .handoffTask route task => w.handOff writer run route task now
  | _ =>
    match prepared run now call with
    | some (.ok value) => w.become writer (some (.saving run value call))
    | some (.error e) => w.finish writer run (.error e)
    | none => w

/-- The next statement of a writer. -/
def proceed (w : Switchboard) (writer : Id) : Writer → Switchboard
  | .holding _ => w
  | .saving run value call =>
    match lookInteractiveRun w.store.row value run.revision with
    | some expected => w.become writer (some (.updating run value expected call))
    | none => w.notSaved writer run call
  | .updating run value expected call =>
    match updateInteractiveRun w.store.row value expected with
    | some row =>
      let w' := w.finish writer run (.ok (value, false))
      { w' with store := { w.store with row := row } }
    | none => w.notSaved writer run call
  | .checking run route processID =>
    w.finish writer run (recheckWorkflow w.store.row.payload route processID)

end Switchboard

inductive Action where
  | read (writer : Id)
  | call (writer : Id) (call : Call) (now : Instant)
  | advance (writer : Id)
  | crash (writer : Id)

def Switchboard.step (w : Switchboard) : Action → Switchboard
  | .read writer => w.become writer (some (.holding w.store.row.payload))
  | .call writer call now =>
    match w.writers writer with
    | some (.holding run) => w.begin writer run call now
    | _ => w
  | .advance writer =>
    match w.writers writer with
    | some state => w.proceed writer state
    | none => w
  | .crash writer => w.become writer none

end DomainryAgent.Interactive
