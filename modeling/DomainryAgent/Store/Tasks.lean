import DomainryAgent.Store.Runs

/-!
Background tasks: acceptance, queueing, launch, agreement updates of tasks that
are not delegated, and the review of a completion.

A launch creates the run that executes the task and names it on the task, in
one transaction.  A task that is taken back keeps the runs it had in
`previousExecutionRuns`.

Where no file is named, a definition models the function of `conversation_task_store.go`
of its name.
-/

namespace DomainryAgent

open Lib Tx

/-- An accepted request for background work. -/
structure TaskStart where
  taskID : Id
  requestHash : Id
  goal : String
  brief : Brief
  conversationID : Id
  sourceRunID : Option Id
  agent : Option AgentRef
  budget : TaskBudget
  completionMode : CompletionMode
  followUp : Bool
  deriving DecidableEq

/-- The row a new task starts from. -/
def queuedTask (start : TaskStart) (origin : TaskOrigin) (a : Authority) (now : Time) : Task :=
  { id := start.taskID, authority := a, requestHash := start.requestHash, origin := origin
    followUp := start.followUp, status := .queued, goal := start.goal, brief := start.brief
    agreementRevision := 1, structuredInput := none, inputSource := none, budget := start.budget
    plan := none, agent := start.agent, delegationID := none
    sourceConversationID := start.conversationID, sourceRunID := start.sourceRunID
    executionConversationID := none, executionRunID := none, previousExecutionRuns := []
    errorCode := "", completionMode := start.completionMode, completion := none
    goalProgress := startedProgress start.brief, createdAt := now }

/-- Insert a task row. -/
def insertTask (task : Task) : StoreTx Unit :=
  insertRow (·.tasks) (fun t s => { s with tasks := t }) "_agent_conversation_tasks" task

/-- Accept a task once per idempotency key, for which its id stands: a repetition
must be the same request, and is answered with the task there is. -/
def acceptConversationTask (start : TaskStart) (origin : TaskOrigin) (conflictCode : String)
    (a : Authority) : StoreTx (Task × Bool) := do
  let existing ← read (fun s => s.tasks.get? start.taskID)
  match existing with
  | some task => do
    demand (task.requestHash = start.requestHash ∧
      conversationOwner task.authority = conversationOwner a ∧ task.origin = origin)
      (conflict conflictCode)
    pure (task, true)
  | none => do
    checkConversationQueueCapacity a
    let now ← read (·.now)
    let task := queuedTask start origin a now
    insertTask task
    pure (task, false)

/-- A source run, when one is named, must exist. -/
def checkSourceRun (conversationID : Id) (sourceRunID : Option Id) (a : Authority) :
    StoreTx Unit :=
  match sourceRunID with
  | none => pure ()
  | some runID => do
    let _ ← runRow conversationID runID a
    pure ()

def acceptScheduledConversationTask (start : TaskStart) (a : Authority) : StoreTx (Task × Bool) := do
  let c ← getConversation start.conversationID a
  checkSourceRun c.id start.sourceRunID a
  acceptConversationTask start .schedule "scheduled_task_idempotency_conflict" a

/-- A wake event names a related task that must have ended. -/
def checkRelatedTask (start : TaskStart) (relatedTaskID : Option Id) (a : Authority) :
    StoreTx Unit :=
  match relatedTaskID with
  | none => pure ()
  | some id => do
    let related ← taskRow id a
    demand (related.sourceConversationID = start.conversationID ∧
      related.agent.map (·.id) = start.agent.map (·.id)) (conflict "business_event_related_task_mismatch")
    demand (related.status.terminal = true) (conflict "business_event_related_task_active")

def acceptBusinessEventConversationTask (start : TaskStart) (relatedTaskID : Option Id)
    (a : Authority) : StoreTx (Task × Bool) := do
  demand (start.sourceRunID = none ∧ start.followUp = false ∧ start.agent.isSome = true)
    (conflict "business_event_task_input_conflict")
  let c ← getConversation start.conversationID a
  demand (c.agentID = start.agent.map (·.id)) (conflict "business_event_agent_mismatch")
  checkRelatedTask start relatedTaskID a
  acceptConversationTask start .businessEvent "business_event_task_idempotency_conflict" a

/-- `transitionQueuedConversationTask`, the
branch that resumes. -/
def resumeQueuedConversationTask (taskID : Id) (a : Authority) : StoreTx Unit := do
  conversationAuthority a
  let task ← taskRow taskID a
  if task.status = .queued then pure ()
  else do
    demand ((task.status = .awaitingReview ∧ task.executionRunID ≠ none) ∨
      (task.status = .cancelled ∧ task.executionRunID = none)) (conflict "task_resume_invalid")
    checkConversationQueueCapacity a
    saveTask (setConversationTaskGoalPhase
      { appendConversationTaskPreviousRun task with
        status := .queued, errorCode := "", executionRunID := none }) task.status

/-- `transitionQueuedConversationTask`, the
branch that cancels. -/
def cancelQueuedConversationTask (taskID : Id) (a : Authority) : StoreTx Unit := do
  conversationAuthority a
  let task ← taskRow taskID a
  if task.status.terminal = true then pure ()
  else do
    demand (task.status = .queued ∧ task.executionRunID = none) (conflict "task_cancel_invalid")
    saveTask (setConversationTaskGoalPhase { task with status := .cancelled }) task.status

/-! ### Launch -/

/-- The authority a task's source conversation is read under. -/
def launchSource (task : Task) : StoreTx Authority :=
  match task.delegationID with
  | none => pure task.authority
  | some id => do
    let subjects ← delegationSubjects id task.authority
    pure ((subjects.map (·.source)).getD task.authority)

/-- A task under a known identity that a schedule, an event, a delegation or a
run asked for. -/
def Task.launchable (task : Task) : Bool :=
  task.authority.known && (task.origin == .schedule || task.origin == .businessEvent ||
    task.delegationID.isSome || task.sourceRunID.isSome)

/-- The conversation a task runs in and its delegation; `none` passes over the
task.  Delegated work is launched only as the current, accepted assignment. -/
def launchTarget (task : Task) : StoreTx (Option (Conversation × Option Delegation)) := do
  let source ← launchSource task
  let found ← read (fun s => (s.conversations.get? task.sourceConversationID).filter
    (fun c => c.owner = conversationOwner source))
  match found with
  | none => pure none
  | some c =>
    match task.delegationID with
    | none => pure (some (c, none))
    | some id => do
      let d ← conversationDelegation id task.authority
      if d.status ≠ .accepted ∨ d.taskID ≠ task.id then pure none
      else do
        demand (task.agent.map (·.id) = some d.toAgentID ∧ task.brief.version = d.brief.version ∧
          task.executionConversationID = some d.conversationID) (conflict "delegation_task_invalid")
        let c ← getConversation d.conversationID task.authority
        pure (some (c, some d))

/-- The run a launch creates. -/
def launchedRun (task : Task) (runID : Id) (c : Conversation) (now : Time) : RunRow :=
  { authority := task.authority, owner := none, fence := 0, expires := 0, eventSeq := 0
    run :=
      { id := runID, conversationID := c.id
        clientMessageID := .background task.id (max 1 task.agreementRevision) task.brief.version
          task.previousExecutionRuns.length
        requestHash := .content task.id, agent := task.agent, status := .queued
        userSeq := c.lastSeq + 1, lastInputSeq := 0, attempt := 0, draftText := ""
        assistantMessageSeq := none, interaction := none, errorCode := "", createdAt := now
        background := some
          { taskID := task.id, briefVersion := task.brief.version
            agreementRevision := max 1 task.agreementRevision
            planVersion := (task.plan.map (·.version)).getD 0
            completionMode := task.completionMode, budget := task.budget
            delegationID := task.delegationID, handoff := task.handoff } } }

/-- A delegation starts to run with its task. -/
def launchDelegation (d : Option Delegation) (a : Authority) : StoreTx Unit :=
  match d with
  | none => pure ()
  | some d => saveConversationDelegation
      { d with status := .running, revision := d.revision + 1 } d.revision a

/-- Launch one task in the conversation found for it. -/
def launchTask (task : Task) (c : Conversation) (d : Option Delegation) (runID : Id) :
    StoreTx (Option Id) := do
  let source ← launchSource task
  checkSourceRun task.sourceConversationID task.sourceRunID source
  let now ← read (·.now)
  launchDelegation d task.authority
  saveConversation { c with lastSeq := c.lastSeq + 1 } c.revision task.authority
  insertMessage
    { conversationID := c.id, seq := c.lastSeq + 1, runID := runID, role := .user
      content := task.goal, backgroundTaskID := some task.id }
  let v ← event (launchedRun task runID c now) .queued
  insertRun v
  saveTask (setConversationTaskGoalPhase
    { task with status := .running, executionRunID := some runID }) .queued
  pure (some task.id)

/-- Launch a candidate, or pass over it. -/
def launchCandidate (runID : Id) (task : Task) : StoreTx (Option Id) :=
  if task.launchable = false then pure none
  else do
    let target ← launchTarget task
    match target with
    | none => pure none
    | some (c, d) =>
      if c.activeRunID ≠ none then pure none
      else launchTask task c d runID

/-- The queued tasks of a runtime, oldest first. -/
def launchCandidates (s : Db) (runtimeID : Id) : List Task :=
  (s.tasks.rows.filter (fun task => task.authority.runtimeID = runtimeID ∧
    task.status = .queued)).insertionSort
    (fun x y => earlier (x.createdAt, x.id) (y.createdAt, y.id) = true)

/-- `LaunchConversationTask`: the first
queued task that can be launched.  An error of a candidate ends the call. -/
def launchConversationTask (runtimeID runID : Id) : StoreTx (Option Id) := do
  let candidates ← read (launchCandidates · runtimeID)
  firstOf (launchCandidate runID) candidates

/-! ### Agreement updates and completion reviews -/

structure TaskAgreementUpdate where
  clientID : Id
  expectedRevision : Nat
  reason : String
  brief : Brief
  deriving DecidableEq

/-- `conversation_task_agreement_store.go::validStoredConversationTaskBrief`. -/
def validStoredConversationTaskBrief (brief : Brief) : Bool :=
  1 ≤ brief.version && executionText brief.goal 2048 true &&
  executionText brief.deliverable 2048 true && executionText brief.audience 512 true &&
  let constraints := brief.constraints.getD []
  let assumptions := brief.assumptions.getD []
  constraints.length ≤ 32 && 1 ≤ brief.conditions.length && brief.conditions.length ≤ 32 &&
  assumptions.length ≤ 32 &&
  (constraints ++ brief.conditions ++ assumptions).all (executionText · 2048 true)

/-- The task after its agreement changed: the run it had is over. -/
def amendedTask (task : Task) (brief : Brief) : Task :=
  let released := if task.executionRunID = none then task
    else { appendConversationTaskPreviousRun task with executionRunID := none, status := .cancelled }
  { released with
    goal := brief.goal, brief := brief, agreementRevision := max 1 task.agreementRevision + 1
    errorCode := "", completionMode := .assessed
    goalProgress := { task.goalProgress with
      remainingItems := brief.conditions, completedItems := [] } }

/-- `conversation_task_agreement_store.go::UpdateConversationTaskAgreement`. -/
def updateConversationTaskAgreement (taskID : Id) (input : TaskAgreementUpdate) (a : Authority) :
    StoreTx Unit := do
  conversationAuthority a
  demand (1 ≤ input.expectedRevision ∧ executionText input.reason 4096 true ∧
    validStoredConversationTaskBrief input.brief) (badRequest "task_agreement_invalid")
  let request := (input.brief, input.expectedRevision, input.reason)
  let existing ← read (fun s => s.taskAgreementUpdates.get? (taskID, input.clientID))
  match existing with
  | some record =>
    demand (record.requestHash = request) (conflict "task_agreement_idempotency_conflict")
  | none => do
    let task ← taskRow taskID a
    demand (task.delegationID = none) (conflict "task_agreement_delegated")
    demand (task.status ≠ .running) (conflict "task_agreement_active")
    demand (task.status ≠ .completed) (conflict "task_completed")
    demand (input.expectedRevision = max 1 task.agreementRevision ∧
      input.brief.version = max 1 task.brief.version + 1) (conflict "task_agreement_changed")
    let amended := amendedTask task input.brief
    let out ← supersedeConversationTaskPlan amended amended.agreementRevision
      (conversationPlanBriefFields task.brief input.brief)
      ("Task agreement changed: " ++ trimSpace input.reason)
    saveTask (setConversationTaskGoalPhase out) task.status
    insertRow (·.taskAgreementUpdates) (fun t s => { s with taskAgreementUpdates := t })
      "_agent_conversation_task_agreement_updates"
      { taskID := taskID, clientID := input.clientID, requestHash := request }

/-- A review of what a task handed in. -/
structure CompletionReview where
  clientID : CompletionClient
  requestHash : Id
  expectedRevision : Nat
  deliveryDigest : CompletionDelivery
  judgment : CompletionJudgment
  /-- The identity and the run of the agent that reviews; none for a user. -/
  tool : Option (Authority × RunReference)
  reason : String
  deriving DecidableEq

/-- The reviewer is the caller, and the run it reviews from exists. -/
def checkReviewer (tool : Option (Authority × RunReference)) (a : Authority) : StoreTx CheckMethod :=
  match tool with
  | none => pure .user
  | some (reviewer, source) => do
    demand (reviewer.userID = a.userID ∧ reviewer.workspaceID = a.workspaceID)
      (forbidden "task_completion_actor_invalid")
    let _ ← runRow source.conversationID source.runID a
    pure .agent

/-- The record a review adds: the submission stays, its verification is new. -/
def reviewedCompletion (record : CompletionRecord) (verification : CompletionVerification)
    (method : CheckMethod) (reason : String) : CompletionRecord :=
  { revision := record.revision + 1, kind := .review method, submission := record.submission
    verification := verification, reason := trimSpace reason }

/-- The task with the completion a review adds to it. -/
def reviewedTask (task : Task) (completion : CompletionRecord) : Task :=
  setConversationTaskGoalPhase (if completion.verification.ready then
    { task with completion := some completion, status := .completed, errorCode := "" }
  else { task with completion := some completion })

/-- `conversation_task_completion_store.go::ReviewConversationTaskCompletion`. -/
def reviewConversationTaskCompletion (taskID : Id) (review : CompletionReview) (a : Authority) :
    StoreTx Unit := do
  conversationAuthority a
  let saved ← read (fun s => s.completions.rows.find? (fun row =>
    row.taskID = taskID ∧ row.clientID = review.clientID))
  match saved with
  | some row =>
    demand (row.requestHash = some review.requestHash)
      (conflict "task_completion_idempotency_conflict")
  | none => do
    let task ← taskRow taskID a
    let record ← require task.completion (conflict "task_completion_changed")
    demand (task.status = .awaitingReview ∧ record.revision = review.expectedRevision ∧
      review.deliveryDigest = record.verification.deliveryDigest ∧
      record.submission.agreementRevision = task.revision) (conflict "task_completion_changed")
    let method ← checkReviewer review.tool a
    let verification ← check (fun _ =>
      evaluateTaskCompletion task record.submission review.judgment)
    let completion := reviewedCompletion record verification method review.reason
    saveTask (reviewedTask task completion) task.status
    insertTaskCompletion
      { taskID := taskID, clientID := review.clientID, requestHash := some review.requestHash
        completion := completion }

end DomainryAgent
