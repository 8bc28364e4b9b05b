import DomainryAgent.Store.Plans

/-!
The progress and the completion of a background task.

A task records the phase of its goal beside its status; every write that changes
the status is meant to set the phase with it.  A completion is recorded with
what was handed in, under the next revision of the task's completion history.

Where no file is named, a definition models the function of `conversation_task_completion_store.go`
of its name.
-/

namespace DomainryAgent

open Lib

/-! ### Progress -/

/-- `conversation_task_store.go::conversationTaskBudgetExhausted`. -/
def conversationTaskBudgetExhausted (code : String) : Bool :=
  code = "execution_limit" || code = "work_budget_exhausted" ||
  code = "work_budget_provider_usage_exceeded" || code = "agent.task.cost_budget_exceeded" ||
  code = "agent.task.tool_call_limit"

/-- The status, the phase and the blocker of a goal, by the status and the error
of its task. -/
def goalState (status : TaskStatus) (errorCode : String) : GoalStatus × GoalPhase × String :=
  match status with
  | .queued => (.active, .queued, "")
  | .running => (.active, .executing, "")
  | .awaitingReview => (.blocked, .awaitingReview, "completion_review_required")
  | .completed => (.completed, .completed, "")
  | .cancelled => (.paused, .paused, "")
  | .failed =>
    if conversationTaskBudgetExhausted errorCode then
      (.budgetExhausted, .budgetExhausted, errorCode)
    else (.blocked, .failed, errorCode)

/-- The phase a task should record. -/
def goalPhase (status : TaskStatus) (errorCode : String) : GoalPhase := (goalState status errorCode).2.1

/-- The conditions that are done and those that remain. -/
def goalItems (task : Task) : List String × List String :=
  match task.status, task.completion with
  | .completed, _ => (task.brief.conditions, [])
  | .awaitingReview, some record =>
    ((record.verification.checks.filter (·.passed)).map (·.requirement),
      (record.verification.checks.filter (!·.passed)).map (·.requirement))
  | _, _ =>
    (task.goalProgress.completedItems,
      if task.goalProgress.remainingItems = [] then task.brief.conditions
      else task.goalProgress.remainingItems)

/-- `conversation_task_store.go::setConversationTaskGoalPhase`. -/
def setConversationTaskGoalPhase (task : Task) : Task :=
  let state := goalState task.status task.errorCode
  let items := goalItems task
  { task with
    goalProgress :=
      { revision := task.goalProgress.revision + 1, status := state.1, phase := state.2.1
        blocker := state.2.2, completedItems := items.1, remainingItems := items.2 } }

/-- The progress a task starts with. -/
def startedProgress (brief : Brief) : GoalProgress :=
  { revision := 1, status := .active, phase := .queued, blocker := "", completedItems := []
    remainingItems := brief.conditions }

/-- `conversation_task_agreement_store.go::appendConversationTaskPreviousRun`. -/
def appendConversationTaskPreviousRun (task : Task) : Task :=
  match task.executionRunID with
  | none => task
  | some runID =>
    if runID ∈ task.previousExecutionRuns then task
    else { task with previousExecutionRuns := task.previousExecutionRuns ++ [runID] }

/-! ### Completion -/

def taskCompletionDelivery (submission : CompletionSubmission) (briefVersion : Nat) :
    CompletionDelivery :=
  { agreementRevision := submission.agreementRevision, briefVersion := briefVersion
    summary := submission.summary, conditions := submission.conditions, data := submission.data }

/-- What the evaluation of a brief's conditions answers: how each of them was
checked, or that its evidence cannot be read. -/
inductive CompletionJudgment where
  | evidenceChanged
  | invalid
  | judged (verdicts : List (CheckMethod × Verdict))
  deriving DecidableEq

/-- The checks of a brief, one for each condition. -/
def completionChecks (brief : Brief) (verdicts : List (CheckMethod × Verdict)) :
    List CompletionCheck :=
  brief.conditions.zipIdx.map (fun (requirement, i) =>
    let verdict := verdicts.getD i (.pending, .unknown)
    { requirement := requirement, method := verdict.1, verdict := verdict.2 })

/-- The revision of the agreement a task works under. -/
def Task.revision (task : Task) : Nat := max 1 task.agreementRevision

def evaluateTaskCompletion (task : Task) (submission : CompletionSubmission)
    (judgment : CompletionJudgment) : Except Error CompletionVerification :=
  match judgment with
  | .evidenceChanged => .error (conflict "completion_evidence_changed")
  | .invalid => .error (badRequest "completion_assessment_invalid")
  | .judged verdicts =>
    let checks := completionChecks task.brief verdicts
    let met := !checks.isEmpty && checks.all (·.passed)
    let outdated := decide (submission.agreementRevision ≠ task.revision) ||
      decide (task.brief.version ≠ task.revision)
    .ok
      { deliveryDigest := taskCompletionDelivery submission task.brief.version
        briefVersion := task.brief.version, agreementRevision := task.revision, checks := checks
        ready := met && !outdated
        blockers := (if checks.all (·.passed) then [] else ["completion_conditions_pending"]) ++
          if outdated then ["completion_outdated"] else [] }

/-- The last completion revision of a task. -/
def completionRevision (completion : Option CompletionRecord) : Nat :=
  (completion.map (·.revision)).getD 0

/-- `insertTaskCompletion`; a task
takes each client once. -/
def insertTaskCompletion (row : CompletionRow) : StoreTx Unit := do
  let rows ← Tx.read (·.completions.rows)
  Tx.demand (∀ other ∈ rows, ¬(other.taskID = row.taskID ∧ other.clientID = row.clientID))
    (duplicate "_agent_conversation_task_completions")
  insertRow (·.completions) (fun t s => { s with completions := t })
    "_agent_conversation_task_completions" row

/-- The response of a task that is completed by having one. -/
def legacyReady (task : Task) (run : Run) (content : String) : Bool :=
  task.completionMode == .legacyResponse && trimSpace content != "" &&
    run.assistantMessageSeq.isSome

/-- What the end of a run hands in when nothing was submitted. -/
def endedSubmission (task : Task) (run : Run) (content : String) : CompletionSubmission :=
  { agreementRevision := task.revision
    summary := if trimSpace content = "" then "执行已结束，尚未提交可验收摘要" else trimSpace content
    conditions := 0, data := 0, artifacts := 0
    source := some { conversationID := run.conversationID, runID := run.id, beforeStep := 1 } }

/-- The record of a completion at the end of a run. -/
def endedCompletion (task : Task) (run : Run) (content : String) : CompletionRecord :=
  let ready := legacyReady task run content
  let submission := endedSubmission task run content
  { revision := completionRevision task.completion + 1
    kind := if task.completionMode = .legacyResponse then .legacyResponse else .executionEnd
    submission := submission
    verification :=
      { deliveryDigest := taskCompletionDelivery submission task.brief.version
        briefVersion := task.brief.version, agreementRevision := task.revision
        checks := task.brief.conditions.map (fun requirement =>
          if ready then ⟨requirement, .program, .met⟩ else ⟨requirement, .pending, .unknown⟩)
        ready := ready
        blockers :=
          if task.completionMode ≠ .legacyResponse then ["completion_submission_missing"]
          else if ready then [] else ["completion_conditions_pending"] }
    reason := "Recorded when the execution run ended" }

/-- The run has handed in a completion for the agreement there is. -/
def submittedBy (task : Task) (run : Run) : Bool :=
  task.completion.any (fun record => record.submission.agreementRevision == task.revision &&
    record.submission.source.any (·.runID == run.id))

def finishConversationTaskCompletion (task : Task) (run : Run) (content : String) :
    StoreTx Task :=
  if task.delegationID ≠ none ∨ task.followUp = true ∨ run.status ≠ .completed then pure task
  else if submittedBy task run = true then pure task
  else do
    let record := endedCompletion task run content
    insertTaskCompletion
      { taskID := task.id, clientID := .finish run.id, requestHash := none, completion := record }
    pure { task with completion := some record }

/-- The completion a task records is verified for the agreement there is. -/
def completionVerified (task : Task) : Bool :=
  task.completion.any (fun record =>
    record.verification.ready && record.submission.agreementRevision == task.revision)

/-! ### What the statements do -/

section Specifications

variable {s : Db}

@[simp] theorem ensures_insertTaskCompletion {row : CompletionRow} {Q : Unit → Db → Prop} :
    (insertTaskCompletion row).Ensures s Q ↔
      ((∀ other ∈ s.completions.rows,
        ¬(other.taskID = row.taskID ∧ other.clientID = row.clientID)) →
      ∀ grown, s.completions.insert? row = some grown →
        Q () { s with completions := grown }) := by
  simp [insertTaskCompletion, ensures_insertRow]

end Specifications

end DomainryAgent
