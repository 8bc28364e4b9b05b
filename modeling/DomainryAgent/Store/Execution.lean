import DomainryAgent.Store.Budget
import DomainryAgent.Store.Interactions
import DomainryAgent.Store.Tasks

/-!
Steps and tool calls: the durable record of what a run asked a model and which
tools it started.

A call is recorded as started before its effect, and its receipt after.  A
nested call of a program is first reserved as queued.  Every statement is
under the claim check, except the receipt of a call that a cancellation
interrupted.

Where no file is named, a definition models the function of `conversation_execution_store.go`
of its name.
-/

namespace DomainryAgent

open Lib Tx

/-! ### Steps -/

/-- `conversation_dependencies_store.go::recordAgreementAdoption`. -/
def recordAgreementAdoption (run : Run) (a : Authority) : StoreTx Unit :=
  match run.delegated with
  | none => pure ()
  | some (id, task) => do
    let d ← conversationDelegation id a
    demand (d.taskID = task.taskID ∧ d.conversationID = run.conversationID ∧
      max 1 task.agreementRevision = d.agreementRevision ∧ task.briefVersion = d.brief.version ∧
      d.pendingChanges = []) (conflict "delegation_superseded")
    onlyIf (d.adoptedAgreementRevision ≠ d.agreementRevision)
      (saveConversationDelegation
        { d with adoptedAgreementRevision := d.agreementRevision, revision := d.revision + 1 }
        d.revision a)

/-- A step follows one that asked for tools and has all their results. -/
def previousStepDone (s : Db) (claim : Claim) : Nat → Except Error Unit
  | 0 => .ok ()
  | number + 1 =>
    match (readExecutionStep s claim number).bind (·.result) with
    | none => .error (conflict "previous_step_incomplete")
    | some result =>
      if result.finishReason ≠ .toolCalls then .error (conflict "previous_step_incomplete")
      else if result.calls.all (toolCompleted s claim number ·.id) then .ok ()
      else .error (conflict "previous_tools_incomplete")

/-- `ExecutionStep`, with an input. -/
def executionStep (claim : Claim) (number : Nat) (input : StepRequest) : StoreTx Unit := do
  demand (number < 256) (badRequest "step_invalid")
  let row ← claimed claim
  let found ← read (readExecutionStep · claim number)
  match found with
  | some step => demand (step.input = input) (conflict "step_input_conflict")
  | none => do
    demand (1 ≤ input.maxToolCalls ∧ input.maxToolCalls ≤ 64 ∧ input.maxParallelTools ≤ 16)
      (badRequest "step_input_invalid")
    check (previousStepDone · claim number)
    consumeConversationPeerInbox claim input.inbox number
    recordAgreementAdoption row.run claim.authority
    insertRow (·.steps) (fun t s => { s with steps := t }) "_agent_conversation_steps"
      { runID := claim.runID, number := number, input := input, result := none }
    let v ← event row .stepStarted
    saveRun v row

def validateExecutionResult (step : ExecutionStep) (result : StepResult) : Bool :=
  ((result.finishReason == .toolCalls) == !result.calls.isEmpty) &&
  (!result.calls.isEmpty || trimSpace result.content != "") &&
  result.calls.length ≤ step.input.maxToolCalls &&
  result.calls.all (fun call => step.input.tools.any (·.key = call.name)) &&
  decide ((result.calls.map (·.id)).Nodup)

/-- Delegated work is charged to its ledger. -/
def chargeStep (row : RunRow) (claim : Claim) (number : Nat) (result : StepResult) :
    StoreTx Unit :=
  match row.run.delegated with
  | none => pure ()
  | some _ => completeConversationWorkStep row claim number result

def completeExecutionStep (claim : Claim) (number : Nat) (result : StepResult) : StoreTx Unit := do
  let row ← claimed claim
  let found ← read (readExecutionStep · claim number)
  let step ← require found (notFound "step_not_found")
  match step.result with
  | some earlier => demand (earlier = result) (conflict "step_result_conflict")
  | none => do
    demand (validateExecutionResult step result = true) (badRequest "step_result_invalid")
    chargeStep row claim number result
    write (fun s => { s with steps := s.steps.put { step with result := some result } })
    let v ← event row .stepCompleted
    saveRun v row

/-! ### Tool calls -/

/-- The step whose calls a claim may start. -/
def readyStep (s : Db) (claim : Claim) (number : Nat) : Except Error (ExecutionStep × StepResult) :=
  match readExecutionStep s claim number with
  | none => .error (conflict "step_not_ready")
  | some step =>
    match step.result with
    | none => .error (conflict "step_not_ready")
    | some result =>
      if result.finishReason = .toolCalls then .ok (step, result)
      else .error (conflict "step_not_ready")

/-- The nested calls of a program. -/
def executionSubtools (s : Db) (claim : Claim) (number : Nat) (parentCallID : Id) :
    List ToolExecution :=
  s.tools.rows.filter (fun record => record.runID = claim.runID ∧ record.step = number ∧
    record.parentCallID = some parentCallID)

/-- The calls of a run, nested ones included. -/
def executionCallCount (s : Db) (claim : Claim) : Nat :=
  ((s.steps.rows.filter (·.runID = claim.runID)).map
    (fun step => (step.result.map (·.calls.length)).getD 0)).sum +
  (s.tools.rows.filter (fun record => record.runID = claim.runID ∧
    record.parentCallID ≠ none)).length

/-- The key of a call in `conversation_execution_store.go`. -/
def toolIdempotencyKey (claim : Claim) (number : Nat) (callID : Id) : IdempotencyKey :=
  ⟨conversationOwner claim.authority, claim.runID, number, callID⟩

/-- A new record of a call, held by the claim. -/
def newToolExecution (claim : Claim) (number : Nat) (call : ToolCall) (definition : ToolDefinition)
    (state : ToolState) : ToolExecution :=
  { runID := claim.runID, step := number, call := call, parentCallID := none, dispatchIndex := 0
    definition := definition, idempotencyKey := toolIdempotencyKey claim number call.id
    state := state, result := none, leaseOwner := some claim.owner, fence := claim.fence }

def insertTool (record : ToolExecution) : StoreTx Unit :=
  insertRow (·.tools) (fun t s => { s with tools := t }) "_agent_conversation_tool_calls" record

structure Subtool where
  parentCallID : Id
  dispatchIndex : Nat
  call : ToolCall
  definition : ToolDefinition
  maxCalls : Nat
  deriving DecidableEq

/-- Reserve a nested call that has no record yet. -/
def reserveSubtool (claim : Claim) (number : Nat) (input : Subtool) (row : RunRow) :
    StoreTx (ToolExecution × Bool) := do
  let children ← read (executionSubtools · claim number input.parentCallID)
  demand (input.dispatchIndex = children.length) (conflict "code_dispatch_order")
  let calls ← read (executionCallCount · claim)
  demand (calls < input.maxCalls) (rateLimited "execution_limit")
  let record := { newToolExecution claim number input.call input.definition .queued with
    parentCallID := some input.parentCallID, dispatchIndex := input.dispatchIndex }
  insertTool record
  let v ← event row .toolQueued
  saveRun v row
  pure (record, false)

def prepareExecutionSubtool (claim : Claim) (number : Nat) (input : Subtool) :
    StoreTx (ToolExecution × Bool) := do
  demand (input.dispatchIndex < 64 ∧ 1 ≤ input.maxCalls ∧ input.maxCalls ≤ 64 ∧
    input.call.name = input.definition.key ∧ input.definition.kind ≠ .code)
    (badRequest "code_dispatch_invalid")
  let row ← claimed claim
  let (step, _) ← check (readyStep · claim number)
  let parent ← read (readExecutionTool · claim number input.parentCallID)
  let parent ← require parent (conflict "code_parent_not_running")
  demand (parent.parentCallID = none ∧ parent.definition.kind = .code ∧ parent.state = .started)
    (conflict "code_parent_not_running")
  demand (input.definition ∈ step.input.tools) (conflict "tool_definition_missing")
  let found ← read (readExecutionTool · claim number input.call.id)
  match found with
  | some record => do
    demand (record.parentCallID = some input.parentCallID ∧
      record.dispatchIndex = input.dispatchIndex ∧ record.call = input.call ∧
      record.definition = input.definition) (conflict "code_dispatch_changed")
    pure (record, true)
  | none => reserveSubtool claim number input row

/-- A record taken over by a claim; a reserved call is started. -/
def begunCall (record : ToolExecution) (claim : Claim) : ToolExecution :=
  { record with
    leaseOwner := some claim.owner, fence := claim.fence
    state := if record.state = .queued then .started else record.state }

/-- `BeginExecutionSubtool`.  The
caller was authorized without a confirmation. -/
def beginExecutionSubtool (claim : Claim) (number : Nat) (callID : Id) :
    StoreTx (ToolExecution × Bool) := do
  let row ← claimed claim
  let found ← read (readExecutionTool · claim number callID)
  let record ← require found (notFound "tool_call_not_found")
  demand (record.parentCallID ≠ none) (notFound "tool_call_not_found")
  if record.state = .completed then pure (record, true)
  else do
    writeTool (begunCall record claim)
    let v ← event row (.toolStarted number callID)
    saveRun v row
    pure (begunCall record claim, record.state != .queued)

/-- The calls that must be completed before the call at `index`: all before it,
or, when reads run in parallel, all before its batch. -/
def requiredBefore (index width : Nat) : Nat := if 1 < width then index / width * width else index

/-- The call a step asked for, once the calls before it are done. -/
def selectedCall (s : Db) (claim : Claim) (number : Nat) (callID : Id) (width : Nat)
    (calls : List ToolCall) : Except Error ToolCall :=
  match calls.find? (·.id = callID) with
  | none => .error (notFound "tool_call_not_found")
  | some call =>
    let index := (calls.takeWhile (·.id ≠ callID)).length
    if (calls.take (requiredBefore index width)).all (toolCompleted s claim number ·.id) then
      .ok call
    else .error (conflict "previous_tool_incomplete")

/-- Take over the record of a call that was started before. -/
def replayTool (claim : Claim) (record : ToolExecution) (row : RunRow) :
    StoreTx (ToolExecution × Bool) :=
  if record.state = .completed then pure (record, true)
  else do
    let taken := { record with leaseOwner := some claim.owner, fence := claim.fence }
    writeTool taken
    let v ← event row (.toolStarted record.step record.call.id)
    saveRun v row
    pure (taken, true)

/-- Record a call as started. -/
def startTool (claim : Claim) (number : Nat) (call : ToolCall) (tools : List ToolDefinition)
    (row : RunRow) : StoreTx (ToolExecution × Bool) := do
  let definition ← require (tools.find? (·.key = call.name)) (conflict "tool_definition_missing")
  insertTool (newToolExecution claim number call definition .started)
  let v ← event row (.toolStarted number call.id)
  saveRun v row
  pure (newToolExecution claim number call definition .started, false)

/-- `BeginExecutionTool`.  `width` is
the batch width the SDK derives from the step's tools. -/
def beginExecutionTool (claim : Claim) (number : Nat) (callID : Id) (width : Nat) :
    StoreTx (ToolExecution × Bool) := do
  let row ← claimed claim
  let (step, result) ← check (readyStep · claim number)
  let call ← check (selectedCall · claim number callID width result.calls)
  let found ← read (readExecutionTool · claim number callID)
  match found with
  | some record => replayTool claim record row
  | none => startTool claim number call step.input.tools row

/-! ### Receipts -/

/-- `conversation_cancellation_store.go::cancelledToolReceiptRow`. -/
def cancelledToolReceiptRow (claim : Claim) (number : Nat) (callID : Id) : StoreTx RunRow := do
  let row ← runRow claim.conversationID claim.runID claim.authority
  demand (row.run.status = .cancelled ∧ row.owner = none ∧ 1 ≤ claim.fence ∧
    row.fence = claim.fence + 1) (conflict "lease_lost")
  let found ← read (readExecutionTool · claim number callID)
  let call ← require found (conflict "lease_lost")
  demand (call.leaseOwner = some claim.owner ∧ call.fence = claim.fence) (conflict "lease_lost")
  pure row

/-- The run a receipt belongs to: the claimed one, or the one whose
cancellation interrupted the call. -/
def receiptRow (claim : Claim) (number : Nat) (callID : Id) : StoreTx RunRow := do
  let accepted ← Tx.attempt (claimed claim)
  match accepted with
  | .ok row => pure row
  | .error _ => cancelledToolReceiptRow claim number callID

/-- The record a receipt leaves. -/
def receivedCall (record : ToolExecution) (result : ToolResult) : ToolExecution :=
  { record with
    result := some result
    state := if result.status = .uncertain then .uncertain else .completed }

/-- A final receipt ends the reconciliation its run waits for. -/
def resolveReconciliation (record : ToolExecution) (row : RunRow) : StoreTx RunRow :=
  if record.state = .completed ∧ row.run.interaction.any (fun i =>
      i.kind == .reconciliation && i.step == record.step && i.callID == record.call.id) then
    closeRunInteraction row .resolved
  else pure row

def finishExecutionToolReceipt (claim : Claim) (number : Nat) (callID : Id) (result : ToolResult)
    (row : RunRow) : StoreTx Unit := do
  let found ← read (readExecutionTool · claim number callID)
  let record ← require found (notFound "tool_call_not_found")
  if record.state = .completed then
    demand (record.result = some result) (conflict "tool_result_conflict")
  else do
    demand (1 ≤ record.definition.maxOutputBytes ∧
      result.content.utf8ByteSize ≤ record.definition.maxOutputBytes)
      (badRequest "tool_result_exceeded")
    demand (result.accepted = true →
      record.definition.effect = .write ∧ result.status = .completed)
      (badRequest "tool_result_invalid")
    let received := receivedCall record result
    writeTool received
    let v ← resolveReconciliation received row
    let v ← event v (.tool received.state)
    saveRun v row

/-- The receipts a tool may return. -/
def validToolResult (result : ToolResult) : Bool :=
  (!result.accepted || result.status == .completed) &&
  (result.status != .failed || result.errorCode != "")

def finishExecutionTool (claim : Claim) (number : Nat) (callID : Id) (result : ToolResult) :
    StoreTx Unit := do
  demand (validToolResult result = true) (badRequest "tool_result_invalid")
  let row ← receiptRow claim number callID
  finishExecutionToolReceipt claim number callID result row

/-! ### Tools the store runs itself -/

/-- A tool request as its dispatcher sends it back to the store. -/
structure ToolRequest where
  claim : Claim
  step : Nat
  call : ToolCall
  definition : ToolDefinition
  idempotencyKey : IdempotencyKey
  deriving DecidableEq

/-- Refusals a caller can act on become failed results; other errors abort. -/
def localResult : Except Error ToolResult → Except Error ToolResult
  | .ok result => .ok result
  | .error e =>
    match e.cls with
    | .badRequest | .conflict | .notFound =>
      .ok ⟨.failed, e.code, "\x7b\"error\":\"" ++ e.code ++ "\"\x7d", false⟩
    | _ => .error e

/-- Record the outcome of a local effect as the receipt of its call. -/
def recordLocalOutcome (request : ToolRequest) (outcome : Except Error ToolResult) :
    StoreTx Unit := do
  let result ← check (fun _ => localResult outcome)
  let row ← claimed request.claim
  finishExecutionToolReceipt request.claim request.step request.call.id result row

/-- `conversation_personal_mutation_store.go::applyLocalTool`.  The
effects refuse before they write, so undoing a refused one changes nothing. -/
def applyLocalTool (request : ToolRequest) (kind : ToolKind) (apply : StoreTx ToolResult) :
    StoreTx Unit := do
  conversationAuthority request.claim.authority
  let _ ← claimed request.claim
  let found ← read (readExecutionTool · request.claim request.step request.call.id)
  let record ← require found (conflict "tool_input_conflict")
  demand (request.idempotencyKey = record.idempotencyKey ∧ request.call = record.call ∧
    request.definition = record.definition) (conflict "tool_input_conflict")
  demand (record.definition.effect = .write ∧ record.definition.kind = kind)
    (forbidden "tool_access_denied")
  if record.state = .completed ∧ record.result ≠ none then pure ()
  else do
    let outcome ← Tx.attempt apply
    recordLocalOutcome request outcome

def conversationTaskMaxChildrenPerRun : Nat := 4

/-- The effect of `task_start`. -/
def startBackgroundTask (claim : Claim) (start : TaskStart) : StoreTx ToolResult := do
  demand (start.conversationID = claim.conversationID ∧ start.sourceRunID = some claim.runID ∧
    start.followUp = false) (conflict "tool_input_conflict")
  let row ← runRow claim.conversationID claim.runID claim.authority
  demand (start.agent = none ∨ start.agent = row.run.agent) (conflict "tool_input_conflict")
  let children ← read (fun s => (s.tasks.rows.filter (fun task =>
    conversationOwner task.authority = conversationOwner claim.authority ∧
      task.sourceRunID = some claim.runID)).length)
  demand (children < conversationTaskMaxChildrenPerRun) (conflict "task_child_limit")
  checkConversationQueueCapacity claim.authority
  let now ← read (·.now)
  insertTask (queuedTask { start with agent := row.run.agent } .tool claim.authority now)
  pure ⟨.completed, "", "", true⟩

/-- `conversation_task_store.go::ApplyConversationTaskTool`. -/
def applyConversationTaskTool (request : ToolRequest) (start : TaskStart) : StoreTx Unit :=
  applyLocalTool request .taskStart (startBackgroundTask request.claim start)

/-- A prepared plan must be what the call asked for and keep what is done. -/
def checkPlanUpdate (prepared : Plan) (update : PlanUpdate) (task : Task) (run : Run) :
    Except Error Unit :=
  if ¬(task.status = .running ∧ task.executionRunID = some run.id ∧
      task.executionConversation = run.conversationID ∧
      (task.plan.map (·.version)).getD 0 = update.expectedVersion ∧
      max 1 task.agreementRevision = update.agreementRevision ∧ prepared.taskID = task.id) then
    .error (conflict "plan_changed")
  else if planMatchesUpdate prepared update run = false then
    .error (conflict "plan_payload_changed")
  else if validStoredConversationPlan prepared = false then .error (badRequest "plan_invalid")
  else if keepsCompleted ((task.plan.map (·.steps)).getD []) prepared.steps = false then
    .error (conflict "plan_completed_step_changed")
  else .ok ()

/-- The effect of `plan_update`. -/
def updatePlan (claim : Claim) (update : PlanUpdate) (prepared : Plan) : StoreTx ToolResult := do
  let row ← runRow claim.conversationID claim.runID claim.authority
  let background ← require row.run.background (conflict "plan_task_invalid")
  let plans ← read (·.plans.rows)
  demand (∀ used ∈ plans, ¬(used.plan.taskID = background.taskID ∧
    used.client = .update update.clientID)) (conflict "plan_idempotency_conflict")
  let task ← taskRow background.taskID claim.authority
  check (fun _ => checkPlanUpdate prepared update task row.run)
  insertConversationTaskPlan (.update update.clientID) prepared
  saveTask { task with plan := some prepared } .running
  pure ⟨.completed, "", "", false⟩

/-- `conversation_plan_store.go::ApplyConversationTaskPlanTool`. -/
def applyConversationTaskPlanTool (request : ToolRequest) (update : PlanUpdate) (prepared : Plan) :
    StoreTx Unit :=
  applyLocalTool request .planUpdate (updatePlan request.claim update prepared)

/-- What `completion_submit` asks for. -/
structure CompletionSubmit where
  clientID : CompletionClient
  requestHash : Id
  expectedRevision : Nat
  agreementRevision : Nat
  summary : String
  conditions : Id
  data : Id
  artifacts : Id
  deriving DecidableEq

/-- `conversation_task_completion_store.go::taskCompletionMatchesSubmit`. -/
def taskCompletionMatchesSubmit (record : CompletionRecord) (submit : CompletionSubmit)
    (run : Run) : Bool :=
  record.revision == submit.expectedRevision + 1 && record.kind == .agentAssessment &&
  record.submission.agreementRevision == submit.agreementRevision &&
  record.submission.summary == trimSpace submit.summary &&
  record.submission.data == submit.data && record.submission.conditions == submit.conditions &&
  record.submission.artifacts == submit.artifacts &&
  record.submission.source.any (fun source =>
    source.conversationID == run.conversationID && source.runID == run.id)

/-- `conversation_task_completion_store.go::validStoredTaskCompletion`. -/
def validStoredTaskCompletion (record : CompletionRecord) : Bool :=
  1 ≤ record.revision && 1 ≤ record.submission.agreementRevision &&
  executionText record.submission.summary 8192 true &&
  record.submission.source.any (1 ≤ ·.beforeStep)

/-- A submission is for the run that executes the task, in its turn, and under the
agreement there is. -/
def submissionCurrent (task : Task) (background : TaskExecution) (run : Run)
    (submit : CompletionSubmit) (prepared : CompletionRecord) : Bool :=
  decide (task.status = .running ∧ task.executionRunID = some run.id ∧
    task.completionMode = .assessed ∧ background.completionMode = .assessed ∧
    task.delegationID = none ∧ task.followUp = false ∧
    completionRevision task.completion = submit.expectedRevision ∧
    task.revision = submit.agreementRevision) &&
  taskCompletionMatchesSubmit prepared submit run && validStoredTaskCompletion prepared

/-- The effect of `completion_submit`. -/
def submitCompletion (claim : Claim) (submit : CompletionSubmit) (prepared : CompletionRecord)
    (judgment : CompletionJudgment) : StoreTx ToolResult := do
  let row ← runRow claim.conversationID claim.runID claim.authority
  let background ← require row.run.background (conflict "task_completion_run_invalid")
  let rows ← read (·.completions.rows)
  demand (∀ used ∈ rows, ¬(used.taskID = background.taskID ∧
    used.clientID = submit.clientID)) (conflict "task_completion_idempotency_conflict")
  let task ← taskRow background.taskID claim.authority
  demand (submissionCurrent task background row.run submit prepared = true)
    (conflict "task_completion_changed")
  let verification ← check (fun _ => evaluateTaskCompletion task prepared.submission judgment)
  let completion := { prepared with verification := verification }
  saveTask { task with completion := some completion } .running
  insertTaskCompletion
    { taskID := task.id, clientID := submit.clientID, requestHash := some submit.requestHash
      completion := completion }
  pure ⟨.completed, "", "", false⟩

/-- `conversation_task_completion_store.go::ApplyConversationTaskCompletionTool`. -/
def applyConversationTaskCompletionTool (request : ToolRequest) (submit : CompletionSubmit)
    (prepared : CompletionRecord) (judgment : CompletionJudgment) : StoreTx Unit :=
  applyLocalTool request .completionSubmit
    (submitCompletion request.claim submit prepared judgment)

/-! ### Effects of an earlier assignment -/

/-- The effect of a handoff that a call would repeat. -/
def matchingEffect (handoff : Handoff) (call : ToolCall) : Option DelegationEffect :=
  handoff.effects.find? (fun effect => effect.receipt.status = .completed ∧
    effect.tool = call.name ∧ effect.arguments = call.arguments)

/-- The call of the earlier assignment, which must be as the handoff has it. -/
def reusableEffect (effect : DelegationEffect) (delegationID : Id) (call : ToolCall)
    (definition : ToolDefinition) (a : Authority) : StoreTx ToolExecution := do
  let d ← conversationDelegation delegationID a
  let authority ← check (fun s => assignmentRunAuthority s.toCore d effect.conversationID)
  let oldRun ← runRow effect.conversationID effect.runID authority
  demand (oldRun.run.status.terminal = true ∧
    oldRun.run.background.bind (·.delegationID) = some delegationID)
    (conflict "delegation_handoff_changed")
  let found ← read (fun s => s.tools.get? (effect.runID, effect.step, effect.callID))
  let original ← require found (conflict "delegation_handoff_changed")
  demand (original.state = .completed ∧ original.result = some effect.receipt)
    (conflict "delegation_handoff_changed")
  demand (original.definition = definition) (conflict "delegation_effect_changed")
  demand (original.call.arguments = call.arguments) (conflict "delegation_handoff_changed")
  pure original

/-- Record the reused receipt under the new call. -/
def recordReuse (claim : Claim) (number : Nat) (call : ToolCall) (original : ToolExecution)
    (result : ToolResult) (row : RunRow) : StoreTx Unit := do
  insertTool { newToolExecution claim number call original.definition .started with
    idempotencyKey := original.idempotencyKey, reusedFrom := some original.key }
  finishExecutionToolReceipt claim number call.id result row
  let row ← runRow claim.conversationID claim.runID claim.authority
  let v ← event row .toolReceiptReused
  saveRun v row

/-- The call must be one the step asked for, after completed calls. -/
def reuseSelected (s : Db) (claim : Claim) (number : Nat) (call : ToolCall)
    (calls : List ToolCall) : Except Error Unit :=
  if (calls.takeWhile (·.id ≠ call.id)).all (toolCompleted s claim number ·.id) = false then
    .error (conflict "previous_tool_incomplete")
  else if calls.find? (·.id = call.id) = some call then .ok ()
  else .error (conflict "tool_input_conflict")

/-- Answer a call with the receipt of the effect it would repeat. -/
def reuseEffect (claim : Claim) (number : Nat) (call : ToolCall) (definition : ToolDefinition)
    (effect : DelegationEffect) (delegationID : Id) (row : RunRow) : StoreTx ToolResult := do
  let original ← reusableEffect effect delegationID call definition claim.authority
  let (step, asked) ← check (readyStep · claim number)
  check (reuseSelected · claim number call asked.calls)
  demand (definition ∈ step.input.tools) (conflict "tool_input_conflict")
  let found ← read (readExecutionTool · claim number call.id)
  match found with
  | some existing => do
    demand (existing.state = .completed ∧ existing.result ≠ none)
      (conflict "delegation_reconciliation_required")
    demand (existing.result = some effect.receipt) (conflict "tool_result_conflict")
    pure effect.receipt
  | none => do
    recordReuse claim number call original effect.receipt row
    pure effect.receipt

/-- `conversation_effect_reuse_store.go::ReuseConversationDelegationEffect`. -/
def reuseConversationDelegationEffect (claim : Claim) (number : Nat) (call : ToolCall)
    (definition : ToolDefinition) : StoreTx (Option ToolResult) := do
  let row ← claimed claim
  match row.run.delegated with
  | none => pure none
  | some (id, task) =>
    match task.handoff.bind (matchingEffect · call) with
    | none => pure none
    | some effect =>
      if definition.effect ≠ .write then pure none
      else some <$> reuseEffect claim number call definition effect id row

/-! ### Inspecting an outcome

Where no file is named, a definition models the function of
`conversation_outcome_inspection_store.go` of its name. -/

/-- The runs whose calls can be inspected. -/
def inspectable (status : RunStatus) : Bool :=
  status = .cancelled ∨ status = .failed ∨ status = .needsReconciliation

def setInspection (inspection : ToolInspection) : StoreTx Unit :=
  write (fun s => { s with inspections := s.inspections.upsert inspection })

/-- The inspection a client asks for: the one it has pending, or a new one.  A
call is inspected by one client at a time. -/
def openInspection (call : ToolExecution) (row : RunRow) (clientID token : Id) (a : Authority) :
    StoreTx ToolInspection := do
  let now ← read (·.now)
  let latest ← read (·.inspections.get? call.key)
  match latest.filter (fun i => !i.completed && decide (now < i.expiresAt)) with
  | some pending => do
    demand (pending.clientID = clientID) (conflict "outcome_inspection_busy")
    pure pending
  | none => do
    let inspection : ToolInspection :=
      { runID := call.runID, step := call.step, callID := call.call.id, token := token
        clientID := clientID, expiresAt := now + call.definition.timeoutMillis + 30000
        actorID := a.userID, completed := false }
    setInspection inspection
    let v ← event row .inspectionStarted
    saveRun v row
    pure inspection

/-- `BeginConversationOutcomeInspection`, with the fresh `token` of the inspection.
A call with a known result is not inspected. -/
def beginConversationOutcomeInspection (id : Id) (revision : Nat) (runID : Id) (step : Nat)
    (callID clientID token : Id) (a : Authority) :
    StoreTx (ToolExecution × Option ToolInspection) := do
  demand (step < 256) (badRequest "outcome_inspection_invalid")
  conversationAuthority a
  let d ← conversationDelegation id a
  demand (d.revision = revision) (conflict "revision_conflict")
  let row ← runRow d.conversationID runID a
  demand (row.run.background.bind (·.delegationID) = some d.id)
    (forbidden "delegation_actor_invalid")
  demand (inspectable row.run.status = true) (conflict "outcome_inspection_running")
  let found ← read (fun s => s.tools.get? (row.run.id, step, callID))
  let call ← require found (badRequest "outcome_inspection_invalid")
  demand (call.definition.effect = .write) (badRequest "outcome_inspection_invalid")
  if call.state = .completed ∧ call.result ≠ none then pure (call, none)
  else do
    let inspection ← openInspection call row clientID token a
    pure (call, some inspection)

/-- What the tool of an inspected call is asked, and what comes back with its
answer. -/
structure InspectionRequest where
  authority : Authority
  conversationID : Id
  runID : Id
  step : Nat
  call : ToolCall
  definition : ToolDefinition
  idempotencyKey : IdempotencyKey
  token : Option Id
  deriving DecidableEq

/-- The inspection is the one of the request, and in time. -/
def inspects (request : InspectionRequest) (now : Time) (call : ToolExecution)
    (inspection : ToolInspection) : Prop :=
  request.token = some inspection.token ∧ inspection.actorID = request.authority.userID ∧
    now < inspection.expiresAt ∧ call.call = request.call ∧ call.definition = request.definition ∧
    call.idempotencyKey = request.idempotencyKey

instance (request : InspectionRequest) (now : Time) (call : ToolExecution)
    (inspection : ToolInspection) : Decidable (inspects request now call inspection) :=
  inferInstanceAs (Decidable (_ ∧ _ ∧ _ ∧ _ ∧ _ ∧ _))

def inspectionRow (request : InspectionRequest) :
    StoreTx (RunRow × ToolExecution × ToolInspection) := do
  let row ← runRow request.conversationID request.runID request.authority
  demand (request.token ≠ none ∧ inspectable row.run.status = true)
    (conflict "outcome_inspection_superseded")
  let found ← read (fun s => s.tools.get? (row.run.id, request.step, request.call.id))
  let call ← require found (conflict "outcome_inspection_superseded")
  let latest ← read (·.inspections.get? call.key)
  let inspection ← require latest (conflict "outcome_inspection_superseded")
  let now ← read (·.now)
  demand (inspects request now call inspection) (conflict "outcome_inspection_superseded")
  pure (row, call, inspection)

/-- The answers an inspection may bring. -/
def validInspectionResult (result : ToolResult) : Bool :=
  result.status != .pending && (result.status != .failed || result.errorCode != "")

/-- The receipt an inspection brings, unless the call's own came first. -/
def receiveInspected (call : ToolExecution) (result : ToolResult) (row : RunRow) (a : Authority) :
    StoreTx (RunRow × ToolState) :=
  if call.state = .completed then pure (row, .completed)
  else do
    let claim : Claim :=
      { conversationID := row.run.conversationID, runID := row.run.id, owner := 0, fence := 0
        authority := a }
    finishExecutionToolReceipt claim call.step call.call.id result row
    let row ← runRow row.run.conversationID row.run.id a
    pure (row, (receivedCall call result).state)

def finishConversationOutcomeInspection (request : InspectionRequest) (result : ToolResult)
    (a : Authority) : StoreTx Unit := do
  demand (conversationOwner a = conversationOwner request.authority)
    (forbidden "principal_required")
  demand (validInspectionResult result = true) (badRequest "tool_result_invalid")
  let (row, call, inspection) ← inspectionRow request
  if inspection.completed = true then pure ()
  else do
    let (row, state) ← receiveInspected call result row a
    setInspection { inspection with completed := true }
    let v ← event row (.inspectionCompleted state)
    saveRun v row

end DomainryAgent
