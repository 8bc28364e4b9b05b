import DomainryAgent.Store.Runs

/-!
Interactions: a run that stops for an answer, a confirmation or a
reconciliation, the response, and the expiry of one nobody answered.

A response and an expiry move the fence like a cancellation does.  A rejected
confirmation ends its run as cancelled and an expired interaction as failed;
neither goes through `finishConversationTask`.

Where no file is named, a definition models the function of `conversation_interaction_store.go`
of its name.
-/

namespace DomainryAgent

open Lib Tx

/-- The status a run waits in. -/
def waitingStatus : InteractionKind → RunStatus
  | .input => .waitingUser
  | .confirmation => .waitingConfirmation
  | .reconciliation => .needsReconciliation

structure Wait where
  step : Nat
  callID : Id
  kind : InteractionKind
  interactionID : Id
  ttl : Nat
  deriving DecidableEq

/-- The tool record of a call. -/
def readExecutionTool (s : Db) (claim : Claim) (number : Nat) (callID : Id) :
    Option ToolExecution := s.tools.get? (claim.runID, number, callID)

/-- The step a claim reads. -/
def readExecutionStep (s : Db) (claim : Claim) (number : Nat) : Option ExecutionStep :=
  s.steps.get? (claim.runID, number)

/-- Whether a call has its final result. -/
def toolCompleted (s : Db) (claim : Claim) (number : Nat) (callID : Id) : Bool :=
  (readExecutionTool s claim number callID).any (·.state == .completed)

/-- The call an interaction is about: one of the step's own calls once every
call before it is completed, or a nested call. -/
def waitCall (s : Db) (claim : Claim) (wait : Wait) (calls : List ToolCall) :
    Except Error (ToolCall × Bool) :=
  match calls.find? (·.id = wait.callID) with
  | some call =>
    if (calls.takeWhile (·.id ≠ wait.callID)).all (toolCompleted s claim wait.step ·.id) then
      .ok (call, false)
    else .error (conflict "previous_tool_incomplete")
  | none =>
    match readExecutionTool s claim wait.step wait.callID with
    | some child =>
      if child.parentCallID = none then .error (notFound "tool_call_not_found")
      else .ok (child.call, true)
    | none => .error (notFound "tool_call_not_found")

/-- The record an interaction waits under: a new one, a reconciliation that was
cancelled and opens again, or the pending one. -/
def waitRecord (record : Option InteractionRecord) (claim : Claim) (wait : Wait) (callID : Id)
    (now : Time) : Except Error InteractionRecord :=
  match record with
  | none =>
    .ok
      { response := none
        interaction :=
          { id := wait.interactionID, runID := claim.runID, step := wait.step, callID := callID
            kind := wait.kind, status := .pending, revision := 1, answer := ""
            expiresAt := if wait.kind = .reconciliation then none
              else some (now + if wait.ttl = 0 then 86400000 else wait.ttl) } }
  | some record =>
    if wait.kind = .reconciliation ∧ record.interaction.status = .cancelled then
      .ok { record with interaction := { record.interaction with
        status := .pending, revision := record.interaction.revision + 1 } }
    else if record.interaction.status = .pending then .ok record
    else .error (conflict "interaction_closed")

/-- Write an interaction record, new or existing. -/
def writeInteraction (record : InteractionRecord) (insert : Bool) : StoreTx Unit :=
  if insert then
    insertRow (·.interactions) (fun t s => { s with interactions := t })
      "_agent_conversation_interactions" record
  else write (fun s => { s with interactions := s.interactions.put record })

/-- The row a waiting run leaves. -/
def waitingRow (old : RunRow) (i : Interaction) (kind : InteractionKind) : RunRow :=
  { old with
    owner := none, expires := 0, fence := old.fence + 1
    run := { old.run with
      interaction := some i, status := waitingStatus kind, errorCode := "" } }

def waitExecution (claim : Claim) (wait : Wait) : StoreTx Unit := do
  demand (wait.ttl ≤ 604800000) (badRequest "interaction_invalid")
  let old ← claimed claim
  let step ← read (readExecutionStep · claim wait.step)
  let step ← require step (conflict "step_incomplete")
  let result ← require step.result (conflict "step_incomplete")
  let (call, nested) ← check (waitCall · claim wait result.calls)
  demand (step.input.tools.any (·.key = call.name)) (conflict "tool_definition_missing")
  let execution ← read (readExecutionTool · claim wait.step call.id)
  demand (wait.kind ≠ .reconciliation ∨ execution.any (·.state == .uncertain))
    (conflict "interaction_invalid")
  demand (wait.kind = .reconciliation ∨ execution = none ∨
    (nested ∧ execution.any (·.state == .queued))) (conflict "tool_already_started")
  let found ← read (fun s => s.interactions.get? (claim.runID, wait.step, call.id, wait.kind))
  let now ← read (·.now)
  let record ← check (fun _ => waitRecord found claim wait call.id now)
  writeInteraction record found.isNone
  let v ← event (waitingRow old record.interaction wait.kind) .toolWaiting
  let v ← event v (.run v.run.status)
  saveRun v old

/-- The row an expired interaction leaves. -/
def expiredRow (v : RunRow) : RunRow :=
  { v with
    owner := none, expires := 0, fence := v.fence + 1
    run := { v.run with status := .failed, errorCode := "interaction_expired" } }

def expireInteraction (old : RunRow) (c : Conversation) (record : InteractionRecord) :
    StoreTx Unit :=
  if record.interaction.status = .pending ∧
      old.run.interaction.any (·.id == record.interaction.id) ∧ old.run.status.waiting = true then do
    let v ← closeRunInteraction old .expired
    onlyIf (c.activeRunID = some v.run.id)
      (saveConversation { c with activeRunID := none } c.revision v.authority)
    let v ← event (expiredRow v) (.run .failed)
    saveRun v old
  else pure ()

/-- The status a response gives its interaction. -/
def respondedStatus (i : Interaction) (response : InteractionResponse) : Option InteractionStatus :=
  match i.kind, response.decision with
  | .input, .answer => if trimSpace response.answer = "" then none else some .answered
  | .confirmation, .approve => if response.answer = "" then some .approved else none
  | .confirmation, .reject => if response.answer = "" then some .rejected else none
  | _, _ => none

/-- The row a response leaves.  A rejection ends the run. -/
def respondedRow (old : RunRow) (i : Interaction) (status : InteractionStatus) (seq : Nat)
    (a : Authority) : RunRow :=
  { old with
    authority := a, owner := none, expires := 0, fence := old.fence + 1
    run := { old.run with
      interaction := some i, lastInputSeq := seq, draftText := ""
      status := if status = .rejected then .cancelled else .queued
      errorCode := if status = .rejected then "interaction_rejected" else "" } }

/-- Record an accepted response: the interaction, the message that carries it,
the conversation, the events and the run. -/
def applyResponse (c : Conversation) (old : RunRow) (record : InteractionRecord)
    (response : InteractionResponse) (status : InteractionStatus) (a : Authority) :
    StoreTx Unit := do
  let i := { record.interaction with
    status := status, answer := response.answer, revision := record.interaction.revision + 1 }
  writeInteraction { interaction := i, response := some response } false
  insertMessage
    { conversationID := c.id, seq := c.lastSeq + 1, runID := old.run.id, role := .user
      content := response.answer, backgroundTaskID := old.run.background.map (·.taskID) }
  let v := respondedRow old i status (c.lastSeq + 1) a
  saveConversation
    { c with
      lastSeq := c.lastSeq + 1
      activeRunID := if status = .rejected ∧ c.activeRunID = some old.run.id then none
        else c.activeRunID } c.revision a
  let v ← event v .interactionResponded
  let v ← event v (.run v.run.status)
  saveRun v old

/-- `RespondExecution`.  A response
that comes too late commits the expiry and is then reported as an error. -/
def respondExecution (id runID : Id) (response : InteractionResponse) (a : Authority) :
    StoreTx Unit := do
  demand (1 ≤ response.expectedRevision ∧ executionText response.answer 16384 false)
    (badRequest "interaction_response_invalid")
  let c ← getConversation id a
  let old ← runRow id runID a
  let found ← read (fun s => s.interactions.rows.find? (fun record =>
    record.interaction.runID = runID ∧ record.interaction.id = response.interactionID))
  let record ← require found (notFound "interaction_not_found")
  match record.response with
  | some earlier => demand (earlier = response) (conflict "interaction_response_conflict")
  | none => do
    let i := record.interaction
    demand (i.status = .pending ∧ old.run.interaction.any (·.id == i.id) ∧
      old.run.status.waiting = true ∧
      (old.run.background ≠ none ∨ c.activeRunID = some runID)) (conflict "interaction_closed")
    demand (i.revision = response.expectedRevision) (conflict "revision_conflict")
    let now ← read (·.now)
    if i.expiresAt.any (· ≤ now) then expireInteraction old c record
    else do
      demand (c.archived = false) (conflict "archived")
      let status ← require (respondedStatus i response)
        (badRequest "interaction_response_invalid")
      if status = .rejected then applyResponse c old record response status a
      else do
        checkConversationQueueCapacity a
        applyResponse c old record response status a

/-- `ExpireInteractions`, the
transaction for one of the runs it selects. -/
def expireRunInteraction (runID : Id) : StoreTx Unit := do
  let row ← read (fun s => s.runs.get? runID)
  let row ← require row (notFound "run_not_found")
  let now ← read (·.now)
  match row.run.interaction with
  | none => pure ()
  | some i =>
    if i.status = .pending ∧ i.expiresAt.any (· ≤ now) ∧ row.run.status.waiting = true then do
      let c ← getConversation row.run.conversationID row.authority
      let found ← read (fun s => s.interactions.get? (runID, i.step, i.callID, i.kind))
      match found with
      | none => pure ()
      | some record => expireInteraction row c record
    else pure ()

end DomainryAgent
