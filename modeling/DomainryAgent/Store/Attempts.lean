import DomainryAgent.Store.Execution

/-!
The first request of a run and the attempts to have a model answer its steps.

The request is built once and frozen.  An attempt is begun before the provider is
asked, and settled with what came of it; a failed one may name the time of the
next.  Attempts are looked up by the step and by the attempt of the run, which
every claim counts up.

Where no file is named, a definition models the function of `conversation_model_attempt_store.go`
of its name.
-/

namespace DomainryAgent

open Lib Tx

/-- `conversation_input_store.go::ModelInput`, with an input. -/
def modelInput (claim : Claim) (messages : List StepMessage) : StoreTx Unit := do
  let row ← claimed claim
  let found ← read (fun s => s.inputs.get? claim.runID)
  match found with
  | some _ => pure ()
  | none => do
    demand (messages ≠ []) (badRequest "model_input_invalid")
    insertRow (·.inputs) (fun t s => { s with inputs := t }) "_agent_conversation_inputs"
      { runID := claim.runID, messages := messages }
    let v ← event row .contextAssembled
    saveRun v row

def validConversationModelAttemptStep (step : Int) : Bool := -257 ≤ step && step < 256

/-- The attempts at a step under an attempt of the run. -/
def ModelAttempt.at (step : Int) (runAttempt : Nat) (attempt : ModelAttempt) : Bool :=
  attempt.step = step && attempt.runAttempt = runAttempt

/-- `conversationModelAttemptIndex`:
the latest one. -/
def conversationModelAttempt (run : Run) (step : Int) (runAttempt : Nat) : Option ModelAttempt :=
  run.modelAttempts.find? (·.at step runAttempt)

/-- Replace the latest attempt at a step. -/
def settleAttempt (step : Int) (runAttempt : Nat) (next : ModelAttempt) :
    List ModelAttempt → List ModelAttempt
  | [] => []
  | attempt :: rest =>
    if attempt.at step runAttempt then next :: rest
    else attempt :: settleAttempt step runAttempt next rest

/-- The row with the latest attempt at a step settled. -/
def settledAttemptRow (row : RunRow) (next : ModelAttempt) : RunRow :=
  { row with run := { row.run with
    modelAttempts := settleAttempt next.step row.run.attempt next row.run.modelAttempts } }

/-- Record a started attempt; a step of the execution must be open. -/
def startAttempt (row : RunRow) (step : Int) (number : Nat) : StoreTx ModelAttempt := do
  let opened ← read (fun s => s.steps.rows.any (fun stored =>
    stored.runID = row.run.id && (stored.number : Int) = step))
  demand (step < 0 ∨ opened) (conflict "step_event_order")
  let attempt : ModelAttempt :=
    { step := step, runAttempt := row.run.attempt, number := number, status := .started
      retryAt := none }
  let v ← event { row with run := { row.run with
    modelAttempts := attempt :: row.run.modelAttempts } } (.attempt .started)
  saveRun v row
  pure attempt

def beginConversationModelAttempt (claim : Claim) (step : Int) : StoreTx ModelAttempt := do
  demand (validConversationModelAttemptStep step = true) (badRequest "model_attempt_invalid")
  let row ← claimed claim
  let now ← read (·.now)
  match conversationModelAttempt row.run step row.run.attempt with
  | none => startAttempt row step 1
  | some previous =>
    if previous.status = .started then pure previous
    else do
      demand (previous.status = .retryScheduled) (conflict "model_attempt_finished")
      demand (previous.retryAt.all (· ≤ now) = true) (conflict "model_retry_not_ready")
      startAttempt row step (previous.number + 1)

def failConversationModelAttempt (claim : Claim) (step : Int) (number : Nat)
    (retryAt : Option Time) : StoreTx Unit := do
  demand (validConversationModelAttemptStep step = true ∧ 1 ≤ number)
    (badRequest "model_attempt_invalid")
  let row ← claimed claim
  let attempt ← require (conversationModelAttempt row.run step row.run.attempt)
    (conflict "model_attempt_conflict")
  demand (attempt.number = number ∧ attempt.status = .started)
    (conflict "model_attempt_conflict")
  match retryAt with
  | none => do
    let v ← event (settledAttemptRow row { attempt with status := .failed }) (.attempt .failed)
    saveRun v row
  | some _ => do
    let v ← event (settledAttemptRow row { attempt with
      status := .retryScheduled, retryAt := retryAt }) (.attempt .failed)
    let v ← event v (.attempt .retryScheduled)
    saveRun v row

def completeConversationModelAttempt (claim : Claim) (step : Int) (number : Nat) :
    StoreTx Unit := do
  demand (validConversationModelAttemptStep step = true ∧ 1 ≤ number)
    (badRequest "model_attempt_invalid")
  let row ← claimed claim
  let attempt ← require (conversationModelAttempt row.run step row.run.attempt)
    (conflict "model_attempt_conflict")
  demand (attempt.number = number) (conflict "model_attempt_conflict")
  if attempt.status = .completed then pure ()
  else do
    demand (attempt.status = .started) (conflict "model_attempt_conflict")
    let v ← event (settledAttemptRow row { attempt with status := .completed })
      (.attempt .completed)
    saveRun v row

end DomainryAgent
