import DomainryAgent.Store.PeerMessages
import DomainryAgent.Store.TaskProgress

/-!
Runs: queueing, leasing, the claim check, streaming, finishing, cancelling and
resuming, with the task and the delegation that end or restart with a run.

A worker holds a run by an owner and a fence.  `claimed` is the check every
write of a worker goes through: the row must be running, leased to this owner
at this fence, not expired, and, for delegated work, still be the current
execution of the current agreement.

Where no file is named, a definition models the function of `conversation_run_store.go`
of its name.
-/

namespace DomainryAgent

open Lib Tx

/-! ### The claim check -/

def claimed (claim : Claim) : StoreTx RunRow := do
  let v ← runRow claim.conversationID claim.runID claim.authority
  let now ← read (·.now)
  demand (v.run.status = .running ∧ v.owner = some claim.owner ∧ v.fence = claim.fence ∧
    now < v.expires) (conflict "lease_lost")
  match v.run.delegated with
  | none => pure v
  | some (id, task) => do
    let d ← conversationDelegation id claim.authority
    demand (d.taskID = task.taskID ∧ d.conversationID = v.run.conversationID ∧
      (d.status = .running ∨ d.status = .delivered) ∧ d.pendingChanges = [] ∧
      max 1 task.agreementRevision = d.agreementRevision ∧
      task.briefVersion = d.brief.version) (conflict "delegation_superseded")
    pure v

/-! ### Tasks at the end and the restart of a run -/

/-- The status a run's outcome gives its task. -/
def finishedTaskStatus (task : Task) (status : RunStatus) : TaskStatus :=
  match status with
  | .completed =>
    if task.delegationID = none ∧ task.followUp = false ∧ completionVerified task = false then
      .awaitingReview
    else .completed
  | .cancelled => .cancelled
  | _ => .failed

/-- `conversation_follow_up_store.go::recordConversationFollowUpTerminal`,
what it makes of the task; `reported` tells whether the report could be read. -/
def recordConversationFollowUpTerminal (task : Task) (status : RunStatus) (reported : Bool) :
    Task :=
  if task.followUp = true ∧ task.origin = .schedule ∧ status = .completed ∧ reported = false then
    { task with status := .failed, errorCode := "follow_up_report_invalid" }
  else task

/-- The status a run's outcome gives its delegation. -/
def finishedDelegationStatus (current : DelegationStatus) (status : RunStatus) : DelegationStatus :=
  match status with
  | .completed => if current = .delivered then .delivered else .awaitingDelivery
  | .cancelled => .paused
  | _ => .failed

/-- Save a delegation whose run ended and tell its source. -/
def announceOutcome (out : Delegation) (expected : Nat) (run : Run) (a : Authority) :
    StoreTx Unit := do
  saveConversationDelegation out expected a
  insertConversationPeerNotice (outcomeNotice out run) a none

/-- `conversation_delegation_store.go::finishConversationDelegation`. -/
def finishConversationDelegation (task : Task) (run : Run) (a : Authority) : StoreTx Unit :=
  match task.delegationID with
  | none => pure ()
  | some id => do
    let d ← conversationDelegation id a
    onlyIf (d.taskID = task.id ∧
      (d.status = .accepted ∨ d.status = .running ∨ d.status = .delivered))
      (announceOutcome
        { d with status := finishedDelegationStatus d.status run.status, revision := d.revision + 1 }
        d.revision run a)

/-- `conversation_task_store.go::finishConversationTask`. -/
def finishConversationTask (run : Run) (authority : Authority) (content : String)
    (reported : Bool) : StoreTx Unit :=
  match run.background with
  | none => pure ()
  | some background => do
    let task ← taskRow background.taskID authority
    demand (task.executionConversation = run.conversationID) (conflict "task_run_changed")
    demand (task.status = .running ∧ task.executionRunID = some run.id)
      (conflict "task_run_changed")
    let task ← finishConversationTaskCompletion task run content
    let task ← closeConversationTaskPlan
      { task with status := finishedTaskStatus task run.status, errorCode := run.errorCode } run
    let task := recordConversationFollowUpTerminal (setConversationTaskGoalPhase task) run.status
      reported
    finishConversationDelegation task run authority
    saveTask task .running

/-- `conversation_task_store.go::resumeConversationTask`.  A task that
is running is left alone, whichever run executes it. -/
def resumeConversationTask (run : Run) (authority : Authority) : StoreTx Unit :=
  match run.background with
  | none => pure ()
  | some background => do
    let task ← taskRow background.taskID authority
    if task.status = .running then pure ()
    else do
      demand (task.executionRunID = some run.id ∧
        (task.status = .failed ∨ task.status = .cancelled)) (conflict "task_resume_invalid")
      saveTask (setConversationTaskGoalPhase { task with status := .running, errorCode := "" })
        task.status

/-! ### Interactions and writes a cancellation closes -/

/-- `conversation_interaction_store.go::closeRunInteraction`. -/
def closeRunInteraction (row : RunRow) (status : InteractionStatus) : StoreTx RunRow :=
  match row.run.interaction with
  | none => pure row
  | some i =>
    if i.status = .pending ∨
        (status = .resolved ∧ i.kind = .reconciliation ∧ i.status = .cancelled) then do
      let found ← read (fun s => s.interactions.get? (row.run.id, i.step, i.callID, i.kind))
      let record ← require found (conflict "interaction_closed")
      demand (record.interaction.status = i.status) (conflict "interaction_closed")
      let closed := { record.interaction with
        status := status, revision := record.interaction.revision + 1 }
      write (fun s => { s with
        interactions := s.interactions.put { record with interaction := closed } })
      event { row with run := { row.run with interaction := some closed } } (.interaction status)
    else pure row

/-- Overwrite a tool record that was read in this transaction. -/
def writeTool (record : ToolExecution) : StoreTx Unit :=
  write (fun s => { s with tools := s.tools.put record })

/-- A write whose outcome a cancellation leaves unknown. -/
def interruptedCall (call : ToolExecution) : ToolExecution :=
  { call with
    state := .uncertain
    result := some ⟨.uncertain, "external_result_unknown", "", false⟩ }

/-- Record each interrupted write and its event. -/
def interruptCalls : List ToolExecution → RunRow → StoreTx RunRow
  | [], row => pure row
  | call :: rest, row => do
    writeTool (interruptedCall call)
    let row ← event row (.tool .uncertain)
    interruptCalls rest row

/-- `conversation_cancellation_store.go::interruptConversationWrites`. -/
def interruptConversationWrites (row : RunRow) : StoreTx RunRow := do
  let calls ← read (fun s => s.tools.rows.filter (fun call =>
    call.runID = row.run.id ∧ call.state = .started ∧ call.definition.effect = .write))
  interruptCalls calls row

/-! ### Cancelling and resuming -/

/-- The row after its lease was taken away. -/
def releasedRow (v : RunRow) : RunRow := { v with fence := v.fence + 1, owner := none, expires := 0 }

/-- `transitionRun`, the branch that cancels. -/
def cancelRun (c : Conversation) (old : RunRow) (a : Authority) : StoreTx Unit :=
  if old.run.status.terminal = true then pure ()
  else do
    let v ← interruptConversationWrites old
    let v ← closeRunInteraction { v with run := { v.run with status := .cancelled } } .cancelled
    onlyIf (v.run.background = none) (saveConversation
      { c with activeRunID := if c.activeRunID = some old.run.id then none else c.activeRunID }
      c.revision a)
    let v ← event (releasedRow v) (.run .cancelled)
    finishConversationTask v.run v.authority "" false
    saveRun v old

/-- Delegated work resumes only under its current agreement; a resumption that
restarts the run restarts the delegation. -/
def resumeRunDelegation (old : RunRow) (a : Authority) : StoreTx Unit :=
  match old.run.delegated with
  | none => pure ()
  | some (id, task) => do
    let d ← conversationDelegation id a
    demand (d.taskID = task.taskID ∧ d.conversationID = old.run.conversationID ∧
      d.brief.version = task.briefVersion ∧ max 1 task.agreementRevision = d.agreementRevision ∧
      d.pendingChanges = [] ∧ (d.status = .paused ∨ d.status = .failed ∨ d.status = .running ∨
        d.status = .delivered)) (conflict "delegation_transition_invalid")
    onlyIf (old.run.status.terminal = true ∨ old.run.status = .needsReconciliation)
      (saveConversationDelegation { d with status := .running, revision := d.revision + 1 }
        d.revision a)

/-- An interaction that ended without an answer keeps its run closed. -/
def interactionClosed (run : Run) : Bool :=
  match run.interaction with
  | none => false
  | some i => i.kind != .reconciliation &&
      (i.status == .cancelled || i.status == .expired || i.status == .rejected)

/-- The row a resumption queues. -/
def resumedRow (old : RunRow) (a : Authority) : RunRow :=
  { old with
    authority := a, owner := none, expires := 0, fence := old.fence + 1
    run := { old.run with status := .queued, errorCode := "", draftText := "" } }

/-- `transitionRun`, the branch that resumes. -/
def resumeRun (c : Conversation) (old : RunRow) (a : Authority) : StoreTx Unit := do
  resumeRunDelegation old a
  demand (old.run.status ≠ .waitingUser ∧ old.run.status ≠ .waitingConfirmation)
    (conflict "interaction_response_required")
  if old.run.status.terminal = false ∧ old.run.status ≠ .needsReconciliation then pure ()
  else do
    demand (old.run.status ≠ .completed) (conflict "run_completed")
    demand (c.archived = false) (conflict "archived")
    demand (interactionClosed old.run = false) (conflict "interaction_closed")
    demand (old.run.background ≠ none ∨
      ((c.activeRunID = none ∨
          (c.activeRunID = some old.run.id ∧ old.run.status = .needsReconciliation)) ∧
        c.lastSeq = max old.run.userSeq old.run.lastInputSeq)) (conflict "run_superseded")
    checkConversationQueueCapacity a
    onlyIf (old.run.background = none)
      (saveConversation { c with activeRunID := some old.run.id } c.revision a)
    let v ← event (resumedRow old a) (.run .queued)
    resumeConversationTask v.run v.authority
    saveRun v old

def transitionRun (id runID : Id) (a : Authority) (resume : Bool) : StoreTx Unit := do
  let c ← getConversation id a
  let old ← runRow id runID a
  if resume then resumeRun c old a else cancelRun c old a

/-! ### Queueing and leasing -/

structure Send where
  clientMessageID : ClientMessage
  runID : Id
  message : String
  requestHash : Id
  agent : Option AgentRef
  deriving DecidableEq

/-- The run a message starts. -/
def enqueuedRow (c : Conversation) (input : Send) (a : Authority) (now : Time) : RunRow :=
  { authority := a, owner := none, fence := 0, expires := 0, eventSeq := 0
    run :=
      { id := input.runID, conversationID := c.id
        clientMessageID := input.clientMessageID, requestHash := .content input.requestHash
        agent := input.agent, status := .queued, userSeq := c.lastSeq + 1
        lastInputSeq := 0, attempt := 0, draftText := "", assistantMessageSeq := none
        interaction := none, background := none, errorCode := "", createdAt := now } }

/-- `Enqueue`.  A repeated client message
answers with the run it already has. -/
def enqueue (id : Id) (input : Send) (a : Authority) : StoreTx Unit := do
  let c ← getConversation id a
  let previous ← read (fun s => s.runs.rows.find? (fun row =>
    row.run.conversationID = id ∧ conversationOwner row.authority = conversationOwner a ∧
      row.run.clientMessageID = input.clientMessageID))
  match previous with
  | some row => demand (row.run.requestHash = .content input.requestHash) (conflict "idempotency_conflict")
  | none => do
    demand (c.delegationID = none) (conflict "delegation_message_required")
    demand (c.archived = false) (conflict "archived")
    demand (c.activeRunID = none) (conflict "busy")
    checkConversationQueueCapacity a
    demand (c.agentID = none ∨ input.agent.map (·.id) = c.agentID) (conflict "agent_changed")
    let now ← read (·.now)
    saveConversation { c with lastSeq := c.lastSeq + 1, activeRunID := some input.runID }
      c.revision a
    insertMessage
      { conversationID := id, seq := c.lastSeq + 1, runID := input.runID, role := .user
        content := input.message, backgroundTaskID := none }
    let v ← event (enqueuedRow c input a now) .queued
    insertRun v

/-- `conversation_agent_sharing_store.go::conversationAgent`: the
caller's own agent of that name, or one shared with them. -/
def conversationAgent (agents : List AgentProfile) (id : Id) (a : Authority) :
    Option AgentProfile :=
  agents.find? (fun profile => profile.viewer = conversationOwner a ∧ profile.id = id)

/-- The live leases on runs of an agent in a workspace, and of the caller. -/
def agentLeases (s : Core) (a : Authority) (agentID : Id) : Nat :=
  s.runs.rows.countP (fun row =>
    (conversationOwner row.authority = conversationOwner a ∨
      workspaceKey row.authority = workspaceKey a) ∧
    row.run.status = .running ∧ s.now < row.expires ∧ row.run.agent.any (·.id = agentID))

/-- `conversation_collaboration_control_store.go::peerAgentCapacity`.
A run whose agent is gone, disabled or has changed since is let through, for its
worker to end it. -/
def peerAgentCapacity (s : Core) (agents : List AgentProfile) (row : RunRow) : Bool :=
  match row.run.agent with
  | none => true
  | some agent =>
    if agent.id = defaultAgentID then true
    else match conversationAgent agents agent.id row.authority with
      | none => true
      | some profile =>
        if profile.enabled = false ∨ profile.revision ≠ agent.revision then true
        else agentLeases s row.authority profile.id < profile.maxConcurrent

/-- The order runs and tasks are picked in. -/
def earlier (x y : Time × Id) : Bool := x.1 < y.1 || (x.1 == y.1 && x.2 ≤ y.2)

/-- Runs a worker may lease: queued ones, and running ones whose lease ran
out. -/
def claimCandidates (s : Db) (runtimeID : Id) : List RunRow :=
  (s.runs.rows.filter (fun row => row.authority.runtimeID = runtimeID ∧
    (row.run.status = .queued ∨ (row.run.status = .running ∧ row.expires ≤ s.now)))).insertionSort
    (fun x y => earlier (x.run.createdAt, x.run.id) (y.run.createdAt, y.run.id) = true)

/-- The row a worker leases. -/
def leasedRow (old : RunRow) (worker : Id) (expires : Time) : RunRow :=
  { old with
    owner := some worker, fence := old.fence + 1, expires := expires
    run := { old.run with status := .running, attempt := old.run.attempt + 1, draftText := "" } }

/-- Lease one run. -/
def leaseRun (old : RunRow) (worker : Id) (ttl : Nat) : StoreTx (Option Claim) := do
  let c ← getConversation old.run.conversationID old.authority
  demand (old.run.background ≠ none ∨ c.activeRunID = some old.run.id)
    (conflict "run_superseded")
  let now ← read (·.now)
  let v ← event (leasedRow old worker (now + ttl)) .started
  saveRun v old
  pure (some ⟨v.authority, v.run.conversationID, v.run.id, worker, v.fence⟩)

/-- Go through the candidates; a queued one waits for its agent and for the
running quota, and a used-up quota skips the rest of its user or workspace. -/
def claimLoop (worker : Id) (ttl : Nat) (agents : List AgentProfile) :
    List RunRow → List OwnerKey → List (Id × Id) → StoreTx (Option Claim)
  | [], _, _ => pure none
  | old :: rest, owners, workspaces => do
    let available ← read (peerAgentCapacity ·.toCore agents old)
    let refused ← read (checkConversationRunningCapacity ·.toCore old.authority)
    if old.run.status ≠ .queued then leaseRun old worker ttl
    else if available = false ∨ conversationOwner old.authority ∈ owners ∨
        workspaceKey old.authority ∈ workspaces then
      claimLoop worker ttl agents rest owners workspaces
    else match refused with
      | some .user =>
        claimLoop worker ttl agents rest (conversationOwner old.authority :: owners) workspaces
      | some .workspace =>
        claimLoop worker ttl agents rest owners (workspaceKey old.authority :: workspaces)
      | none => leaseRun old worker ttl

/-- `Claim`.  `agents` is what the registry
of agents answers at that moment. -/
def claimRun (runtimeID worker : Id) (ttl : Nat) (agents : List AgentProfile) :
    StoreTx (Option Claim) := do
  demand (0 < ttl) (badRequest "claim_invalid")
  let candidates ← read (claimCandidates · runtimeID)
  claimLoop worker ttl agents candidates [] []

/-- `Heartbeat`: one conditional `UPDATE`. -/
def heartbeat (claim : Claim) (ttl : Nat) : StoreTx Bool := do
  demand (0 < ttl) (badRequest "claim_invalid")
  let now ← read (·.now)
  let live ← read (fun s => (s.runs.get? claim.runID).filter (fun row =>
    row.run.conversationID = claim.conversationID ∧
    conversationOwner row.authority = conversationOwner claim.authority ∧
    row.run.status = .running ∧ row.owner = some claim.owner ∧ row.fence = claim.fence ∧
    now < row.expires))
  match live with
  | none => pure false
  | some row => do
    write (fun s => { s with runs := s.runs.put { row with expires := now + ttl } })
    pure true

/-! ### Streaming and finishing -/

def appendEvent (claim : Claim) (kind : Id) : StoreTx Unit := do
  let old ← claimed claim
  let v ← event old (.custom kind)
  saveRun v old

/-- `AppendDelta`.  Offsets count bytes;
a chunk inside the draft must repeat it. -/
def appendDelta (claim : Claim) (offset : Nat) (delta : String) : StoreTx Unit := do
  demand (delta ≠ "") (badRequest "delta_invalid")
  let old ← claimed claim
  let size := old.run.draftText.utf8ByteSize
  if offset < size then
    demand ((old.run.draftText.toUTF8.toList.drop offset).take delta.utf8ByteSize =
      delta.toUTF8.toList) (conflict "delta_conflict")
  else do
    demand (offset = size) (conflict "delta_offset_invalid")
    let v := { old with run := { old.run with draftText := old.run.draftText ++ delta } }
    let v ← event v .delta
    saveRun v old

/-- The row `Finish` leaves: the lease is given up at the same fence. -/
def finishedRow (old : RunRow) (code : String) (seq : Nat) : RunRow :=
  if code = "" then
    { old with
      owner := none, expires := 0
      run := { old.run with
        status := .completed, errorCode := code, draftText := ""
        assistantMessageSeq := some seq } }
  else
    { old with
      owner := none, expires := 0
      run := { old.run with status := .failed, errorCode := code } }

def finish (claim : Claim) (content code : String) (reported : Bool) : StoreTx Unit := do
  let old ← claimed claim
  let c ← getConversation old.run.conversationID old.authority
  demand (old.run.background ≠ none ∨ c.activeRunID = some old.run.id)
    (conflict "run_superseded")
  demand (code ≠ "" ∨ old.run.draftText = "" ∨ old.run.draftText = content)
    (conflict "draft_mismatch")
  let v := finishedRow old code (c.lastSeq + 1)
  onlyIf (code = "") (insertMessage
    { conversationID := c.id, seq := c.lastSeq + 1, runID := v.run.id, role := .assistant
      content := content, backgroundTaskID := v.run.background.map (·.taskID) })
  saveConversation
    { c with
      lastSeq := if code = "" then c.lastSeq + 1 else c.lastSeq
      activeRunID := if v.run.background = none then none else c.activeRunID } c.revision v.authority
  let v ← event v (.run v.run.status)
  finishConversationTask v.run v.authority content reported
  saveRun v old

/-! ### What the statements do -/

section Specifications

variable {s : Db}

@[simp] theorem ensures_writeTool {record : ToolExecution} {Q : Unit → Db → Prop} :
    (writeTool record).Ensures s Q ↔ Q () { s with tools := s.tools.put record } := by
  simp [writeTool]

/-- What the claim check finds out about the run it accepts a claim for. -/
structure Accepted (s : Core) (claim : Claim) (row : RunRow) : Prop where
  found : s.runs.get? claim.runID = some row
  conversation : row.run.conversationID = claim.conversationID
  principal : conversationOwner row.authority = conversationOwner claim.authority
  running : row.run.status = .running
  owner : row.owner = some claim.owner
  fence : row.fence = claim.fence
  live : s.now < row.expires
  current : ∀ id task, row.run.delegated = some (id, task) → ∃ d,
    s.delegations.get? id = some d ∧ d.taskID = task.taskID ∧
      d.conversationID = row.run.conversationID ∧ (d.status = .running ∨ d.status = .delivered) ∧
      max 1 task.agreementRevision = d.agreementRevision ∧ task.briefVersion = d.brief.version

variable {claim : Claim} {row : RunRow}

/-- A ledger is no part of the claim check. -/
theorem Accepted.with_ledgers {s : Core} (accepted : Accepted s claim row)
    (ledgers : Table WorkLedger.key) : Accepted { s with ledgers := ledgers } claim row :=
  ⟨accepted.found, accepted.conversation, accepted.principal, accepted.running, accepted.owner,
    accepted.fence, accepted.live, accepted.current⟩

/-- Nor is the agreement history. -/
theorem Accepted.with_agreements {s : Core} (accepted : Accepted s claim row)
    (history : Table AgreementRevision.key) : Accepted { s with agreements := history } claim row :=
  ⟨accepted.found, accepted.conversation, accepted.principal, accepted.running, accepted.owner,
    accepted.fence, accepted.live, accepted.current⟩

theorem claimed_accepts :
    (claimed claim).Ensures s (fun row s' => s' = s ∧ Accepted s.toCore claim row) := by
  simp only [claimed, wp, ensures_runRow]
  rintro row found conversation principal ⟨running, owner, fence, live⟩
  split
  · next foreground =>
    rw [ensures_pure]
    refine ⟨rfl, found, conversation, principal, running, owner, fence, live, ?_⟩
    intro id task delegated
    rw [foreground] at delegated
    cases delegated
  · next id task delegated =>
    simp only [wp, ensures_conversationDelegation]
    rintro d visible ⟨sameTask, sameConversation, status, _, revision, version⟩
    refine ⟨trivial, found, conversation, principal, running, owner, fence, live, ?_⟩
    intro id' task' delegated'
    rw [delegated] at delegated'
    cases delegated'
    exact ⟨d, get?_of_conversationDelegation visible, sameTask, sameConversation, status,
      revision, version⟩

theorem readOnly_claimed (claim : Claim) : (claimed claim).ReadOnly :=
  fun _ => claimed_accepts.mono (fun _ _ accepted => accepted.1)

@[simp] theorem ensures_claimed {Q : RunRow → Db → Prop} :
    (claimed claim).Ensures s Q ↔ ∀ row, (claimed claim).peek s = .ok row → Q row s :=
  (readOnly_claimed claim).ensures

theorem accepted_of_claimed (found : (claimed claim).peek s = .ok row) :
    Accepted s.toCore claim row :=
  (claimed_accepts.peek (readOnly_claimed claim) found).2

end Specifications

end DomainryAgent
