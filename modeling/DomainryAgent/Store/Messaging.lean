import DomainryAgent.Store.Assignments

/-!
Peer messages as operations: sending one, and launching the run of a recipient
that is idle.

A reply closes every open question that asks the same.  A launch goes through
the pending messages of the whole runtime, oldest first.
-/

namespace DomainryAgent

open Lib Tx

/-! ### Sending -/

/-- The kinds a caller may send; a reply names what it answers. -/
def validPeerSend (input : PeerSend) : Bool :=
  match input.kind with
  | .message | .question => input.replyToID.isNone
  | .reply => input.replyToID.isSome
  | _ => false

/-- The conversation of one of the two agents. -/
def agentConversation (d : Delegation) (agentID : Id) : Option Id :=
  if agentID = d.toAgentID then some d.conversationID
  else if agentID = d.fromAgentID then some d.sourceConversationID
  else none

/-- The agent that sends and the conversation that receives: a side writes to
the other one, a user or a participant to either. -/
def messageRoute (d : Delegation) (input : PeerSend) (participant : Bool)
    (senderAgentID : Option Id) : Option Id × Option Id :=
  let sides := match input.senderConversationID with
    | none => (none, agentConversation d input.toAgentID)
    | some id =>
      if id = d.sourceConversationID ∧ input.toAgentID = d.toAgentID then
        (some d.fromAgentID, some d.conversationID)
      else if id ≠ d.sourceConversationID ∧ id = d.conversationID ∧
          input.toAgentID = d.fromAgentID then
        (some d.toAgentID, some d.sourceConversationID)
      else (none, none)
  if participant then
    (sides.1.or senderAgentID, (agentConversation d input.toAgentID).or sides.2)
  else sides

/-- The agent of the conversation a participant writes from. -/
def participantAgent (input : PeerSend) (participant : Bool) (a : Authority) :
    StoreTx (Option Id) :=
  match input.senderConversationID with
  | none => pure none
  | some id =>
    if participant = false then pure none
    else do
      let sender ← getConversation id a
      pure (some (sender.agentID.getD defaultAgentID))

/-- The messages of a delegation, and those a user sent within a minute. -/
def messageCounts (s : Db) (d : Delegation) (recordOwner a : Authority) : Nat × Nat :=
  let scope := s.peerMessages.rows.filter (delegationMessageScope d recordOwner ·)
  (scope.length, (scope.filter (fun m =>
    s.now < m.createdAt + 60000 ∧ m.senderUserID = some a.userID)).length)

/-- The identity a message is stored under before its side is known, and the
agent it is for.  Between two users both are those of the accepted task. -/
def messageRecipient (d : Delegation) (input : PeerSend) (participant : Bool)
    (recordOwner : Authority) : StoreTx (Authority × Option AgentRef) := do
  let found ← delegationSubjects d.id recordOwner
  if participant = false ∧ found = none then pure (recordOwner, input.executionAgent)
  else do
    let taskOwner := (found.map (·.execution)).getD recordOwner
    let target ← taskRow d.taskID taskOwner
    demand (target.authority.known = true) (forbidden "execution_subject_mismatch")
    let agent := if input.toAgentID = d.toAgentID then target.agent else some d.sourceAgent
    demand (agent ≠ none) (forbidden "agent_message_recipient_invalid")
    pure (target.authority, agent)

/-- The run a message waits for that is to be read by the next one. -/
def awaitedRun (s : Db) (mode : DeliveryMode) (conversationID : Id) (a : Authority) : Option Id :=
  match mode with
  | .nextStep => none
  | .nextRun =>
    ((s.runs.rows.filter (fun row => row.run.conversationID = conversationID ∧
      conversationOwner row.authority = conversationOwner a ∧
      row.run.status.terminal = false)).insertionSort
      (fun x y => y.run.createdAt ≤ x.run.createdAt)).head?.map (·.run.id)

/-- A question of the current agreement that nobody answered. -/
def PeerMessage.OpenQuestion (m : PeerMessage) (d : Delegation) : Prop :=
  m.kind = .question ∧ m.superseded = false ∧ m.answeredByID = none ∧ m.Under d

instance (m : PeerMessage) (d : Delegation) : Decidable (m.OpenQuestion d) :=
  inferInstanceAs (Decidable (_ ∧ _ ∧ _ ∧ _))

/-- `strings.ToLower(strings.Join(strings.Fields(content), " "))`. -/
def canonicalQuestion (content : String) : List Char :=
  (List.intercalate [' '] (fields isSpace content.toList)).map toLower

/-- The same question from the same sender, in the same scope. -/
def sameQuestion (m question : PeerMessage) : Bool :=
  m.senderUserID = question.senderUserID && m.senderRoleKey = question.senderRoleKey &&
  m.participantUserID = question.participantUserID &&
  m.participantRevision = question.participantRevision &&
  m.fromAgentID = question.fromAgentID && m.toAgentID = question.toAgentID &&
  m.conversationID = question.conversationID && m.documents = question.documents &&
  m.source = question.source && canonicalQuestion m.content = canonicalQuestion question.content

/-- The open question a reply names; the reply goes to who asked it. -/
def repliedQuestion (s : Db) (d : Delegation) (m : PeerMessage) (a : Authority) :
    Except Error PeerMessage :=
  match (m.replyToID.bind s.peerMessages.get?).filter (delegationMessageScope d a ·) with
  | none => .error (conflict "peer_question_unavailable")
  | some question =>
    if ¬ question.OpenQuestion d then .error (conflict "peer_question_unavailable")
    else if m.fromAgentID.any (· ≠ question.toAgentID) then
      .error (forbidden "peer_reply_actor_invalid")
    else if m.toAgentID ≠ question.fromAgentID.getD
        (if question.toAgentID = d.fromAgentID then d.toAgentID else d.fromAgentID) then
      .error (forbidden "peer_reply_actor_invalid")
    else .ok question

/-- Record the answer of an open question. -/
def answerQuestion (answer id : PeerMessageID) : StoreTx Unit := do
  let found ← read (fun s => s.peerMessages.get? id)
  let m ← require found (conflict "revision_conflict")
  write (fun s => { s with
    peerMessages := s.peerMessages.put { m with answeredByID := some answer } })

/-- Close the questions a reply answers. -/
def closeQuestions (d : Delegation) (m : PeerMessage) (a : Authority) : StoreTx PeerMessage :=
  if m.kind ≠ .reply then pure m
  else do
    let question ← check (repliedQuestion · d m a)
    let targets ← read (fun s => (s.peerMessages.rows.filter (fun candidate =>
      delegationMessageScope d a candidate ∧ candidate.OpenQuestion d ∧
        sameQuestion candidate question = true)).map (·.id))
    demand (targets ≠ []) (conflict "peer_question_unavailable")
    forEach targets (answerQuestion m.id)
    pure { m with answeredQuestionIDs := targets }

/-- `conversation_peer_delivery_store.go::preparePeerMessageDelivery`. -/
def preparePeerMessageDelivery (d : Delegation) (m : PeerMessage) (mode : DeliveryMode)
    (a : Authority) : StoreTx PeerMessage := do
  let after ← read (awaitedRun · mode m.conversationID a)
  closeQuestions d { m with afterRunID := after } a

/-- The id of a message to the delegation `id`. -/
def sentID (id : Id) (input : PeerSend) (a : Authority) : PeerMessageID :=
  .sent (conversationOwner a) id input.senderConversationID input.clientID

/-- The row of a message that is sent. -/
def sentMessage (d : Delegation) (input : PeerSend) (participant : Bool) («from» : Option Id)
    (conversationID : Id) (agent : Option AgentRef) (recipient a : Authority) (now : Time) :
    PeerMessage :=
  { id := sentID d.id input a, runtimeID := a.runtimeID, authority := recipient, agent := agent
    createdAt := now, consumed := none, delegationID := d.id, conversationID := conversationID
    fromAgentID := «from», toAgentID := input.toAgentID, senderUserID := some a.userID
    senderRoleKey := some a.roleKey, kind := input.kind, content := input.content
    documents := input.documents, source := input.source, briefVersion := input.briefVersion
    agreementRevision := d.agreementRevision, replyToID := input.replyToID, answeredByID := none
    answeredQuestionIDs := [], disagreement := none, afterRunID := none, superseded := false
    participantUserID := if participant then some a.userID else none
    participantRevision := if participant then input.grant.getD 0 else 0 }

def insertPeerMessage (m : PeerMessage) : StoreTx Unit :=
  insertRow (·.peerMessages) (fun t s => { s with peerMessages := t }) "_agent_peer_messages" m

/-- What a delegation still takes: it is open, the message is for its agreement,
and its inbox has room. -/
def checkPeerSend (d : Delegation) (input : PeerSend) (a : Authority) : StoreTx Unit := do
  demand (d.status ≠ .cancelled ∧ d.status ≠ .rejected ∧ d.status ≠ .acceptedDelivery)
    (conflict "delegation_closed")
  demand (input.briefVersion = d.brief.version ∧
    max 1 input.agreementRevision = d.agreementRevision) (conflict "brief_version_invalid")
  let counts ← read (messageCounts · d (delegationRecordAuthority d a) a)
  demand (counts.1 < 128) (rateLimited "agent_message_limit")
  demand (counts.2 < 16) (rateLimited "agent_message_rate")

/-- Store a message for its recipient, and what its sender is answered. -/
def deliverPeerMessage (id : Id) (input : PeerSend) (a : Authority) : StoreTx PeerMessage := do
  let d ← participantDelegation id a input.grant.isSome
  checkPeerSend d input a
  let participant := decide (d.owner.userID ≠ a.userID ∧ d.executionSubject.userID ≠ a.userID)
  let senderAgentID ← participantAgent input participant a
  let route := messageRoute d input participant senderAgentID
  let conversationID ← require route.2 (forbidden "agent_message_recipient_invalid")
  let (owner, agent) ← messageRecipient d input participant (delegationRecordAuthority d a)
  let recipient ← delegationMessageAuthority d conversationID owner
  let now ← read (·.now)
  let m ← preparePeerMessageDelivery d
    (sentMessage d input participant route.1 conversationID agent recipient a now) input.mode
    recipient
  insertPeerMessage m
  insertRow (·.peerSends) (fun t s => { s with peerSends := t }) "_agent_collaboration_mutations"
    { id := m.id, request := input.request, message := m }
  pure m

/-- `conversation_peer_messages_store.go::SendConversationAgentMessage`: a request
that was carried out is answered again. -/
def sendConversationAgentMessage (id : Id) (input : PeerSend) (a : Authority) :
    StoreTx PeerMessage := do
  demand (validPeerSend input = true) (badRequest "agent_message_invalid")
  conversationAuthority a
  let carried ← read (fun s => s.peerSends.get? (sentID id input a))
  match carried with
  | some record => do
    demand (record.request = input.request) (conflict "idempotency_conflict")
    pure record.message
  | none => deliverPeerMessage id input a

/-! ### Launching -/

/-- The run a peer message starts. -/
def peerRun (message : PeerMessage) (runID : Id) (c : Conversation) (a : Authority) (now : Time) :
    RunRow :=
  { authority := a, owner := none, fence := 0, expires := 0, eventSeq := 0
    run :=
      { id := runID, conversationID := c.id, clientMessageID := .peer message.id
        requestHash := .peer message.id, agent := message.agent, status := .queued
        userSeq := c.lastSeq + 1, lastInputSeq := 0, attempt := 0, draftText := ""
        assistantMessageSeq := none, interaction := none, background := none, errorCode := ""
        createdAt := now } }

/-- The conversation, the message and the run of a peer launch. -/
def startPeerRun (c : Conversation) (v : RunRow) : StoreTx (Option Id) := do
  saveConversation
    { c with
      lastSeq := c.lastSeq + 1
      activeRunID := if v.run.background = none then some v.run.id else none }
    c.revision v.authority
  insertMessage
    { conversationID := c.id, seq := c.lastSeq + 1, runID := v.run.id, role := .user
      content := "Continue the accepted work using the new collaboration messages. This is a " ++
        "server delivery event, not new user authorization."
      backgroundTaskID := v.run.background.map (·.taskID) }
  let v ← event v .queued
  insertRun v
  pure (some v.run.id)

/-- A delegation whose executor may be woken by a message. -/
def DelegationStatus.wakes : DelegationStatus → Bool
  | accepted | running | awaitingDelivery | delivered | failed => true
  | _ => false

/-- The task facts a peer launch freezes on its run. -/
def peerExecution (d : Delegation) (task : Task) (budget : TaskBudget) : TaskExecution :=
  { taskID := task.id, briefVersion := d.brief.version
    agreementRevision := max 1 task.agreementRevision
    planVersion := (task.plan.map (·.version)).getD 0, completionMode := .legacyResponse
    budget := budget, delegationID := some d.id, handoff := task.handoff }

/-- Wake the executor: its task runs again under the new run. -/
def wakeTask (d : Delegation) (task : Task) (c : Conversation) (v : RunRow) (budget : TaskBudget) :
    StoreTx (Option Id) := do
  demand (task.authority = v.authority) (forbidden "execution_subject_mismatch")
  saveTask
    { task with
      brief := d.brief, budget := budget, goal := d.brief.goal, status := .running
      executionRunID := some v.run.id, errorCode := "" } task.status
  saveConversationDelegation { d with status := .running, revision := d.revision + 1 } d.revision
    v.authority
  startPeerRun c { v with run := { v.run with
    agent := task.agent, background := some (peerExecution d task budget) } }

/-- Launch the run in the recipient's conversation; `none` passes over the
message. -/
def wakeRecipient (d : Delegation) (c : Conversation) (v : RunRow) : StoreTx (Option Id) :=
  if c.id ≠ d.conversationID then startPeerRun c v
  else if d.status.wakes = false then pure none
  else do
    let task ← taskRow d.taskID v.authority
    let remaining ← read (fun s => conversationDelegationRemainingBudget s.toCore d)
    if remaining.maxSteps < 1 ∨ remaining.maxToolCalls < 1 then pure none
    else wakeTask d task c v remaining

/-- Runs of a conversation that are still open. -/
def conversationBusy (s : Db) (c : Conversation) (a : Authority) : Bool :=
  s.runs.rows.any (fun row => row.run.conversationID == c.id &&
    conversationOwner row.authority == conversationOwner a && !row.run.status.terminal)

/-- A message starts one run, under an id derived from it. -/
def peerRunStarted (s : Db) (c : Conversation) (a : Authority) (id : PeerMessageID) : Bool :=
  s.runs.rows.any (fun row => row.run.conversationID == c.id &&
    conversationOwner row.authority == conversationOwner a &&
    row.run.requestHash == .peer id)

/-- Launch the run of a message whose recipient is known; a recipient that is
busy passes it over, a queue that is full is an error. -/
def launchRecipient (message : PeerMessage) (runID : Id) (d : Delegation) (a : Authority) :
    StoreTx (Option Id) := do
  let c ← getConversation message.conversationID a
  let busy ← read (conversationBusy · c a)
  let started ← read (peerRunStarted · c a message.id)
  if c.archived ∨ c.activeRunID ≠ none ∨ busy ∨ started then pure none
  else do
    checkConversationQueueCapacity a
    let now ← read (·.now)
    wakeRecipient d c (peerRun message runID c a now)

/-- Launch a candidate, or pass over it. -/
def launchPeerCandidate (runtimeID runID : Id) (message : PeerMessage) : StoreTx (Option Id) := do
  let ready ← peerMessageReady message message.authority
  if ready = false then pure none
  else do
    demand (message.authority.runtimeID = runtimeID) (forbidden "runtime_denied")
    let d ← conversationDelegation message.delegationID message.authority
    let a ← delegationMessageAuthority d message.conversationID message.authority
    demand (conversationOwner a = conversationOwner message.authority)
      (forbidden "execution_subject_mismatch")
    launchRecipient message runID d a

/-- The pending messages of a runtime, oldest first. -/
def peerCandidates (s : Db) (runtimeID : Id) : List PeerMessage :=
  (s.peerMessages.rows.filter (fun m => m.runtimeID = runtimeID ∧ m.consumed = none)).insertionSort
    (fun x y => x.createdAt ≤ y.createdAt)

/-- `conversation_peer_inbox_store.go::launchConversationPeerMessage`:
the first message whose recipient can be launched.  An error of a candidate ends
the call.  The run's id is given: the source derives it from the message. -/
def launchConversationPeerMessage (runtimeID runID : Id) : StoreTx (Option Id) := do
  let candidates ← read (peerCandidates · runtimeID)
  firstOf (launchPeerCandidate runtimeID runID) candidates

end DomainryAgent
