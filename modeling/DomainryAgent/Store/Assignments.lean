import DomainryAgent.Store.Deliveries

/-!
The operations on a delegation: its creation, the updates that move it through
its life, and its transfer to another executor.

An update that changes the agreement raises its revision, writes the history
entry of the new one and invalidates whatever depends on it.
-/

namespace DomainryAgent

open Lib Tx

/-! ### Creation -/

/-- An admitted delegation; its conversation and task have ids of their own. -/
structure Admission where
  delegationID : Id
  conversationID : Id
  taskID : Id
  sourceConversationID : Id
  sourceRunID : Option Id
  fromAgentID : Id
  sourceAgent : AgentRef
  toAgentID : Id
  toAgentRevision : Nat
  brief : Brief
  structuredInput : Option StructuredInput
  source : Option RunReference
  dependencies : List DependencyInput
  budget : TaskBudget
  workBudget : Option WorkBudget
  executor : Authority
  purpose : String
  granted : List Id := []
  deriving DecidableEq

/-- The conversation an assignment executes in. -/
def assignmentConversation (id delegationID agentID : Id) (executor : Authority) : Conversation :=
  { id := id, owner := conversationOwner executor, agentID := some agentID
    delegationID := some delegationID, archived := false, lastSeq := 0, activeRunID := none
    revision := 1 }

def insertConversation (c : Conversation) : StoreTx Unit :=
  insertRow (·.conversations) (fun t s => { s with conversations := t }) "_agent_conversations" c

def insertAssignment (assignment : Assignment) : StoreTx Unit :=
  insertRow (·.assignments) (fun t s => { s with assignments := t })
    "_agent_conversation_assignments" assignment

/-- `conversation_delegation_subjects_store.go::saveDelegationSubjects`. -/
def saveDelegationSubjects (id : Id) (source execution : Authority) : StoreTx Unit :=
  onlyIf (source ≠ execution)
    (insertRow (·.subjects) (fun t s => { s with subjects := t })
      "_agent_conversation_delegation_subjects"
      { delegationID := id, source := source, execution := execution })

/-- The task an admission queues. -/
def admittedTask (input : Admission) (now : Time) : Task :=
  setConversationTaskGoalPhase
    { id := input.taskID, authority := input.executor, requestHash := input.delegationID
      origin := .delegation, followUp := false, status := .queued, goal := input.brief.goal
      brief := input.brief, agreementRevision := 1, structuredInput := input.structuredInput
      inputSource := input.source, budget := input.budget, plan := none
      agent := some ⟨input.toAgentID, input.toAgentRevision⟩, delegationID := some input.delegationID
      sourceConversationID := input.sourceConversationID, sourceRunID := input.sourceRunID
      executionConversationID := some input.conversationID, executionRunID := none
      previousExecutionRuns := [], errorCode := "", completionMode := .legacyResponse
      completion := none, goalProgress := startedProgress input.brief, createdAt := now }

/-- The delegation an admission records. -/
def admittedDelegation (input : Admission) (root : Id) (workBudget : WorkBudget)
    (dependencies : List Dependency) (a : Authority) : Delegation :=
  { id := input.delegationID, owner := conversationOwner a
    executionSubject := conversationOwner input.executor, fromAgentID := input.fromAgentID
    sourceAgent := input.sourceAgent
    toAgentID := input.toAgentID, sourceConversationID := input.sourceConversationID
    sourceRunID := input.sourceRunID, rootConversationID := root
    conversationID := input.conversationID, taskID := input.taskID, brief := input.brief
    briefSource := input.source, structuredInput := input.structuredInput
    inputSource := input.source, dependencies := dependencies, budget := input.budget
    workBudget := workBudget, status := .accepted, agreementRevision := 1
    adoptedAgreementRevision := 0, assignmentNumber := 1, pendingChanges := [], delivery := none
    verification := none, disagreements := [], decision := "", revision := 1 }

/-- The source of a delegation is current work of its own. -/
def checkAdmissionSource (source : Conversation) (a : Authority) : StoreTx Unit :=
  match source.delegationID with
  | none => pure ()
  | some id => do
    let current ← conversationDelegation id a
    demand (current.conversationID = source.id) (conflict "delegation_superseded")

/-- A source run, when one is named, must be running. -/
def checkAdmissionRun (source : Conversation) (sourceRunID : Option Id) (a : Authority) :
    StoreTx Unit :=
  match sourceRunID with
  | none => pure ()
  | some runID => do
    let run ← runRow source.id runID a
    demand (run.run.status = .running) (conflict "run_superseded")

/-- The references of a new delegation: the given ones and, unless given, the
delegation it was created in. -/
def admissionReferences (s : Db) (input : Admission) (source : Conversation) (a : Authority) :
    Except Error (List DependencyInput) :=
  match source.delegationID with
  | none => .ok input.dependencies
  | some id =>
    if input.dependencies.any (·.delegationID = id) then .ok input.dependencies
    else do
      let upstream ← (conversationDelegation id a).peek s
      .ok (input.dependencies ++
        [{ delegationID := id, briefVersion := upstream.brief.version
           agreementRevision := upstream.agreementRevision, fields := [] }])

/-- The rows of an admitted delegation. -/
def recordAdmission (input : Admission) (root : Id) (workBudget : WorkBudget)
    (dependencies : List Dependency) (a : Authority) : StoreTx Unit := do
  let now ← read (·.now)
  let d := admittedDelegation input root workBudget dependencies a
  insertConversation
    (assignmentConversation input.conversationID input.delegationID input.toAgentID input.executor)
  insertTask (admittedTask input now)
  insertRow (·.delegations) (fun t s => { s with delegations := t })
    "_agent_conversation_delegations" d
  saveDelegationSubjects d.id a input.executor
  saveAgreementRevision d (.requirements []) input.purpose
  insertAssignment
    { delegationID := d.id, number := 1, agentID := d.toAgentID, conversationID := d.conversationID
      taskID := d.taskID, agreementRevision := 1, executor := input.executor }

/-- What the client of an admission has asked for; the rest is looked up for
it. -/
def admissionRecord (input : Admission) : AdmissionRecord where
  delegationID := input.delegationID
  sourceConversationID := input.sourceConversationID
  sourceRunID := input.sourceRunID
  fromAgentID := input.fromAgentID
  toAgentID := input.toAgentID
  brief := input.brief
  structuredInput := input.structuredInput
  source := input.source
  dependencies := input.dependencies
  budget := input.budget
  workBudget := input.workBudget
  executor := input.executor
  purpose := input.purpose

/-- An admission its client asks for the first time. -/
def admitDelegation (input : Admission) (a : Authority) : StoreTx Unit := do
  let source ← getConversation input.sourceConversationID a
  checkAdmissionSource source a
  demand (source.archived = false ∧ input.fromAgentID = source.agentID.getD defaultAgentID)
    (conflict "delegation_invalid")
  checkAdmissionRun source input.sourceRunID a
  checkConversationQueueCapacity input.executor
  let root ← check (conversationDelegationRoot · (some input.toAgentID) 8 source.id a)
  let workBudget ← admitConversationWorkBudget root input.workBudget a
  let references ← check (admissionReferences · input source a)
  let dependencies ← check (freezeTaskDependencies · input.delegationID root references a
    input.granted)
  recordAdmission input root workBudget dependencies a
  insertRow (·.admissions) (fun t s => { s with admissions := t })
    "_agent_conversation_collaboration_mutations" (admissionRecord input)

/-- `conversation_delegation_store.go::CreateConversationDelegation`.  The
id of a delegation stands for its client's: the same one again is answered from
the record. -/
def createConversationDelegation (input : Admission) (a : Authority) : StoreTx Unit := do
  demand (input.executor.known = true ∧ sameConversationWorkspace a input.executor)
    (forbidden "execution_subject_mismatch")
  conversationAuthority a
  let stored ← read (fun s => s.admissions.get? input.delegationID)
  match stored with
  | some record => demand (record = admissionRecord input) (conflict "idempotency_conflict")
  | none => admitDelegation input a

/-! ### Updates -/

/-- What an update does. -/
inductive DelegationAction where
  | disagreement (change : DisagreementChange)
  | reviewDelivery (review : Option DeliveryReview)
  | acceptDelivery (review : Option DeliveryReview)
  | deliver (delivery : Delivery) (evaluation : Evaluation)
  | requestChanges
  | updateBrief (brief : Brief)
  | updateInput (input : StructuredInput)
  | setDependencies (refs : List DependencyInput)
  | pause
  | cancel
  | reject
  | resume (refs : Option (List DependencyInput))
  deriving DecidableEq

/-- How an action controls the task, if it does. -/
def DelegationAction.control : DelegationAction → Option Control
  | disagreement _ | reviewDelivery _ | acceptDelivery _ | deliver .. => none
  | requestChanges => some .requestChanges
  | updateBrief _ => some .updateBrief
  | updateInput _ => some .updateInput
  | setDependencies _ => some .setDependencies
  | pause => some .pause
  | cancel => some .cancel
  | reject => some .reject
  | resume _ => some .resume

structure DelegationUpdate where
  action : DelegationAction
  expectedRevision : Nat
  reason : String
  source : Option RunReference
  manager : Bool
  granted : List Id := []
  deriving DecidableEq

/-- The executor delivers and rejects. -/
def DelegationAction.executors : DelegationAction → Bool
  | deliver .. | reject => true
  | _ => false

/-- Actions still open on an accepted delivery. -/
def DelegationAction.reopens : DelegationAction → Bool
  | updateBrief _ | setDependencies _ | updateInput _ | disagreement _ => true
  | _ => false

/-- Actions that can change the agreement. -/
def DelegationAction.amends : DelegationAction → Bool
  | updateBrief _ | updateInput _ | setDependencies _ | resume _ => true
  | _ => false

/-- Who may take an action. -/
def checkDelegationActor (d : Delegation) (update : DelegationUpdate) (a : Authority) :
    StoreTx Unit := do
  let owner := decide (d.owner.userID = a.userID)
  demand (owner ∨ update.action.executors ∨ update.manager)
    (forbidden "delegation_actor_invalid")
  onlyIf (owner = false ∧ update.action.executors = true)
    (check (fun s => ((executionDelegation d.id a).peek s).map (fun _ => ())))
  demand (d.executionSubject.userID = d.owner.userID ∨ update.action.executors = false ∨
    a.userID = d.executionSubject.userID) (forbidden "delegation_actor_invalid")

/-- An amendment of a delegation: the record after the action, the fields of
the agreement it changed, whether the agreement got a new revision, and the
disagreement to be stored with it. -/
structure Amendment where
  delegation : Delegation
  fields : List AgreementField
  changed : Bool
  disagreement : Option Disagreement := none

/-- A delivery must be for the current agreement, which must have no open
change. -/
def acceptableDelivery (d : Delegation) : Bool :=
  decide (d.status = .delivered) && d.pendingChanges.isEmpty &&
  d.delivery.any (fun delivery => delivery.briefVersion == d.brief.version &&
    delivery.agreementRevision == d.agreementRevision)

/-- The verification of the delivery under review. -/
def reviewedDelivery (d : Delegation) (update : DelegationUpdate) (review : Option DeliveryReview) :
    Except Error DeliveryVerification :=
  if update.source.any (fun reference => decide (update.manager = false) &&
      decide (reference.conversationID ≠ d.sourceConversationID)) then
    .error (forbidden "delegation_actor_invalid")
  else if acceptableDelivery d = false then .error (conflict "delegation_delivery_invalid")
  else match d.delivery, review with
    | some delivery, some review =>
      verifyDelegationDelivery d delivery (some review.deliveryDigest) review.evaluation
    | _, _ => .error (badRequest "completion_review_required")

/-- The task of an accepted delivery is completed and leaves nothing open. -/
def checkAcceptance (s : Db) (d : Delegation) (report : DeliveryVerification) : Except Error Unit :=
  if report.ready = false then .error (conflict "completion_conditions_unmet")
  else if (s.tasks.get? d.taskID).any (·.status == .completed) = false then
    .error (conflict "delegation_still_running")
  else do
    let _ ← prepareDelegationHandoff s d
    .ok ()

/-- A delivery as stored; the first agreement may be left out. -/
def storedDelivery (d : Delegation) (delivery : Delivery) : Delivery :=
  if delivery.agreementRevision = 0 ∧ d.agreementRevision = 1 then
    { delivery with agreementRevision := 1 }
  else delivery

/-- A delivery from a run must come from one launched under the agreement. -/
def checkDeliverySource (s : Db) (d : Delegation) (source : Option RunReference) (a : Authority) :
    Except Error Unit :=
  match source with
  | none => .ok ()
  | some reference => do
    let row ← (runRow reference.conversationID reference.runID a).peek s
    if row.run.background.any (fun task =>
        max 1 task.agreementRevision == d.agreementRevision) then .ok ()
    else .error (conflict "delegation_superseded")

/-- Accept a delivery into the record. -/
def deliverTo (s : Db) (d : Delegation) (delivery : Delivery) (evaluation : Evaluation)
    (source : Option RunReference) (a : Authority) : Except Error Amendment :=
  if ¬(d.status = .running ∨ d.status = .awaitingDelivery ∨ d.status = .delivered) then
    .error (conflict "delegation_transition_invalid")
  else if ¬(delivery.briefVersion = d.brief.version ∧ d.pendingChanges = [] ∧
      (storedDelivery d delivery).agreementRevision = d.agreementRevision) then
    .error (conflict "delegation_delivery_invalid")
  else do
    checkDeliverySource s d source a
    let report ← verifyDelegationDelivery d (storedDelivery d delivery) none evaluation
    .ok
      { fields := [], changed := false
        delegation :=
          { d with
            delivery := some (storedDelivery d delivery), verification := some report
            status := .delivered } }

/-- Take up work again, with the dependencies it then has. -/
def resumeWith (s : Db) (d : Delegation) (refs : Option (List DependencyInput)) (a : Authority)
    (granted : List Id) : Except Error Amendment :=
  if ¬(d.status = .paused ∨ d.status = .needsChanges ∨ d.status = .needsUpdate ∨
      d.status = .failed) then .error (conflict "delegation_transition_invalid")
  else do
    let dependencies ← resumeDependencyReferences s d refs a granted
    let resumed := { d with pendingChanges := [], status := .accepted }
    .ok (if dependencies = d.dependencies then
        { delegation := resumed, fields := [], changed := false }
      else
        { delegation := { resumed with dependencies := dependencies }, fields := [.dependencies]
          changed := true })

/-- An amendment that leaves the agreement. -/
def Amendment.quiet (d : Delegation) : Amendment :=
  { delegation := d, fields := [], changed := false }

/-- An amendment of the agreement. -/
def Amendment.change (d : Delegation) (fields : List AgreementField) : Amendment :=
  { delegation := { d with status := .needsUpdate }, fields := fields, changed := true }

/-- The switch over the action. -/
def amend (s : Db) (d : Delegation) (update : DelegationUpdate) (a : Authority) :
    Except Error Amendment :=
  match update.action with
  | .disagreement change => do
    let (next, value) ← applyDisagreement s d change update.source a
    .ok { Amendment.quiet next with disagreement := some value }
  | .reviewDelivery review => do
    let report ← reviewedDelivery d update review
    .ok (.quiet { d with verification := some report })
  | .acceptDelivery review => do
    let report ← reviewedDelivery d update review
    checkAcceptance s d report
    .ok (.quiet { d with verification := some report, status := .acceptedDelivery })
  | .deliver delivery evaluation => deliverTo s d delivery evaluation update.source a
  | .requestChanges => .ok (.quiet { d with status := .needsChanges })
  | .updateBrief brief =>
    if brief.version ≠ d.brief.version + 1 then .error (conflict "brief_version_invalid")
    else if changedBriefFields d.brief brief = [] then .error (badRequest "brief_unchanged")
    else .ok (.change { d with brief := brief, briefSource := update.source }
      (changedBriefFields d.brief brief))
  | .updateInput input =>
    if inputJSON (some input) = inputJSON d.structuredInput then
      .error (badRequest "brief_unchanged")
    else .ok (.change { d with structuredInput := some input, inputSource := update.source }
      [.input])
  | .setDependencies refs => do
    let dependencies ← freezeTaskDependencies s d.id d.rootConversationID refs a update.granted
    .ok (.change { d with dependencies := dependencies } [.dependencies])
  | .pause => .ok (.quiet { d with status := .paused })
  | .cancel => .ok (.quiet { d with status := .cancelled })
  | .reject => .ok (.quiet { d with status := .rejected })
  | .resume refs => resumeWith s d refs a update.granted

/-- The new agreement's own pending change; a resumption takes it up at once. -/
def ownChange (d : Delegation) (fields : List AgreementField) (action : DelegationAction) :
    List RequirementChange :=
  match action with
  | .resume _ => d.pendingChanges
  | _ => mergePending d.pendingChanges
      { sourceDelegationID := d.id, sourceBriefVersion := d.brief.version
        sourceAgreementRevision := d.agreementRevision, viaDelegationID := none
        changedFields := fields }

/-- The record an update saves. -/
def updatedDelegation (amendment : Amendment) (update : DelegationUpdate) : Delegation :=
  let d := amendment.delegation
  let next := { d with decision := update.reason, revision := d.revision + 1 }
  if amendment.changed then
    let raised := { next with agreementRevision := d.agreementRevision + 1 }
    { raised with pendingChanges := ownChange raised amendment.fields update.action }
  else next

/-- Apply the action's control to the task. -/
def controlAction (d : Delegation) (action : DelegationAction) (a : Authority) : StoreTx Unit :=
  match action.control with
  | none => pure ()
  | some control => controlDelegationTask d control a

/-- Tell both sides of a changed agreement; a resumption takes it up itself. -/
def announceChange (d : Delegation) (fields : List AgreementField) (action : DelegationAction)
    (a : Authority) : StoreTx Unit :=
  match action with
  | .resume _ => pure ()
  | _ => requirementChangeNotices d d none fields a

/-- Supersede the messages of the agreement before, write the new one's history
entry, invalidate its dependents and tell both sides. -/
def announceAgreement (d : Delegation) (fields : List AgreementField) (update : DelegationUpdate)
    (a : Authority) : StoreTx Unit := do
  supersedePeerMessages d a
  saveAgreementRevision d (.requirements fields) update.reason
  propagateRequirementChange d fields a
  announceChange d fields update.action a

/-- Tell the source of a rejection. -/
def announceRejection (d : Delegation) (action : DelegationAction) (a : Authority) :
    StoreTx Unit :=
  match action with
  | .reject => insertConversationPeerNotice (rejectionNotice d) a none
  | _ => pure ()

/-- The history entry an action leaves about a delivery. -/
def DelegationAction.recordKind : DelegationAction → Option DeliveryRecordKind
  | deliver .. => some .deliver
  | acceptDelivery _ => some .acceptDelivery
  | reviewDelivery _ => some .reviewDelivery
  | _ => none

/-- Write the delivery history of an action that has one. -/
def recordDelivery (d : Delegation) (update : DelegationUpdate) : StoreTx Unit :=
  match update.action.recordKind with
  | none => pure ()
  | some kind => saveDeliveryRecord d kind update.reason

/-- Control the task of an amended delegation, and announce an agreement that
changed. -/
def enactAmendment (amendment : Amendment) (update : DelegationUpdate) (a : Authority) :
    StoreTx Unit := do
  let out := updatedDelegation amendment update
  controlAction out update.action a
  onlyIf (amendment.changed = true) (announceAgreement out amendment.fields update a)

/-- Save an amended delegation with what it records, enact it, and tell the
source of a rejection. -/
def applyAmendment (amendment : Amendment) (update : DelegationUpdate) (a : Authority) :
    StoreTx Unit := do
  let out := updatedDelegation amendment update
  forEach amendment.disagreement.toList saveDisagreement
  forEach amendment.disagreement.toList
    (disagreementNotice amendment.delegation update.source a)
  saveConversationDelegation out update.expectedRevision a
  recordDelivery out update
  enactAmendment amendment update a
  announceRejection out update.action a

/-- `conversation_delegation_store.go::UpdateConversationDelegation`. -/
def updateConversationDelegation (id : Id) (update : DelegationUpdate) (a : Authority) :
    StoreTx Unit := do
  let d ← participantDelegation id a update.manager
  checkDelegationActor d update a
  demand (d.revision = update.expectedRevision) (conflict "revision_conflict")
  demand (d.status ≠ .cancelled ∧ d.status ≠ .rejected ∧
    (d.status = .acceptedDelivery → update.action.reopens = true)) (conflict "delegation_closed")
  saveAgreementRevision d (.requirements []) "Initial recorded agreement"
  let amendment ← check (amend · d update a)
  applyAmendment amendment update a

/-- `republishContract` and the other publication updates: they leave
the agreement and only count the record's revision. -/
def publishDelegation (id : Id) (expectedRevision : Nat) (a : Authority) : StoreTx Unit := do
  let d ← conversationDelegation id a
  demand (d.revision = expectedRevision) (conflict "revision_conflict")
  saveConversationDelegation { d with revision := d.revision + 1 } expectedRevision a

/-! ### Transfer -/

structure Transfer where
  expectedRevision : Nat
  agentID : Id
  agentRevision : Nat
  executor : Authority
  conversationID : Id
  taskID : Id
  dependencies : Option (List DependencyInput)
  reason : String
  manager : Bool
  granted : List Id := []
  /-- The handoff as it was prepared for this request. -/
  handoff : Handoff := ⟨[], []⟩
  deriving DecidableEq

/-- Work the assignment gave out and that still reports to it. -/
def outgoingActive (s : Db) (d : Delegation) (execution : Authority) : Bool :=
  s.delegations.rows.any (fun other => other.owner == conversationOwner execution &&
    other.sourceConversationID == d.conversationID && other.status != .acceptedDelivery &&
    other.status != .cancelled && other.status != .rejected)

/-- The task of the new assignment: the current agreement under its next
revision, and what the assignments before it did. -/
def transferredTask (d : Delegation) (input : Transfer) (budget : TaskBudget) (now : Time) : Task :=
  setConversationTaskGoalPhase
    { id := input.taskID, authority := input.executor, requestHash := d.id, origin := .delegation
      followUp := false, status := .queued, goal := d.brief.goal, brief := d.brief
      agreementRevision := d.agreementRevision + 1, structuredInput := d.structuredInput
      inputSource := d.inputSource, budget := budget, plan := none
      agent := some ⟨input.agentID, input.agentRevision⟩
      delegationID := some d.id, sourceConversationID := d.sourceConversationID
      sourceRunID := d.sourceRunID, executionConversationID := some input.conversationID
      executionRunID := none, previousExecutionRuns := [], errorCode := ""
      completionMode := .legacyResponse, completion := none
      goalProgress := startedProgress d.brief, createdAt := now, handoff := some input.handoff }

/-- The delegation after its transfer. -/
def transferredDelegation (d : Delegation) (input : Transfer) (number : Nat)
    (dependencies : List Dependency) (disagreements : List DisagreementSummary) : Delegation :=
  { d with
    assignmentNumber := number, toAgentID := input.agentID
    conversationID := input.conversationID, taskID := input.taskID
    executionSubject := conversationOwner input.executor
    agreementRevision := d.agreementRevision + 1, dependencies := dependencies
    pendingChanges := [], adoptedAgreementRevision := 0, delivery := none
    verification := none, disagreements := disagreements, status := .accepted
    decision := input.reason, revision := d.revision + 1 }

/-- `conversation_transfer_subjects_store.go::transferDelegationSubjects`. -/
def transferDelegationSubjects (d : Delegation) (source execution executor : Authority) :
    StoreTx Unit := do
  let found ← delegationSubjects d.id source
  match found with
  | none => saveDelegationSubjects d.id source executor
  | some subjects => do
    demand (subjects.source = source ∧ subjects.execution = execution)
      (conflict "revision_conflict")
    write (fun s => { s with subjects := s.subjects.put { subjects with execution := executor } })

/-- The rows a transfer writes. -/
def recordTransfer (d : Delegation) (input : Transfer) (number : Nat)
    (dependencies : List Dependency) (budget : TaskBudget) (subjects : Authority × Authority)
    (a : Authority) : StoreTx Unit := do
  let now ← read (·.now)
  insertConversation (assignmentConversation input.conversationID d.id input.agentID input.executor)
  insertTask (transferredTask d input budget now)
  let disagreements ← transferDisagreementResponsibilities d input.agentID a
  let out := transferredDelegation d input number dependencies disagreements
  saveConversationDelegation out d.revision a
  insertAssignment
    { delegationID := d.id, number := number, agentID := input.agentID
      conversationID := input.conversationID, taskID := input.taskID
      agreementRevision := out.agreementRevision, executor := input.executor }
  -- The inboxes of the old assignment, before its execution is routed elsewhere.
  supersedePeerMessages { d with agreementRevision := out.agreementRevision } a
  transferDelegationSubjects d subjects.1 subjects.2 input.executor
  saveAgreementRevision out .assignment input.reason
  supersedePeerMessages out a

/-- `conversation_transfer_store.go::TransferConversationDelegation`. -/
def transferConversationDelegation (id : Id) (input : Transfer) (a : Authority) : StoreTx Unit := do
  demand (input.executor.known = true ∧ sameConversationWorkspace a input.executor)
    (forbidden "execution_subject_mismatch")
  let d ← participantDelegation id a input.manager
  demand (d.owner.userID = a.userID ∨ input.manager) (forbidden "delegation_actor_invalid")
  let subjects ← delegationAuthorities d (delegationRecordAuthority d a)
  demand (d.revision = input.expectedRevision) (conflict "revision_conflict")
  demand (d.subjectExited = false ∧ d.status ≠ .cancelled ∧ d.status ≠ .acceptedDelivery)
    (conflict "delegation_closed")
  let _ ← check (conversationDelegationRoot ·
    (if input.agentID = d.toAgentID then none else some input.agentID) 8 d.sourceConversationID
    (delegationRecordAuthority d a))
  let assignments ← read (fun s => conversationAssignments s.toCore d)
  demand (assignments.length < 16) (rateLimited "delegation_transfer_limit")
  let old ← taskRow d.taskID subjects.2
  demand (old.status.terminal = true) (conflict "delegation_still_running")
  let outgoing ← read (outgoingActive · d subjects.2)
  demand (outgoing = false) (conflict "delegation_transfer_outgoing_active")
  let handoff ← check (prepareDelegationHandoff · d)
  demand (handoff = input.handoff) (conflict "delegation_handoff_changed")
  let dependencies ← check (resumeDependencyReferences · d input.dependencies a input.granted)
  let remaining ← read (fun s => conversationDelegationRemainingBudget s.toCore d)
  demand (1 ≤ remaining.maxSteps ∧ 1 ≤ remaining.maxToolCalls)
    (rateLimited "delegation_budget_exhausted")
  checkConversationQueueCapacity input.executor
  recordTransfer d input (assignments.length + 1) dependencies remaining subjects a

end DomainryAgent
