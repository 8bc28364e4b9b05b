import DomainryAgent.Store.Execution

/-!
Delegations: who acts for them, the dependencies between their agreements, the
agreement history, and the control of the task behind a delegation.

`controlDelegationTask` cancels the active run, which writes the task and
possibly a closing plan version, and then goes on from the task it read before
that.  `propagateRequirementChange` applies it to every delegation that depends
on a changed agreement.

Where no file is named, a definition models the function of `conversation_dependencies_store.go`
of its name.
-/

namespace DomainryAgent

open Lib Tx

/-! ### Identities -/

/-- `conversation_participants_store.go::participantDelegation`.
`manager` says that the delegation's participant grants admit the caller to
manage it. -/
def participantDelegation (id : Id) (a : Authority) (manager : Bool) : StoreTx Delegation :=
  if manager then do
    conversationAuthority a
    let found ← read (fun s => s.delegations.get? id)
    let d ← require found (notFound "delegation_not_found")
    demand (d.owner.runtimeID = a.runtimeID ∧ d.owner.workspaceID = a.workspaceID)
      (notFound "delegation_not_found")
    pure d
  else conversationDelegation id a

/-- The delegation a conversation belongs to, and the one that would be found
by its conversation. -/
def upstreamOf (s : Db) (c : Conversation) (a : Authority) : Except Error (Option Delegation) :=
  match c.delegationID with
  | some id => ((conversationDelegation id a).peek s).map some
  | none => .ok (s.delegations.rows.find? (fun d =>
      d.owner = conversationOwner a ∧ d.conversationID = c.id))

/-- The authority the walk to the root goes on with. -/
def upstreamAuthority (s : Db) (c : Conversation) (d : Delegation) (a : Authority) :
    Except Error Authority :=
  match c.delegationID with
  | none => .ok a
  | some _ => ((delegationSubjects d.id a).peek s).map (fun found => (found.map (·.source)).getD a)

/-- `conversation_collaboration_control_store.go::conversationDelegationRoot`:
at most eight levels up, and the receiver must not be on the way. -/
def conversationDelegationRoot (s : Db) (receiver : Option Id) :
    Nat → Id → Authority → Except Error Id
  | 0, _, _ => .error (rateLimited "delegation_depth_limit")
  | depth + 1, current, a => do
    let c ← (getConversation current a).peek s
    let upstream ← upstreamOf s c a
    match upstream with
    | none =>
      if receiver = some (c.agentID.getD defaultAgentID) then .error (conflict "delegation_cycle")
      else .ok current
    | some d =>
      if receiver = some (if c.delegationID = none then c.agentID.getD defaultAgentID
          else d.toAgentID) then .error (conflict "delegation_cycle")
      else do
        let next ← upstreamAuthority s c d a
        conversationDelegationRoot s receiver depth d.sourceConversationID next

/-! ### Dependencies -/

/-- `conversation_dependency_subjects_store.go::dependencyDelegation`.
`granted` are the delegations that a verified participant grant lets the caller
view. -/
def dependencyDelegation (id : Id) (a : Authority) (granted : List Id) : StoreTx Delegation := do
  let d ← participantDelegation id a (decide (id ∈ granted))
  demand (d.subjectExited = false) (forbidden "dependency_source_unavailable")
  pure d

/-- Follow the dependency edges from `queue`; a way back to `id` or more than 32
delegations is a cycle.  Every visited delegation adds at most 16 edges, so the
fuel the caller gives covers the whole walk. -/
def reachesDelegation (s : Db) (a : Authority) (granted : List Id) (id : Id) :
    Nat → List Dependency → List Id → Except Error Unit
  | _, [], _ => .ok ()
  | 0, _ :: _, _ => .error (conflict "dependency_cycle")
  | fuel + 1, edge :: queue, visited =>
    if edge.reference.delegationID = id then .error (conflict "dependency_cycle")
    else if edge.reference.delegationID ∈ visited then
      reachesDelegation s a granted id fuel queue visited
    else if 32 ≤ visited.length then .error (conflict "dependency_cycle")
    else do
      let next ← (dependencyDelegation edge.reference.delegationID a granted).peek s
      reachesDelegation s a granted id fuel (queue ++ next.dependencies)
        (edge.reference.delegationID :: visited)

/-- Freeze one reference at the upstream's current agreement. -/
def freezeDependency (s : Db) (id root : Id) (a : Authority) (granted : List Id)
    (ref : DependencyInput) : Except Error Dependency := do
  let upstream ← (dependencyDelegation ref.delegationID a granted).peek s
  if upstream.rootConversationID ≠ root then .error (forbidden "dependency_goal_mismatch")
  else if upstream.brief.version ≠ ref.briefVersion ∨
      max 1 ref.agreementRevision ≠ upstream.agreementRevision then
    .error (conflict "dependency_version_changed")
  else if upstream.pendingChanges.any (·.sourceDelegationID ≠ upstream.id) then
    .error (conflict "dependency_update_required")
  else match dependencyProjection upstream.brief upstream.structuredInput ref.fields with
    | none => .error (badRequest "dependencies_invalid")
    | some values => do
      reachesDelegation s a granted id 1024 upstream.dependencies []
      .ok
        { values := values, source := upstream.briefSource
          inputSource := if dependencyUsesInput ref.fields then upstream.inputSource else none
          reference :=
            { ref with
              agreementRevision := upstream.agreementRevision
              fields := ref.fields.insertionSort (fun f g => f.rank ≤ g.rank) } }

/-- Freeze the references in order; none may be the delegation itself or
repeat. -/
def freezeReferences (s : Db) (id root : Id) (a : Authority) (granted : List Id) :
    List DependencyInput → List Id → Except Error (List Dependency)
  | [], _ => .ok []
  | ref :: rest, seen =>
    if ref.delegationID = id ∨ ref.delegationID ∈ seen then
      .error (badRequest "dependencies_invalid")
    else do
      let frozen ← freezeDependency s id root a granted ref
      let others ← freezeReferences s id root a granted rest (ref.delegationID :: seen)
      .ok (frozen :: others)

def freezeTaskDependencies (s : Db) (id root : Id) (refs : List DependencyInput) (a : Authority)
    (granted : List Id) : Except Error (List Dependency) :=
  if 16 < refs.length then .error (badRequest "dependencies_invalid")
  else do
    let frozen ← freezeReferences s id root a granted refs []
    .ok (frozen.insertionSort (fun x y => x.reference.delegationID ≤ y.reference.delegationID))

/-- A frozen dependency moved to the upstream's current versions, when what it
projects did not change. -/
def refreshedReference (s : Db) (a : Authority) (granted : List Id) (edge : Dependency) :
    Except Error DependencyInput := do
  let upstream ← (dependencyDelegation edge.reference.delegationID a granted).peek s
  if dependencyProjection upstream.brief upstream.structuredInput edge.reference.fields =
      some edge.values then
    .ok { edge.reference with
      briefVersion := upstream.brief.version, agreementRevision := upstream.agreementRevision }
  else .error (conflict "dependency_review_required")

def resumeDependencyReferences (s : Db) (d : Delegation) (given : Option (List DependencyInput))
    (a : Authority) (granted : List Id) : Except Error (List Dependency) :=
  match given with
  | some refs => freezeTaskDependencies s d.id d.rootConversationID refs a granted
  | none => do
    let refs ← d.dependencies.mapM (refreshedReference s a granted)
    if d.pendingChanges.any (·.sourceDelegationID ≠ d.id) then
      .error (conflict "dependency_review_required")
    else freezeTaskDependencies s d.id d.rootConversationID refs a granted

/-! ### Agreement history -/

/-- The history entry of a delegation's current agreement. -/
def agreementEntry (d : Delegation) (changed : AgreementChange) (reason : String) :
    AgreementRevision :=
  { delegationID := d.id, revision := d.agreementRevision, brief := d.brief
    structuredInput := d.structuredInput, inputSource := d.inputSource
    dependencies := d.dependencies, source := d.briefSource, changed := changed
    reason := reason }

/-- `saveAgreementRevisionSnapshot`:
`INSERT … ON CONFLICT DO NOTHING`. -/
def saveAgreementRevision (d : Delegation) (changed : AgreementChange) (reason : String) :
    StoreTx Unit :=
  write (fun s => { s with
    agreements := (s.agreements.insert? (agreementEntry d changed reason)).getD s.agreements })

/-! ### Budgets and evidence of the assignments -/

/-- Whether a run belongs to a conversation. -/
def runInConversation (s : Core) (runID conversationID : Id) : Bool :=
  (s.runs.get? runID).any (·.run.conversationID = conversationID)

/-- `conversation_peer_inbox_store.go::conversationDelegationRemainingBudget`. -/
def conversationDelegationRemainingBudget (s : Core) (d : Delegation) : TaskBudget :=
  let conversations := (conversationAssignments s d).map (·.conversationID)
  let steps := (s.steps.rows.filter (fun step =>
    conversations.any (runInConversation s step.runID ·))).length
  let calls := (s.tools.rows.filter (fun call =>
    conversations.any (runInConversation s call.runID ·))).length
  { maxSteps := d.budget.maxSteps - steps, maxToolCalls := d.budget.maxToolCalls - calls }

/-- A write whose outcome is not known yet. -/
def unsettledWrite (call : ToolExecution) : Bool :=
  call.definition.effect == .write &&
    (call.state != .completed || call.result.all (·.status == .uncertain))

/-- A run of the principal in the conversation has such a write. -/
def conversationUnsettled (s : Core) (conversationID : Id) (a : Authority) : Bool :=
  s.tools.rows.any (fun call => unsettledWrite call && (s.runs.get? call.runID).any (fun row =>
    row.run.conversationID = conversationID ∧
      conversationOwner row.authority = conversationOwner a))

/-- A run that leaves nothing open: it ended, there is room for it among the
runs before it, it worked for this assignment, and every write it made has a
known outcome.  A receipt that repeats an earlier one made no write. -/
def runSettled (s : Db) (d : Delegation) (assignment : Assignment) (row : RunRow) (before : Nat) :
    Except Error Unit :=
  if row.run.status.terminal = false then .error (conflict "delegation_still_running")
  else if 128 ≤ before then .error (badRequest "delegation_handoff_exceeded")
  else if row.run.background.any (fun task => task.delegationID == some d.id &&
      task.taskID == assignment.taskID) = false then
    .error (conflict "delegation_assignment_invalid")
  else if s.tools.rows.any (fun call => call.runID == row.run.id && call.reusedFrom.isNone &&
      unsettledWrite call) then
    .error (conflict "delegation_reconciliation_required")
  else .ok ()

/-- The runs of an assignment, oldest first. -/
def assignmentRuns (s : Db) (assignment : Assignment) : List RunRow :=
  (s.runs.rows.filter (fun row => row.run.conversationID = assignment.conversationID ∧
    conversationOwner row.authority = conversationOwner assignment.executor)).insertionSort
    (fun x y => earlier (x.run.createdAt, x.run.id) (y.run.createdAt, y.run.id) = true)

/-- The runs a handoff goes over, each with the assignment it is read for. -/
def handoffRuns (s : Db) (d : Delegation) : List (Assignment × RunRow) :=
  (conversationAssignments s.toCore d).flatMap fun assignment =>
    ((assignmentRuns s assignment).take 129).map (assignment, ·)

/-- What a call of a run hands on: the write it made itself, with its receipt. -/
def handoffEffect (run : Run) (call : ToolExecution) : Option DelegationEffect :=
  if call.definition.effect = .write ∧ call.reusedFrom = none then
    call.result.map fun receipt =>
      { tool := call.call.name, arguments := call.call.arguments
        conversationID := run.conversationID, runID := run.id, step := call.step
        callID := call.call.id, receipt := receipt }
  else none

/-- The writes of a run, in the order of its steps and calls. -/
def runEffects (s : Db) (run : Run) : List DelegationEffect :=
  ((s.tools.rows.filter (·.runID = run.id)).insertionSort
    (fun x y => earlier (x.step, x.call.id) (y.step, y.call.id) = true)).filterMap
    (handoffEffect run)

/-- `conversation_assignments_store.go::prepareDelegationHandoff`. -/
def prepareDelegationHandoff (s : Db) (d : Delegation) : Except Error Handoff := do
  let _ ← (handoffRuns s d).zipIdx.mapM (fun item => runSettled s d item.1.1 item.1.2 item.2)
  .ok
    { runs := (handoffRuns s d).map (fun item => (item.2.run.conversationID, item.2.run.id))
      effects := (handoffRuns s d).flatMap (fun item => runEffects s item.2.run) }

/-! ### Controlling the task -/

/-- The controls that reach the task of a delegation. -/
inductive Control where
  | requestChanges
  | updateBrief
  | updateInput
  | setDependencies
  | invalidateDependencies
  | pause
  | cancel
  | reject
  | resume
  deriving DecidableEq

/-- The requirement fields a control puts in question. -/
def controlPlanFields (control : Control) (task : Task) (d : Delegation) : List AgreementField :=
  match control with
  | .updateBrief => conversationPlanBriefFields task.brief d.brief
  | .updateInput => [.input]
  | .setDependencies | .invalidateDependencies => [.dependencies]
  | _ => []

/-- `UPDATE … WHERE task_id`: whatever the row has become, it is replaced. -/
def overwriteTask (task : Task) : StoreTx Unit := do
  let found ← read (fun s => s.tasks.get? task.id)
  let _ ← require found (conflict "revision_conflict")
  write (fun s => { s with tasks := s.tasks.put task })

/-- Cancel the run that executes the task, if one is named. -/
def cancelExecution (d : Delegation) (task : Task) : StoreTx Unit :=
  match task.executionRunID with
  | none => pure ()
  | some runID => onlyIf (task.status.terminal = false)
      (transitionRun d.conversationID runID task.authority false)

/-- Put the affected plan steps up for review. -/
def supersedeFields (task : Task) (d : Delegation) (fields : List AgreementField) : StoreTx Task :=
  if fields = [] then pure task
  else supersedeConversationTaskPlan task d.agreementRevision fields
    "Delegation requirements changed"

/-- Stop the task: the run is cancelled, and the task that was read before is
written back as cancelled. -/
def stopDelegatedTask (d : Delegation) (task : Task) (control : Control) : StoreTx Unit := do
  cancelExecution d task
  let next ← supersedeFields { task with status := .cancelled } d (controlPlanFields control task d)
  overwriteTask next

/-- A task that ended keeps its outcome; only its plan is superseded. -/
def invalidateEndedTask (d : Delegation) (task : Task) : StoreTx Unit :=
  match task.plan with
  | none => pure ()
  | some _ => do
    let next ← supersedeConversationTaskPlan task d.agreementRevision [.dependencies]
      "Delegation dependencies changed"
    saveTask next task.status

/-- The task a resumption queues under the delegation's agreement. -/
def requeuedTask (d : Delegation) (task : Task) (budget : TaskBudget) : Task :=
  setConversationTaskGoalPhase
    { appendConversationTaskPreviousRun task with
      status := .queued, executionRunID := none, errorCode := "", brief := d.brief
      goal := d.brief.goal, budget := budget, agreementRevision := d.agreementRevision
      structuredInput := d.structuredInput, inputSource := d.inputSource }

/-- Queue the task again once its writes are settled and budget is left. -/
def resumeDelegatedTask (d : Delegation) (task : Task) : StoreTx Unit := do
  demand (task.status.terminal = true) (conflict "delegation_still_running")
  let unsettled ← read (fun s => conversationUnsettled s.toCore d.conversationID task.authority)
  demand (unsettled = false) (conflict "delegation_reconciliation_required")
  let remaining ← read (fun s => conversationDelegationRemainingBudget s.toCore d)
  demand (1 ≤ remaining.maxSteps ∧ 1 ≤ remaining.maxToolCalls)
    (rateLimited "delegation_budget_exhausted")
  checkConversationQueueCapacity task.authority
  overwriteTask (requeuedTask d task remaining)

/-- Apply a control to the task that was read. -/
def controlTask (d : Delegation) (task : Task) (control : Control) : StoreTx Unit :=
  match control with
  | .resume => resumeDelegatedTask d task
  | .invalidateDependencies =>
    if task.status.terminal = true then invalidateEndedTask d task
    else stopDelegatedTask d task control
  | _ => stopDelegatedTask d task control

/-- `conversation_collaboration_control_store.go::controlDelegationTask`. -/
def controlDelegationTask (d : Delegation) (control : Control) (a : Authority) : StoreTx Unit := do
  let (_, execution) ← delegationAuthorities d (delegationRecordAuthority d a)
  let task ← taskRow d.taskID execution
  demand (task.authority.known = true ∧ task.authority = execution)
    (forbidden "execution_subject_mismatch")
  controlTask d task control

/-! ### Propagation -/

/-- Whether a change of `origin` that arrives through `via` reaches `d`. -/
def changeReaches (origin : Delegation) (fields : List AgreementField) (via : Id) (d : Delegation) :
    Bool :=
  d.dependencies.any (fun edge => edge.reference.delegationID == via &&
    (via != origin.id || origin.subjectExited ||
      dependencyProjection origin.brief origin.structuredInput edge.reference.fields !=
        some edge.values ||
      fields == [.dependencies]))

/-- Replace the pending change from `change`'s source by `change` with the
fields of both. -/
def mergePending (pending : List RequirementChange) (change : RequirementChange) :
    List RequirementChange :=
  let same := pending.filter (·.sourceDelegationID = change.sourceDelegationID)
  pending.filter (·.sourceDelegationID ≠ change.sourceDelegationID) ++
    [{ change with
      changedFields := if same = [] then change.changedFields
        else mergeRequirementFields (change.changedFields :: same.map (·.changedFields)) }]

/-- A delegation an upstream change reached. -/
def invalidated (origin : Delegation) (fields : List AgreementField) (via : Id) (d : Delegation) :
    Delegation :=
  { d with
    status := .needsUpdate, revision := d.revision + 1
    pendingChanges := mergePending d.pendingChanges
      { sourceDelegationID := origin.id, sourceBriefVersion := origin.brief.version
        sourceAgreementRevision := origin.agreementRevision, viaDelegationID := some via
        changedFields := fields } }

def requirementChangeSource (d : Delegation) (fields : List AgreementField) :
    Option RunReference :=
  if fields = [.input] then d.inputSource else d.briefSource

/-- What one side of a delegation is told about a change of `origin`. -/
def changeNotice (origin d : Delegation) (reachedID : Option Id) (fields : List AgreementField)
    (conversationID agentID : Id) (agent : Option AgentRef) : Notice :=
  { id := .change origin.id origin.agreementRevision reachedID conversationID
    delegationID := d.id, conversationID := conversationID, fromAgentID := none
    toAgentID := agentID, agent := agent, kind := .requirementsChanged
    content := "The task agreement or a declared requirement dependency changed. Old execution " ++
      "has stopped. Review the recorded change, refresh dependency versions and explicitly " ++
      "resume before submitting a new delivery. This is not new user authorization."
    source := requirementChangeSource origin fields, briefVersion := d.brief.version
    agreementRevision := d.agreementRevision, disagreement := none }

/-- `requirementChangeNotices`: the
executor is told, and then the source. -/
def requirementChangeNotices (origin d : Delegation) (reachedID : Option Id)
    (fields : List AgreementField) (a : Authority) : StoreTx Unit := do
  let (_, execution) ← delegationAuthorities d (delegationRecordAuthority d a)
  let task ← taskRow d.taskID execution
  insertConversationPeerNotice
    (changeNotice origin d reachedID fields d.conversationID d.toAgentID task.agent) a (some d)
  insertConversationPeerNotice
    (changeNotice origin d reachedID fields d.sourceConversationID d.fromAgentID
      (some d.sourceAgent)) a (some d)

/-- Invalidate one dependent delegation, stop its task and tell both sides. -/
def invalidate (origin : Delegation) (fields : List AgreementField) (via : Id) (a : Authority)
    (d : Delegation) : StoreTx Unit := do
  saveConversationDelegation (invalidated origin fields via d) d.revision
    (delegationRecordAuthority d a)
  controlDelegationTask (invalidated origin fields via d) .invalidateDependencies a
  requirementChangeNotices origin (invalidated origin fields via d) (some d.id) fields a

/-- One pass over the goal's delegations for the changes that arrive through
`via`; answers the ids that changed so far and those to go on from. -/
def propagateVia (origin : Delegation) (fields : List AgreementField) (via : Id) (a : Authority) :
    List Delegation → List Id → List Id → StoreTx (List Id × List Id)
  | [], changed, queue => pure (changed, queue)
  | d :: rest, changed, queue =>
    if d.id ∈ changed ∨ d.status = .cancelled ∨ d.status = .rejected ∨
        changeReaches origin fields via d = false then
      propagateVia origin fields via a rest changed queue
    else do
      invalidate origin fields via a d
      propagateVia origin fields via a rest (d.id :: changed) (queue ++ [d.id])

/-- Go on from every changed delegation; each is queued once, so one round per
delegation is enough. -/
def propagateLoop (origin : Delegation) (fields : List AgreementField) (a : Authority)
    (items : List Delegation) : Nat → List Id → List Id → StoreTx Unit
  | _, _, [] => pure ()
  | 0, _, _ :: _ => pure ()
  | fuel + 1, changed, via :: queue => do
    let (changed, queue) ← propagateVia origin fields via a items changed queue
    propagateLoop origin fields a items fuel changed queue

/-- The delegations of a goal in the caller's workspace, read once. -/
def dependencyGoalDelegations (s : Db) (root : Id) (a : Authority) : List Delegation :=
  (s.delegations.rows.filter (fun d => d.rootConversationID = root ∧
    d.owner.runtimeID = a.runtimeID ∧ d.owner.workspaceID = a.workspaceID)).insertionSort
    (fun x y => x.id ≤ y.id)

def propagateRequirementChange (origin : Delegation) (fields : List AgreementField) (a : Authority) :
    StoreTx Unit := do
  let items ← read (dependencyGoalDelegations · origin.rootConversationID a)
  propagateLoop origin fields a items (items.length + 1) [origin.id] [origin.id]

end DomainryAgent
