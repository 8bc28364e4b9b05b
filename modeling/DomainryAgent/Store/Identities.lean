import DomainryAgent.Store.Database

/-!
The rows an operation reads and writes under a caller's identity: runs, tasks
and delegations, and the two identities a delegation acts under.

Where no file is named, a definition models the function of `conversation_delegation_subjects_store.go`
of its name.
-/

namespace DomainryAgent

open Lib Tx

/-! ### Run rows -/

/-- The delegation a run works for, with the task facts frozen on it. -/
def Run.delegated (run : Run) : Option (Id × TaskExecution) :=
  run.background.bind (fun task => task.delegationID.map (fun id => (id, task)))

/-- `conversation_run_store.go::runRow`. -/
def runRow (id runID : Id) (a : Authority) : StoreTx RunRow := do
  let found ← read (fun s => s.runs.get? runID)
  let row ← require found (notFound "run_not_found")
  demand (row.run.conversationID = id ∧ conversationOwner row.authority = conversationOwner a)
    (notFound "run_not_found")
  pure row

/-- `conversation_run_store.go::saveRun`: the row must still be the one
that was read. -/
def saveRun (v old : RunRow) : StoreTx Unit := do
  demand (conversationOwner v.authority = conversationOwner old.authority)
    (forbidden "authority_invalid")
  let found ← read (fun s => s.runs.get? v.run.id)
  let current ← require found (conflict "revision_conflict")
  demand (current.fence = old.fence ∧ current.run.status = old.run.status ∧
    current.eventSeq = old.eventSeq) (conflict "revision_conflict")
  write (fun s => { s with runs := s.runs.put v })

/-- `conversation_run_store.go::event`. -/
def event (v : RunRow) (kind : EventKind) : StoreTx RunRow := do
  let next := { v with eventSeq := v.eventSeq + 1 }
  insertRow (·.events) (fun t s => { s with events := t }) "_agent_conversation_events"
    { runID := v.run.id, seq := next.eventSeq, kind := kind }
  pure next

/-- Insert a run; a conversation takes each client message once. -/
def insertRun (v : RunRow) : StoreTx Unit := do
  let runs ← read (·.runs.rows)
  demand (∀ row ∈ runs, ¬(row.run.conversationID = v.run.conversationID ∧
      conversationOwner row.authority = conversationOwner v.authority ∧
      row.run.clientMessageID = v.run.clientMessageID))
    (duplicate "_agent_conversation_runs")
  insertRow (·.runs) (fun t s => { s with runs := t }) "_agent_conversation_runs" v

/-! ### Delegations a run reads -/

/-- `conversation_delegation_store.go::ownedConversationDelegation`. -/
def ownedConversationDelegation (id : Id) (a : Authority) : StoreTx Delegation := do
  conversationAuthority a
  let found ← read (fun s => s.delegations.get? id)
  let d ← require found (notFound "delegation_not_found")
  demand (d.owner = conversationOwner a) (notFound "delegation_not_found")
  pure d

/-- `delegationSubjects`:
the stored identities, when the caller is one of them. -/
def delegationSubjects (id : Id) (a : Authority) : StoreTx (Option DelegationSubjects) := do
  let found ← read (fun s => (s.subjects.get? id).filter (fun row =>
    conversationOwner row.source = conversationOwner a ∨
      conversationOwner row.execution = conversationOwner a))
  match found with
  | none => pure none
  | some row => do
    demand (row.source.known = true ∧ row.execution.known = true ∧
      sameConversationWorkspace a row.source ∧ sameConversationWorkspace a row.execution)
      (forbidden "execution_subject_mismatch")
    pure (some row)

def executionDelegation (id : Id) (a : Authority) : StoreTx Delegation := do
  let found ← delegationSubjects id a
  let subjects ← require found (notFound "delegation_not_found")
  demand (conversationOwner subjects.execution = conversationOwner a)
    (notFound "delegation_not_found")
  let d ← ownedConversationDelegation id subjects.source
  demand (d.executionSubject = conversationOwner a) (notFound "delegation_not_found")
  pure d

/-- `conversation_delegation_store.go::conversationDelegation`: the
owner's record, or the one the caller executes. -/
def conversationDelegation (id : Id) (a : Authority) : StoreTx Delegation := do
  conversationAuthority a
  let owned ← read (fun s => (s.delegations.get? id).filter
    (fun d => d.owner = conversationOwner a))
  match owned with
  | some d => pure d
  | none => executionDelegation id a

/-- `conversation_assignments_store.go::conversationAssignments`. -/
def conversationAssignments (s : Core) (d : Delegation) : List Assignment :=
  s.assignments.rows.filter (·.delegationID = d.id)

/-- `conversation_assignment_authority_store.go::assignmentRunAuthority`:
who executed the assignment of a conversation. -/
def assignmentRunAuthority (s : Core) (d : Delegation) (conversationID : Id) :
    Except Error Authority :=
  match (conversationAssignments s d).find? (·.conversationID = conversationID) with
  | none => .error (conflict "delegation_assignment_invalid")
  | some assignment => .ok assignment.executor

def delegationRecordAuthority (d : Delegation) (a : Authority) : Authority :=
  { a with userID := d.owner.userID }

/-- `conversation_delegation_store.go::saveConversationDelegation`: a
compare-and-swap on the revision the caller read. -/
def saveConversationDelegation (out : Delegation) (expected : Nat) (a : Authority) :
    StoreTx Unit := do
  let found ← read (fun s => s.delegations.get? out.id)
  let current ← require found (conflict "revision_conflict")
  demand (current.owner = conversationOwner (delegationRecordAuthority out a) ∧
    current.revision = expected) (conflict "revision_conflict")
  write (fun s => { s with delegations := s.delegations.put out })

/-! ### Tasks -/

/-- Read a task of the caller's partition. -/
def taskRow (id : Id) (a : Authority) : StoreTx Task := do
  let found ← read (fun s => s.tasks.get? id)
  let task ← require found (notFound "task_not_found")
  demand (conversationOwner task.authority = conversationOwner a) (notFound "task_not_found")
  pure task

/-- `UPDATE … WHERE task_id AND status = from`. -/
def saveTask (task : Task) («from» : TaskStatus) : StoreTx Unit := do
  let found ← read (fun s => s.tasks.get? task.id)
  let current ← require found (conflict "revision_conflict")
  demand (current.status = «from») (conflict "revision_conflict")
  write (fun s => { s with tasks := s.tasks.put task })

/-! ### The identities of a delegation -/

/-- Without stored identities the task's own authority executes, and the source
run's authority, if there is one, is the source. -/
def taskAuthorities (d : Delegation) (a : Authority) : StoreTx (Authority × Authority) := do
  let task ← taskRow d.taskID (delegationRecordAuthority d a)
  demand (task.delegationID = some d.id ∧ task.executionConversationID = some d.conversationID ∧
    task.authority.known = true ∧ conversationOwner task.authority = conversationOwner a)
    (forbidden "execution_subject_mismatch")
  match d.sourceRunID with
  | none => pure (task.authority, task.authority)
  | some runID => do
    let run ← runRow d.sourceConversationID runID task.authority
    demand (run.authority.known = true) (forbidden "execution_subject_mismatch")
    pure (run.authority, task.authority)

/-- `delegationAuthorities`:
the source and the execution identity. -/
def delegationAuthorities (d : Delegation) (a : Authority) : StoreTx (Authority × Authority) := do
  let found ← delegationSubjects d.id a
  match found with
  | some subjects => pure (subjects.source, subjects.execution)
  | none => taskAuthorities d a

/-- The identity a message's conversation belongs to. -/
def delegationMessageAuthority (d : Delegation) (conversationID : Id) (a : Authority) :
    StoreTx Authority := do
  let (source, execution) ← delegationAuthorities d (delegationRecordAuthority d a)
  if conversationID = d.sourceConversationID then pure source
  else if conversationID = d.conversationID then pure execution
  else Tx.fail (forbidden "agent_message_recipient_invalid")

/-! ### What the statements do -/

section Specifications

variable {s : Db}

variable {id : Id} {a : Authority} {v : RunRow} {Q : Unit → Db → Prop} {d : Delegation}

@[simp] theorem ensures_runRow {runID : Id} {Q : RunRow → Db → Prop} :
    (runRow id runID a).Ensures s Q ↔
      ∀ row, s.runs.get? runID = some row → row.run.conversationID = id →
        conversationOwner row.authority = conversationOwner a → Q row s := by
  simp [runRow]

@[simp] theorem ensures_saveRun {old : RunRow} : (saveRun v old).Ensures s Q ↔
      (conversationOwner v.authority = conversationOwner old.authority →
        ∀ current, s.runs.get? v.run.id = some current → current.fence = old.fence →
          current.run.status = old.run.status → current.eventSeq = old.eventSeq →
          Q () { s with runs := s.runs.put v }) := by
  simp [saveRun]

@[simp] theorem ensures_event {kind : EventKind} {Q : RunRow → Db → Prop} :
    (event v kind).Ensures s Q ↔
      ∀ grown, s.events.insert? { runID := v.run.id, seq := v.eventSeq + 1, kind := kind } =
          some grown →
        Q { v with eventSeq := v.eventSeq + 1 } { s with events := grown } := by
  simp [event]

@[simp] theorem ensures_insertRun : (insertRun v).Ensures s Q ↔
      ((∀ row ∈ s.runs.rows, ¬(row.run.conversationID = v.run.conversationID ∧
          conversationOwner row.authority = conversationOwner v.authority ∧
          row.run.clientMessageID = v.run.clientMessageID)) →
        ∀ grown, s.runs.insert? v = some grown → Q () { s with runs := grown }) := by
  simp [insertRun]

@[simp] theorem ensures_taskRow {Q : Task → Db → Prop} : (taskRow id a).Ensures s Q ↔
      ∀ task, s.tasks.get? id = some task →
        conversationOwner task.authority = conversationOwner a → Q task s := by
  simp [taskRow]

@[simp] theorem ensures_saveTask {task : Task} {expected : TaskStatus} :
    (saveTask task expected).Ensures s Q ↔
      ∀ current, s.tasks.get? task.id = some current → current.status = expected →
        Q () { s with tasks := s.tasks.put task } := by
  simp [saveTask]

@[simp] theorem ensures_saveConversationDelegation {expected : Nat} :
    (saveConversationDelegation d expected a).Ensures s Q ↔
      ∀ current, s.delegations.get? d.id = some current →
        current.owner = conversationOwner (delegationRecordAuthority d a) →
        current.revision = expected → Q () { s with delegations := s.delegations.put d } := by
  simp [saveConversationDelegation]

theorem readOnly_delegationSubjects (id : Id) (a : Authority) :
    (delegationSubjects id a).ReadOnly := by
  intro s
  simp only [delegationSubjects, wp]
  split
  · simp
  · simp

/-- A delegation of the caller's workspace. -/
def Delegation.InWorkspace (d : Delegation) (a : Authority) : Prop :=
  d.owner.runtimeID = a.runtimeID ∧ d.owner.workspaceID = a.workspaceID

variable {b : Authority}

theorem Delegation.InWorkspace.of_owner (owner : d.owner = conversationOwner b)
    (workspace : sameConversationWorkspace a b) : d.InWorkspace a := by
  unfold Delegation.InWorkspace
  rw [owner]
  exact ⟨workspace.1.symm, workspace.2.symm⟩

/-- The partition of a record is its owner's, for whoever is in the workspace. -/
theorem conversationOwner_record (owner : d.owner = conversationOwner b)
    (workspace : sameConversationWorkspace a b) :
    conversationOwner (delegationRecordAuthority d a) = d.owner := by
  unfold conversationOwner delegationRecordAuthority
  rw [owner, workspace.1, workspace.2]
  rfl

/-- The stored identities, if the caller is one of them. -/
theorem delegationSubjects_reads : (delegationSubjects id a).Ensures s (fun found s' => s' = s ∧
      found = (s.subjects.get? id).filter (fun row =>
        conversationOwner row.source = conversationOwner a ∨
          conversationOwner row.execution = conversationOwner a) ∧
      ∀ row, found = some row → row.source.known = true ∧ sameConversationWorkspace a row.source) := by
  simp only [delegationSubjects, wp]
  split
  · next missing =>
    rw [ensures_pure]
    exact ⟨rfl, missing.symm, by simp⟩
  · next row there =>
    simp only [wp]
    rintro ⟨known, _, workspace, _⟩
    exact ⟨trivial, there.symm, by rintro _ ⟨⟩; exact ⟨known, workspace⟩⟩

theorem delegationSubjects_workspace : (delegationSubjects id a).Ensures s
      (fun found s' => s' = s ∧ ∀ row, found = some row → sameConversationWorkspace a row.source) :=
  delegationSubjects_reads.mono fun _ _ ⟨same, _, rows⟩ => ⟨same, fun row there => (rows row there).2⟩

theorem conversationDelegation_found : (conversationDelegation id a).Ensures s
      (fun d s' => s' = s ∧ s.delegations.get? id = some d ∧ d.InWorkspace a) := by
  simp only [conversationDelegation, wp, ensures_conversationAuthority]
  intro _
  split
  · next d owned =>
    rw [ensures_pure]
    obtain ⟨found, owner⟩ := Option.filter_eq_some_iff.mp owned
    exact ⟨rfl, found, .of_owner (of_decide_eq_true owner) ⟨rfl, rfl⟩⟩
  · rw [executionDelegation, ensures_bind]
    refine delegationSubjects_workspace.mono ?_
    rintro found _ ⟨rfl, workspace⟩
    simp only [wp, ownedConversationDelegation, ensures_conversationAuthority]
    intro subjects there _ _ d found owner _
    exact ⟨trivial, found, .of_owner owner (workspace subjects there)⟩

theorem readOnly_conversationDelegation (id : Id) (a : Authority) :
    (conversationDelegation id a).ReadOnly :=
  fun _ => conversationDelegation_found.mono (fun _ _ found => found.1)

@[simp] theorem ensures_conversationDelegation {Q : Delegation → Db → Prop} :
    (conversationDelegation id a).Ensures s Q ↔
      ∀ d, (conversationDelegation id a).peek s = .ok d → Q d s :=
  (readOnly_conversationDelegation id a).ensures

/-- A delegation an authority may see is the stored one. -/
theorem get?_of_conversationDelegation (found : (conversationDelegation id a).peek s = .ok d) :
    s.delegations.get? id = some d :=
  (conversationDelegation_found.peek (readOnly_conversationDelegation id a) found).2.1

theorem inWorkspace_of_conversationDelegation (found : (conversationDelegation id a).peek s = .ok d) :
    d.InWorkspace a :=
  (conversationDelegation_found.peek (readOnly_conversationDelegation id a) found).2.2

theorem readOnly_delegationAuthorities (d : Delegation) (a : Authority) :
    (delegationAuthorities d a).ReadOnly := by
  intro s
  simp only [delegationAuthorities, wp, (readOnly_delegationSubjects _ _).ensures]
  intro found _
  split
  · simp
  · simp only [taskAuthorities, wp, ensures_taskRow]
    intro _ _ _ _
    split
    · simp
    · simp

/-- The source of a delegation is somebody of its owner's partition. -/
theorem delegationAuthorities_source (mine : conversationOwner a = d.owner)
    (recorded : ∀ row, s.subjects.get? d.id = some row →
      (conversationOwner row.source = conversationOwner a ∨
        conversationOwner row.execution = conversationOwner a) →
      conversationOwner row.source = d.owner) : (delegationAuthorities d a).Ensures s (fun out _ =>
      out.1.known = true ∧ conversationOwner out.1 = d.owner) := by
  rw [delegationAuthorities, ensures_bind]
  refine delegationSubjects_reads.mono ?_
  rintro found _ ⟨rfl, read, rows⟩
  split
  · next row =>
    rw [ensures_pure]
    obtain ⟨there, party⟩ := Option.filter_eq_some_iff.mp read.symm
    exact ⟨(rows row rfl).1, recorded row there (of_decide_eq_true party)⟩
  · -- Without stored identities, it is somebody of the caller's partition.
    simp only [taskAuthorities, wp, ensures_taskRow]
    rintro task _ _ ⟨_, _, known, owner⟩
    split
    · exact ensures_pure.mpr ⟨known, owner.trans mine⟩
    · simp only [wp, ensures_runRow]
      intro run _ _ same trusted
      exact ⟨trusted, (same.trans owner).trans mine⟩

theorem readOnly_delegationMessageAuthority (d : Delegation) (id : Id) (a : Authority) :
    (delegationMessageAuthority d id a).ReadOnly := by
  intro s
  simp only [delegationMessageAuthority, wp, (readOnly_delegationAuthorities _ _).ensures]
  rintro ⟨source, execution⟩ _
  refine ensures_ite.mpr ⟨fun _ => ensures_pure.mpr rfl, fun _ => ?_⟩
  exact ensures_ite.mpr ⟨fun _ => ensures_pure.mpr rfl, fun _ => ensures_fail⟩

end Specifications

end DomainryAgent
