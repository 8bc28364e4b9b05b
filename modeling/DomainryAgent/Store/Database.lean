import DomainryAgent.Lib.Table
import DomainryAgent.Lib.Transaction
import DomainryAgent.Store.Records

/-!
The tables of the conversation store and the statements every operation is
built from.

`Core` holds the tables that decide which work may run: conversations, runs,
steps, tool calls, tasks, plans, completions, delegations, agreement history,
work ledgers, peer messages, the clock and the configured limits.  `Db` adds what messages, events and
interactions record.
The split is the model's: a transaction that only writes the rest leaves
`toCore` alone, and the protocol below is stated over `Core`.

Where no file is named, a definition models the function of `conversation_store.go`
of its name.
-/

namespace DomainryAgent

open Lib Tx

/-! ### Keys -/

abbrev RunRow.key (row : RunRow) : Id := row.run.id

abbrev ToolExecution.key (record : ToolExecution) : Id × Nat × Id :=
  (record.runID, record.step, record.call.id)

abbrev CompletionRow.key (row : CompletionRow) : Id × Nat := (row.taskID, row.completion.revision)

abbrev PlanRow.key (row : PlanRow) : Id × Nat := (row.plan.taskID, row.plan.version)

abbrev AgreementRevision.key (entry : AgreementRevision) : Id × Nat :=
  (entry.delegationID, entry.revision)

abbrev Message.key (m : Message) : Id × Nat := (m.conversationID, m.seq)

abbrev Event.key (e : Event) : Id × Nat := (e.runID, e.seq)

abbrev ExecutionStep.key (step : ExecutionStep) : Id × Nat := (step.runID, step.number)

abbrev InteractionRecord.key (record : InteractionRecord) : Id × Nat × Id × InteractionKind :=
  (record.interaction.runID, record.interaction.step, record.interaction.callID,
    record.interaction.kind)

abbrev Assignment.key (assignment : Assignment) : Id × Nat :=
  (assignment.delegationID, assignment.number)

abbrev Disagreement.key (row : Disagreement) : OwnerKey × Id × Id × Nat :=
  (row.owner, row.delegationID, row.summary.id, row.summary.revision)

abbrev DeliveryRecord.key (entry : DeliveryRecord) : Id × Nat := (entry.delegationID, entry.revision)

/-- `conversation_work_budget_store.go::conversationWorkLedger`. -/
structure WorkLedger where
  key : LedgerKey
  budget : WorkBudget
  usage : WorkUsage
  delegations : Nat
  reservations : Table WorkReservationRow.key
  allocations : Table WorkAllocation.delegationID

/-- A committed agreement update of a task that is not delegated. -/
structure TaskAgreementUpdateRecord where
  taskID : Id
  clientID : Id
  requestHash : Brief × Nat × String
  deriving DecidableEq

abbrev TaskAgreementUpdateRecord.key (record : TaskAgreementUpdateRecord) : Id × Id :=
  (record.taskID, record.clientID)

/-- An admitted delegation, with what its client asked for. -/
structure AdmissionRecord where
  delegationID : Id
  sourceConversationID : Id
  sourceRunID : Option Id
  fromAgentID : Id
  toAgentID : Id
  brief : Brief
  structuredInput : Option StructuredInput
  source : Option RunReference
  dependencies : List DependencyInput
  budget : TaskBudget
  workBudget : Option WorkBudget
  executor : Authority
  purpose : String
  deriving DecidableEq

/-! ### The store -/

structure Core where
  now : Time
  limits : Option ExecutionLimits
  conversations : Table Conversation.id
  runs : Table RunRow.key
  steps : Table ExecutionStep.key
  tools : Table ToolExecution.key
  tasks : Table Task.id
  plans : Table PlanRow.key
  completions : Table CompletionRow.key
  delegations : Table Delegation.id
  agreements : Table AgreementRevision.key
  ledgers : Table WorkLedger.key
  peerMessages : Table PeerMessage.id
  peerSends : Table PeerSendRecord.id
  assignments : Table Assignment.key
  inputs : Table ModelInput.runID

structure Db extends Core where
  messages : Table Message.key
  events : Table Event.key
  interactions : Table InteractionRecord.key
  subjects : Table DelegationSubjects.delegationID
  taskAgreementUpdates : Table TaskAgreementUpdateRecord.key
  disagreements : Table Disagreement.key
  deliveryRecords : Table DeliveryRecord.key
  admissions : Table AdmissionRecord.delegationID
  inspections : Table ToolInspection.key

/-- The store before any operation, at some time and with the limits its
deployment configured. -/
def Db.initial (now : Time) (limits : Option ExecutionLimits) : Db where
  now := now
  limits := limits
  conversations := .empty
  runs := .empty
  tools := .empty
  tasks := .empty
  plans := .empty
  completions := .empty
  delegations := .empty
  agreements := .empty
  ledgers := .empty
  peerMessages := .empty
  peerSends := .empty
  messages := .empty
  events := .empty
  steps := .empty
  interactions := .empty
  subjects := .empty
  assignments := .empty
  inputs := .empty
  taskAgreementUpdates := .empty
  disagreements := .empty
  deliveryRecords := .empty
  admissions := .empty
  inspections := .empty

/-- A store transaction. -/
abbrev StoreTx := Tx Db Error

def badRequest (code : String) : Error := ⟨.badRequest, code⟩
def forbidden (code : String) : Error := ⟨.forbidden, code⟩
def notFound (code : String) : Error := ⟨.notFound, code⟩
def conflict (code : String) : Error := ⟨.conflict, code⟩
def rateLimited (code : String) : Error := ⟨.rateLimited, code⟩

/-- The error of an `INSERT` under a key that is taken. -/
def duplicate (table : String) : Error := ⟨.constraint, table⟩

/-- `INSERT`: a duplicate key aborts the transaction. -/
def insertRow {ν κ : Type} [DecidableEq κ] {key : ν → κ} (table : Db → Table key)
    (store : Table key → Db → Db) (name : String) (row : ν) : StoreTx Unit := do
  let inserted ← read (fun s => (table s).insert? row)
  let grown ← require inserted (duplicate name)
  write (store grown)

variable {Q : Unit → Db → Prop}

@[simp] theorem ensures_insertRow {ν κ : Type} [DecidableEq κ] {key : ν → κ}
    {table : Db → Table key} {store : Table key → Db → Db} {name : String} {row : ν} {s : Db} :
    (insertRow table store name row).Ensures s Q ↔
      ∀ grown, (table s).insert? row = some grown → Q () (store grown s) := by
  simp [insertRow]

/-! ### Principals -/

def conversationAuthority (a : Authority) : StoreTx Unit :=
  demand (a.known = true) (forbidden "principal_required")

/-- `conversation_delegation_subjects_store.go::sameConversationWorkspace`. -/
def sameConversationWorkspace (a b : Authority) : Prop :=
  a.runtimeID = b.runtimeID ∧ a.workspaceID = b.workspaceID

instance (a b : Authority) : Decidable (sameConversationWorkspace a b) :=
  inferInstanceAs (Decidable (_ ∧ _))

/-! ### Conversations and messages -/

/-- `get`. -/
def getConversation (id : Id) (a : Authority) : StoreTx Conversation := do
  conversationAuthority a
  let found ← read (fun s => s.conversations.get? id)
  let c ← require found (notFound "not_found")
  demand (c.owner = conversationOwner a) (notFound "not_found")
  pure c

/-- `save`: a compare-and-swap on the revision
the caller read. -/
def saveConversation (c : Conversation) (expected : Nat) (a : Authority) : StoreTx Unit := do
  let found ← read (fun s => s.conversations.get? c.id)
  let current ← require found (conflict "revision_conflict")
  demand (current.owner = conversationOwner a ∧ current.revision = expected)
    (conflict "revision_conflict")
  write (fun s => { s with
    conversations := s.conversations.put { c with revision := expected + 1 } })

def insertMessage (m : Message) : StoreTx Unit :=
  insertRow (·.messages) (fun t s => { s with messages := t }) "_agent_conversation_messages" m

/-- `Create`. -/
def createConversation (id : Id) (agentID : Option Id) (a : Authority) : StoreTx Unit := do
  conversationAuthority a
  insertRow (·.conversations) (fun t s => { s with conversations := t }) "_agent_conversations"
    { id := id, owner := conversationOwner a, agentID := agentID, delegationID := none
      archived := false, lastSeq := 0, activeRunID := none, revision := 1 }

/-- `Update`. -/
def updateConversation (id : Id) (expectedRevision : Nat) (archived : Bool) (a : Authority) :
    StoreTx Unit := do
  let c ← getConversation id a
  demand (c.revision = expectedRevision) (conflict "revision_conflict")
  demand (c.activeRunID = none) (conflict "busy")
  saveConversation { c with archived := archived } c.revision a

/-! ### Quotas -/

/-- How many runs and tasks an authority's user and workspace have in a
status. -/
structure ExecutionCapacity where
  userQueued : Nat
  workspaceQueued : Nat
  userRunning : Nat
  workspaceRunning : Nat

/-- The runs of a quota partition in a status. -/
def runsIn (s : Core) (scope : Authority → Bool) (status : RunStatus) : Nat :=
  s.runs.rows.countP (fun row => scope row.authority && row.run.status == status)

/-- The queued tasks of a quota partition. -/
def queuedTasksIn (s : Core) (scope : Authority → Bool) : Nat :=
  s.tasks.rows.countP (fun task => scope task.authority && task.status == .queued)

/-- `conversation_capacity_store.go::conversationExecutionCapacity`.
A queued task counts with the queued runs. -/
def conversationExecutionCapacity (s : Core) (a : Authority) : ExecutionCapacity :=
  let user := fun (b : Authority) => decide (conversationOwner b = conversationOwner a)
  let workspace := fun (b : Authority) => decide (workspaceKey b = workspaceKey a)
  { userQueued := runsIn s user .queued + queuedTasksIn s user
    workspaceQueued := runsIn s workspace .queued + queuedTasksIn s workspace
    userRunning := runsIn s user .running
    workspaceRunning := runsIn s workspace .running }

/-- `conversation_capacity_store.go::checkConversationQueueCapacity`. -/
def checkConversationQueueCapacity (a : Authority) : StoreTx Unit := do
  let limits ← read (·.limits)
  let capacity ← read (conversationExecutionCapacity ·.toCore a)
  match limits with
  | none => pure ()
  | some limits => do
    conversationAuthority a
    demand (capacity.userQueued < limits.maxQueuedPerUser) (rateLimited "user_queue_full")
    demand (capacity.workspaceQueued < limits.maxQueuedPerWorkspace)
      (rateLimited "workspace_queue_full")

/-- Which running quota is used up. -/
inductive Saturation where
  | user
  | workspace
  deriving DecidableEq

/-- `conversation_capacity_store.go::checkConversationRunningCapacity`.
`Claim` reads which of the two quotas refused, so the answer is a value. -/
def checkConversationRunningCapacity (s : Core) (a : Authority) : Option Saturation :=
  match s.limits with
  | none => none
  | some limits =>
    let capacity := conversationExecutionCapacity s a
    if limits.maxRunningPerUser ≤ capacity.userRunning then some .user
    else if limits.maxRunningPerWorkspace ≤ capacity.workspaceRunning then some .workspace
    else none

/-! ### What the statements leave behind -/

section Specifications

variable {s : Db}

variable {a : Authority}

@[simp] theorem ensures_conversationAuthority :
    (conversationAuthority a).Ensures s Q ↔ (a.known = true → Q () s) := by
  simp [conversationAuthority]

@[simp] theorem ensures_getConversation {id : Id} {Q : Conversation → Db → Prop} :
    (getConversation id a).Ensures s Q ↔
      (a.known = true → ∀ c, s.conversations.get? id = some c → c.owner = conversationOwner a →
        Q c s) := by
  simp [getConversation]

theorem readOnly_checkConversationQueueCapacity (a : Authority) :
    (checkConversationQueueCapacity a).ReadOnly := by
  intro s
  simp only [checkConversationQueueCapacity, Tx.ensures_bind, Tx.ensures_read]
  cases s.limits with
  | none | some limits => simp

@[simp] theorem ensures_checkConversationQueueCapacity :
    (checkConversationQueueCapacity a).Ensures s Q ↔
      ((checkConversationQueueCapacity a).peek s = .ok () → Q () s) := by
  rw [(readOnly_checkConversationQueueCapacity a).ensures]
  exact ⟨fun h => h (), fun h _ => h⟩

@[simp] theorem ensures_saveConversation {c : Conversation} {expected : Nat} :
    (saveConversation c expected a).Ensures s Q ↔
      ∀ current, s.conversations.get? c.id = some current → current.owner = conversationOwner a →
        current.revision = expected →
        Q () { s with conversations := s.conversations.put { c with revision := expected + 1 } } := by
  simp [saveConversation]

@[simp] theorem ensures_insertMessage {m : Message} : (insertMessage m).Ensures s Q ↔
      ∀ grown, s.messages.insert? m = some grown → Q () { s with messages := grown } := by
  simp [insertMessage]

end Specifications

end DomainryAgent
