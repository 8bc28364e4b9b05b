import DomainryAgent.Durability
import DomainryAgent.Scheduling
import DomainryAgent.SingleExecutor

/-!
Deleting a conversation: on a request of its user, and by the retention policy
once it has been archived for long enough.

Both go through the tables one by one, each with a list of its own.  A row is
modelled by the key columns those statements compare; its payload is not read.
The two lists leave different rows behind, and the policy does not look at
everything that is still at work before it deletes.  A deletion stands at the
end of a run of the store: no operation follows it here.
-/

namespace DomainryAgent

open Lib Tx Protocol Refinement

/-! ### Rows -/

/-- The tables whose rows stand under a conversation. -/
inductive ConversationTable where
  | messages | runs | summaries | events | inputs | steps | stepSources | toolCalls | forks
  | interactions | agentMessages | assignments | sourceReleases
  deriving DecidableEq

/-- The tables whose rows stand under a task. -/
inductive TaskTable where
  | plans | completions | agreementUpdates
  deriving DecidableEq

inductive RowKey where
  | under (table : ConversationTable) (conversationID : Id)
  | task (id sourceConversationID : Id)
  | about (table : TaskTable) (taskID : Id)
  | delegation (conversationID sourceConversationID : Id)
  deriving DecidableEq

structure Row (π : Type) where
  owner : OwnerKey
  key : RowKey
  payload : π

/-- The conversations by their primary key, every other row, and the receipts
of the deletions. -/
structure Archive (π : Type) where
  conversations : OwnerKey × Id → Option Conversation
  rows : List (Row π)
  receipts : List (OwnerKey × Id)

variable {π : Type}

/-- `DELETE … WHERE owner_key = … AND …`. -/
def deleteRows (owner : OwnerKey) (hit : RowKey → Bool) (rows : List (Row π)) :
    List (Row π) :=
  rows.filter (fun row => !(row.owner = owner && hit row.key))

/-- `conversation_plan_store.go::conversationTaskIDsForSource`. -/
def conversationTaskIDsForSource (owner : OwnerKey) (id : Id) (rows : List (Row π)) :
    List Id :=
  (rows.filter (·.owner = owner)).filterMap fun row => match row.key with
    | .task taskID source => if source = id then some taskID else none
    | _ => none

/-- `conversation_plan_store.go::deleteConversationTaskPlansForSource`,
`conversation_task_completion_store.go::deleteConversationTaskCompletionsForSource`. -/
def deleteForSource (table : TaskTable) (owner : OwnerKey) (id : Id)
    (rows : List (Row π)) : List (Row π) :=
  let ids := conversationTaskIDsForSource owner id rows
  deleteRows owner (fun | .about t taskID => t = table && taskID ∈ ids | _ => false) rows

/-- The part that both deletions share: the conversation, the tables of a list,
what its tasks planned and completed, and the tasks. -/
def Archive.deleteConversation (tables : List ConversationTable) (owner : OwnerKey)
    (id : Id) (s : Archive π) : Archive π :=
  let rows := deleteRows owner (fun | .under t c => c = id && t ∈ tables | _ => false) s.rows
  let rows := deleteForSource .completions owner id (deleteForSource .plans owner id rows)
  { s with
    conversations := Function.update s.conversations (owner, id) none
    rows := deleteRows owner (fun | .task _ source => source = id | _ => false) rows }

def requestTables : List ConversationTable :=
  [.messages, .runs, .summaries, .events, .inputs, .steps, .stepSources, .toolCalls, .forks,
    .interactions]

def candidateTables : List ConversationTable :=
  [.messages, .runs, .summaries, .events, .inputs, .steps, .toolCalls, .interactions]

/-- A delegation of the owner starts or runs in the conversation. -/
def Archive.linked (s : Archive π) (owner : OwnerKey) (id : Id) : Bool :=
  s.rows.any fun row => row.owner = owner && match row.key with
    | .delegation c source => c = id || source = id
    | _ => false

/-- `conversation_store.go::DeleteForRequest`. -/
def deleteForRequest (requestID id : Id) (revision : Nat) (a : Authority) :
    Tx (Archive π) Error Unit := do
  let owner := conversationOwner a
  let receipts ← read (·.receipts)
  onlyIf ((owner, requestID) ∉ receipts) do
    demand (a.known = true) (forbidden "principal_required")
    let found ← read (·.conversations (owner, id))
    let c ← require found (notFound "not_found")
    demand (c.revision = revision) (conflict "revision_conflict")
    let linked ← read (·.linked owner id)
    demand (linked = false) (conflict "conversation_has_delegations")
    write (·.deleteConversation requestTables owner id)
    write (fun s => { s with receipts := (owner, requestID) :: s.receipts })

/-- `LifecycleCandidate`, of a conversation. -/
structure LifecycleCandidate where
  owner : OwnerKey
  id : Id
  revision : Nat
  deriving DecidableEq

/-- `lifecycle_store.go::deleteConversationLifecycleCandidate`: whether
there was something to delete. -/
def deleteConversationLifecycleCandidate (workspaceID : Id) (c : LifecycleCandidate) :
    Tx (Archive π) Error Bool := do
  let found ← read (·.conversations (c.owner, c.id))
  let deleted := found.any (·.revision = c.revision) && c.owner.workspaceID = workspaceID
  onlyIf (deleted = true) (write (·.deleteConversation candidateTables c.owner c.id))
  pure deleted

/-! ### What a deletion leaves -/

variable {s : Archive π} {owner : OwnerKey} {id : Id} {rows : List (Row π)} {row : Row π}
  {tables : List ConversationTable}

@[simp] theorem mem_deleteRows {hit : RowKey → Bool} :
    row ∈ deleteRows owner hit rows ↔ row ∈ rows ∧ (row.owner = owner → hit row.key = false) := by
  simp [deleteRows, List.mem_filter, imp_iff_not_or]

/-- A statement that spares the tasks leaves the same ones to look up. -/
theorem conversationTaskIDsForSource_deleteRows {hit : RowKey → Bool}
    (spared : ∀ t c, hit (.task t c) = false) :
    conversationTaskIDsForSource owner id (deleteRows owner hit rows) =
      conversationTaskIDsForSource owner id rows := by
  simp only [conversationTaskIDsForSource, deleteRows, List.filter_filter]
  induction rows with
  | nil => rfl
  | cons row rest ih =>
    cases is : row.key <;> grind

/-- The row is the conversation's: it stands under it, or under a task whose
source it is. -/
def Row.isOf (row : Row π) (owner : OwnerKey) (id : Id) (rows : List (Row π)) : Bool :=
  row.owner = owner && match row.key with
    | .under _ c => c = id
    | .task _ source => source = id
    | .about _ t => t ∈ conversationTaskIDsForSource owner id rows
    | .delegation c source => c = id || source = id

/-- The row stands in a table that a deletion by this list leaves out. -/
def RowKey.missed (tables : List ConversationTable) : RowKey → Bool
  | .under table _ => table ∉ tables
  | .about table _ => table = .agreementUpdates
  | .delegation .. => true
  | .task .. => false

/-- Of the rows of the conversation those that are missed stay. -/
theorem mem_deleteConversation :
    row ∈ (s.deleteConversation tables owner id).rows ↔
      row ∈ s.rows ∧ (row.isOf owner id s.rows → row.key.missed tables) := by
  obtain ⟨holder, key, payload⟩ := row
  simp only [Archive.deleteConversation, deleteForSource, mem_deleteRows, Row.isOf, and_assoc,
    conversationTaskIDsForSource_deleteRows, implies_true]
  refine and_congr_right fun _ => ?_
  cases key with
  | about table t => cases table <;> simp [RowKey.missed]
  | _ => simp [RowKey.missed]

/-- Every row of the conversation stands in a table a deletion goes through. -/
def Archive.Covered (s : Archive π) (tables : List ConversationTable) (owner : OwnerKey) (id : Id) :
    Prop :=
  ∀ row ∈ s.rows, row.isOf owner id s.rows → ¬row.key.missed tables

/-- Exactly the conversation and its rows are gone. -/
def Archive.Cleared (s s' : Archive π) (owner : OwnerKey) (id : Id) : Prop :=
  s'.conversations = Function.update s.conversations (owner, id) none ∧
    ∀ row, row ∈ s'.rows ↔ row ∈ s.rows ∧ ¬row.isOf owner id s.rows

theorem cleared_deleteConversation :
    s.Cleared (s.deleteConversation tables owner id) owner id ↔ s.Covered tables owner id := by
  constructor
  · rintro ⟨_, left⟩ row there mine missed
    exact ((left row).mp (mem_deleteConversation.mpr ⟨there, fun _ => missed⟩)).2 mine
  · refine fun covered => ⟨rfl, fun row => mem_deleteConversation.trans ?_⟩
    refine and_congr_right fun there => ?_
    exact ⟨fun missed mine => covered row there mine (missed mine),
      fun other mine => absurd mine other⟩

/-- **Deletion leaves nothing behind.**  A deletion that goes through removes all
the rows of the conversation and no other exactly if none of them stands in a
table that it leaves out: for a request that is not a replay, and for a candidate
of the retention policy. -/
theorem deletion_leaves_nothing (s : Archive π) (owner : OwnerKey) (id : Id) :
    (∀ requestID revision a, conversationOwner a = owner → (owner, requestID) ∉ s.receipts →
      (deleteForRequest requestID id revision a).Ensures s fun _ s' =>
        (s.Cleared s' owner id ↔ s.Covered requestTables owner id)) ∧
    ∀ workspaceID revision,
      (deleteConversationLifecycleCandidate workspaceID ⟨owner, id, revision⟩).Ensures s
        fun deleted s' => deleted = true →
          (s.Cleared s' owner id ↔ s.Covered candidateTables owner id) := by
  constructor
  · rintro requestID revision a rfl fresh
    simp only [deleteForRequest, Tx.ensures_bind, Tx.ensures_read, Tx.ensures_onlyIf,
      Tx.ensures_demand, Tx.ensures_require, Tx.ensures_write]
    refine ⟨fun _ _ c _ _ _ => ?_, fun replayed => absurd fresh replayed⟩
    exact cleared_deleteConversation
  · intro workspaceID revision
    simp only [deleteConversationLifecycleCandidate, Tx.ensures_bind, Tx.ensures_read,
      Tx.ensures_onlyIf, Tx.ensures_write, Tx.ensures_pure]
    exact ⟨fun _ _ => cleared_deleteConversation, fun kept deleted => absurd deleted kept⟩

/-! ### The rows of the conversation store -/

/-- The keys of the rows of the store: a row that names a run or a task has
their owner and conversation.  Summaries, forks, releases and the sources of
steps are not modelled there. -/
def Db.archive (s : Db) : Archive Unit where
  conversations := fun (owner, id) => (s.conversations.get? id).filter (·.owner = owner)
  receipts := []
  rows :=
    let named (table : ConversationTable) (r : Id) : Option (Row Unit) := (s.runs.get? r).map
      fun v => ⟨conversationOwner v.authority, .under table v.run.conversationID, ()⟩
    let about (table : TaskTable) (t : Id) : Option (Row Unit) := (s.tasks.get? t).map
      fun v => ⟨conversationOwner v.authority, .about table t, ()⟩
    s.messages.rows.filterMap (fun v => (s.conversations.get? v.conversationID).map
      fun c => ⟨c.owner, .under .messages c.id, ()⟩) ++
    s.runs.rows.filterMap (fun v => named .runs v.run.id) ++
    s.events.rows.filterMap (fun v => named .events v.runID) ++
    s.inputs.rows.filterMap (fun v => named .inputs v.runID) ++
    s.steps.rows.filterMap (fun v => named .steps v.runID) ++
    s.tools.rows.filterMap (fun v => named .toolCalls v.runID) ++
    s.interactions.rows.filterMap (fun v => named .interactions v.interaction.runID) ++
    s.tasks.rows.map (fun v =>
      ⟨conversationOwner v.authority, .task v.id v.sourceConversationID, ()⟩) ++
    s.plans.rows.filterMap (fun v => about .plans v.plan.taskID) ++
    s.completions.rows.filterMap (fun v => about .completions v.taskID) ++
    s.taskAgreementUpdates.rows.filterMap (fun v => about .agreementUpdates v.taskID) ++
    s.delegations.rows.map (fun v =>
      ⟨v.owner, .delegation v.conversationID v.sourceConversationID, ()⟩) ++
    s.peerMessages.rows.map (fun v =>
      ⟨conversationOwner v.authority, .under .agentMessages v.conversationID, ()⟩) ++
    s.assignments.rows.filterMap (fun v => (s.delegations.get? v.delegationID).map
      fun d => ⟨d.owner, .under .assignments v.conversationID, ()⟩)

/-- The conversation, its task and its plan go when its user deletes it. -/
theorem scheduled_task_is_deleted :
    (deleteForRequest 1 1 1 sampleUser).result? (afterOps scheduledTask).archive = some () ∧
      (deleteForRequest 1 1 1 sampleUser).Ensures (afterOps scheduledTask).archive fun _ s' =>
        (afterOps scheduledTask).archive.Cleared s' (conversationOwner sampleUser) 1 := by
  refine ⟨by decide +kernel, ((deletion_leaves_nothing _ _ _).1 _ _ _ rfl (by decide)).mono ?_⟩
  intro _ _ exact_if
  refine exact_if.mpr ?_
  simp only [Archive.Covered]
  decide +kernel

/-- An agreement update of a task outlives the task and its conversation. -/
theorem agreement_update_outlives_conversation :
    ∃ s, Reachable s ∧ ∃ row ∈ ((deleteForRequest 1 1 1 sampleUser).commit s.archive).rows,
      (deleteForRequest 1 1 1 sampleUser).result? s.archive = some () ∧
      row.isOf (conversationOwner sampleUser) 1 s.archive.rows := by
  refine ⟨_, reachable_afterOps (scheduledTask ++
    [.updateTaskAgreement 10 ⟨60, 1, "clearer", { sampleBrief with version := 2, goal := "memo" }⟩
      sampleUser]), ?_⟩
  decide +kernel

/-! ### The candidates of the policy -/

variable {u v : Db} {workspaceID limit : Nat} {aged : Conversation → Bool} {c : LifecycleCandidate}

end DomainryAgent
