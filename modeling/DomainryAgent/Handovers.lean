import DomainryAgent.PeerDelivery
import DomainryAgent.Protocol.Assignments

/-!
Handing a delegation over, and resuming it.

Both ask first whether the runs there were have left a write whose result is
not known.  They refuse for exactly the writes that were begun, unless only
writes that were not are left open, or a run of other work is met first.
-/

namespace DomainryAgent

open Lib Tx Table Protocol Refinement

variable {s : Db} {d : Delegation}

/-- The runs stored for a delegation: those of the executors of its assignments in
the conversations of these. -/
def delegationRuns (s : Core) (d : Delegation) : List RunRow :=
  s.runs.rows.filter (fun row => (conversationAssignments s d).any (fun a =>
    row.run.conversationID = a.conversationID ∧
      conversationOwner row.authority = conversationOwner a.executor))

/-- The run executed the assignment. -/
def WorkedFor (d : Delegation) (a : Assignment) (row : RunRow) : Prop :=
  ∃ b, row.run.background = some b ∧ b.delegationID = some d.id ∧ b.taskID = a.taskID

instance (d : Delegation) (a : Assignment) (row : RunRow) : Decidable (WorkedFor d a row) :=
  decidable_of_iff (row.run.background.any (fun b => b.delegationID = some d.id ∧
    b.taskID = a.taskID) = true) (by simp [WorkedFor, Option.any_eq_true])

/-- A write without a known result, begun or not. -/
def OpenCall (call : ToolExecution) : Prop := call.definition.effect = .write ∧ ¬KnownResult call

instance (call : ToolExecution) : Decidable (OpenCall call) := inferInstanceAs (Decidable (_ ∧ ¬_))

/-- The run left such a write. -/
def LeavesOpen (s : Core) (row : RunRow) : Prop :=
  ∃ call ∈ s.tools.rows, call.runID = row.run.id ∧ OpenCall call

instance (s : Core) (row : RunRow) : Decidable (LeavesOpen s row) :=
  inferInstanceAs (Decidable (∃ call ∈ s.tools.rows, _ ∧ _))

/-- Some run of the delegation left such a write. -/
def OpenWrite (s : Core) (d : Delegation) : Prop := ∃ row ∈ delegationRuns s d, LeavesOpen s row

instance (s : Core) (d : Delegation) : Decidable (OpenWrite s d) :=
  inferInstanceAs (Decidable (∃ row ∈ delegationRuns s d, _))

/-- The call was begun: its run has reported the start. -/
def HasBegun (s : Db) (call : ToolExecution) : Prop :=
  ∃ e ∈ s.events.rows, e.runID = call.runID ∧ e.kind = .toolStarted call.step call.call.id

instance (s : Db) (call : ToolExecution) : Decidable (HasBegun s call) :=
  inferInstanceAs (Decidable (∃ e ∈ s.events.rows, _ ∧ _))

/-- Some run of the delegation began a write that has no known result. -/
def UnknownWrite (s : Db) (d : Delegation) : Prop :=
  ∃ row ∈ delegationRuns s.toCore d, ∃ call ∈ s.tools.rows, call.runID = row.run.id ∧
    OpenCall call ∧ HasBegun s call

instance (s : Db) (d : Delegation) : Decidable (UnknownWrite s d) :=
  inferInstanceAs (Decidable (∃ row ∈ delegationRuns s.toCore d, ∃ call ∈ s.tools.rows, _ ∧ _ ∧ _))

/-- The first run, in the order of a preparation, that did other work than its
assignment or left a write open. -/
def firstBlock (s : Db) (d : Delegation) : Option (Assignment × RunRow) :=
  (handoffRuns s d).find? (fun item => ¬WorkedFor d item.1 item.2 ∨ LeavesOpen s.toCore item.2)

/-- That run, if there is one, worked for its assignment. -/
def Covered (s : Db) (d : Delegation) : Prop :=
  ∀ item ∈ firstBlock s d, WorkedFor d item.1 item.2

instance (s : Db) (d : Delegation) : Decidable (Covered s d) :=
  inferInstanceAs (Decidable (∀ item ∈ firstBlock s d, _))

theorem UnknownWrite.isOpen (unknown : UnknownWrite s d) : OpenWrite s.toCore d := by
  obtain ⟨row, mine, call, stored, run, isOpen, _⟩ := unknown
  exact ⟨row, mine, call, stored, run, isOpen⟩

variable {row : RunRow} {a : Assignment}

variable {e : Error} {task : Task}

/-- What passes in front of a traversal does not change how it ends. -/
theorem mapM_passes {α : Type} {f : α → Except Error Unit} {done rest : List α}
    (passes : ∀ item ∈ done, f item = .ok ()) :
    (done ++ rest).mapM f = (rest.mapM f).map (done.map (fun _ => ()) ++ ·) := by
  induction done with
  | nil =>
    rw [List.nil_append]
    cases rest.mapM f <;> rfl
  | cons head tail ih =>
    rw [List.cons_append, List.mapM_cons, passes head List.mem_cons_self,
      ih fun item member => passes item (List.mem_cons_of_mem _ member)]
    cases rest.mapM f <;> rfl

section

variable (inv : Succession s.toCore)
  (ended : ∀ row ∈ delegationRuns s.toCore d, row.run.status.terminal = true)
  (few : (delegationRuns s.toCore d).length ≤ 128)

include inv ended

include few

end

end DomainryAgent
