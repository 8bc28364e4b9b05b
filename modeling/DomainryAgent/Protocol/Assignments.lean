import DomainryAgent.Protocol.Calls
import DomainryAgent.Protocol.Tasks

/-!
The assignments of a delegation.

A transfer gives the delegation a new task in a new conversation and retires
the assignment it had.  Nothing executes a retired assignment any more: no run
is launched or reopened for it, so what its runs left stays as it was handed
over (`Retired`), and the handoff a task carries is the list of the writes its
delegation's retired assignments made (`HandedOn`).
-/

namespace DomainryAgent.Protocol

open Lib Table

variable {allowed : Hazard → Prop} {s t : Core}

/-! ### What a step does to the assignments -/

/-- The task and the conversation a delegation is at. -/
def currentWork (delegations : Table Delegation.id) (id : Id) : Option (Id × Id) :=
  (delegations.get? id).map (fun d => (d.taskID, d.conversationID))

variable {delegations : Table Delegation.id} {old d : Delegation} {now : Time}
  {limits : Option ExecutionLimits} {a : Assignment} {r : Id} {row : RunRow} {b : TaskExecution}
  {effect : DelegationEffect}

variable {new : Delegation} {k : Id × Nat × Id} {call : ToolExecution} {handoff : Handoff}

theorem currentWork_put (found : delegations.get? old.id = some old) (same : SameDelegation old new)
    (assignment : SameAssignment old new) (id : Id) :
    currentWork (delegations.put new) id = currentWork delegations id := by
  unfold currentWork
  by_cases here : id = new.id
  · subst here
    have before : delegations.get? new.id = some old := same.id ▸ found
    rw [get?_put_self before, before, Option.map_some, Option.map_some, assignment.task,
      assignment.conversation]
  · rw [get?_put_of_ne here]

/-- A row that is new, or written over, is where its delegation is. -/
theorem currentWork_of_get? {grown : Table Delegation.id}
    (rows : ∀ id, grown.get? id = if id = d.id then some d else delegations.get? id) (id : Id) :
    currentWork grown id =
      if id = d.id then some (d.taskID, d.conversationID) else currentWork delegations id := by
  unfold currentWork
  rw [rows]
  split <;> rfl

/-- Where the work for a new task comes from: its delegation is new, or it was
handed over. -/
def WorkFrom (s : Core) (id : Id) (task : Task) : Prop :=
  s.delegations.get? id = none ∧ task.handoff = none ∨
    ∃ old handoff, s.delegations.get? id = some old ∧ HandedOver s old handoff ∧
      task.handoff = some handoff

/-- The tasks after a step that assigns none. -/
def TasksRest (s t : Core) : Prop :=
  ∀ k task, t.tasks.get? k = some task →
    (∃ old, s.tasks.get? k = some old ∧ SameTask old task) ∨ task.delegationID = none

/-- What a step does to the assignments. -/
inductive AssignmentStep (s t : Core) : Prop
  | keep (assignments : t.assignments = s.assignments)
      (work : ∀ id, currentWork t.delegations id = currentWork s.delegations id)
      (tasks : TasksRest s t) : AssignmentStep s t
  | assign {d : Delegation} {task : Task} {row : Assignment} (work : TaskFor d task)
      (assigned : AssignedTo d task row) (insertedTask : s.tasks.insert? task = some t.tasks)
      (insertedRow : s.assignments.insert? row = some t.assignments)
      (moved : ∀ id, currentWork t.delegations id =
        if id = d.id then some (d.taskID, d.conversationID) else currentWork s.delegations id)
      (hosted : Hosted t.conversations row.conversationID row.executor)
      (runs : t.runs = s.runs) (tools : t.tools = s.tools) (origin : WorkFrom s d.id task) :
      AssignmentStep s t

theorem TasksRest.of_eq (tasks : t.tasks = s.tasks) : TasksRest s t := by
  intro k task there
  rw [tasks] at there
  exact .inl ⟨task, there, .refl task⟩

theorem TasksRest.of_put {old new : Task} (found : s.tasks.get? old.id = some old)
    (tasks : t.tasks = s.tasks.put new) (same : SameTask old new) : TasksRest s t := by
  intro k task there
  rw [tasks] at there
  rcases get?_put_some there with ⟨rfl, rfl, _⟩ | ⟨_, there⟩
  · exact .inl ⟨old, same.id ▸ found, same⟩
  · exact .inl ⟨task, there, .refl task⟩

theorem Move.assignmentStep (move : Move allowed s t) : AssignmentStep s t := by
  cases move with
  | closeTask _ _ _ _ _ named | reopenTask _ _ _ _ _ named =>
    exact .keep rfl (fun _ => rfl) (.of_put (get?_key named) rfl ⟨rfl, rfl, rfl, rfl, rfl, rfl⟩)
  | launch found same => exact .keep rfl (fun _ => rfl) (.of_put found rfl same)
  | editTask found edit => exact .keep rfl (fun _ => rfl) (.of_put found rfl edit.same)
  | submit found | repoint _ found | planTask found =>
    exact .keep rfl (fun _ => rfl) (.of_put found rfl ⟨rfl, rfl, rfl, rfl, rfl, rfl⟩)
  | newTask _ _ _ alone _ inserted =>
    refine .keep rfl (fun _ => rfl) fun k task there => ?_
    rcases get?_insert?_some inserted there with ⟨_, rfl⟩ | ⟨_, there⟩
    · exact .inr alone
    · exact .inl ⟨task, there, .refl task⟩
  | touchDelegation found same assignment =>
    exact .keep rfl (currentWork_put found same assignment) (.of_eq rfl)
  | tick | openConversation | touchConversation | run | openRun | endRun | reopenRun | reopenRunning
    | steps | tools | messages | send | input | openLedger | ledger =>
    exact .keep rfl (fun _ => rfl) (.of_eq rfl)

theorem Step.assignmentStep (step : Step allowed s t) : AssignmentStep s t := by
  cases step with
  | move move => exact move.assignmentStep
  | amendDelegation found same assignment =>
    exact .keep rfl (currentWork_put found same assignment) (.of_eq rfl)
  | resumeDelegation found same assignment _ named _ sameTask =>
    exact .keep rfl (currentWork_put found same assignment) (.of_put named rfl sameTask)
  | @admitDelegation d _ _ _ _ _ work _ _ insertedTask inserted _ _ _ _ _ _ assigned insertedRow _ _
      hosted own =>
    refine .assign work assigned insertedTask insertedRow (currentWork_of_get? (get?_insert? inserted).2)
      ?_ rfl rfl (.inl ⟨(get?_insert? inserted).1, own⟩)
    rw [assigned.conversation, assigned.executor]
    exact hosted
  | @transferDelegation old new _ _ _ found same _ work _ _ insertedTask _ _ _ _ _ assigned
      insertedRow _ hosted handoff handed carries =>
    have rows : ∀ id, (s.delegations.put new).get? id =
        if id = new.id then some new else s.delegations.get? id := by
      have there : s.delegations.get? new.id = some old := same.id ▸ found
      intro id
      grind [get?_put]
    refine .assign work assigned insertedTask insertedRow (currentWork_of_get? rows) ?_ rfl rfl
      (.inr ⟨old, handoff, same.id ▸ found, handed, carries⟩)
    rw [assigned.conversation, assigned.executor]
    exact hosted
  | snapshot => exact .keep rfl (fun _ => rfl) (.of_eq rfl)

/-! ### Who is assigned -/

/-- An assignment is to a task of its delegation, in a conversation of its
executor, and a delegation is at one of its assignments. -/
structure Assigned (s : Core) : Prop where
  task : ∀ a ∈ s.assignments.rows, ∃ task, s.tasks.get? a.taskID = some task ∧
    task.delegationID = some a.delegationID ∧
    task.executionConversationID = some a.conversationID ∧ task.authority = a.executor
  working : ∀ a ∈ s.assignments.rows, currentWork s.delegations a.delegationID ≠ none
  hosted : ∀ a ∈ s.assignments.rows, Hosted s.conversations a.conversationID a.executor
  current : ∀ id taskID conversationID,
    currentWork s.delegations id = some (taskID, conversationID) → ∃ a ∈ s.assignments.rows,
      a.delegationID = id ∧ a.taskID = taskID ∧ a.conversationID = conversationID
  single : ∀ a ∈ s.assignments.rows, ∀ b ∈ s.assignments.rows, a.taskID = b.taskID → a = b

theorem Assigned.empty : Assigned (Db.initial now limits).toCore where
  task _ member := nomatch member
  working _ member := nomatch member
  hosted _ member := nomatch member
  current id _ _ work := by simp [currentWork, Db.initial] at work
  single _ member := nomatch member

theorem Step.hosted_stays (step : Step allowed s t) {conversationID : Id} {executor : Authority}
    (hosted : Hosted s.conversations conversationID executor) :
    Hosted t.conversations conversationID executor := by
  obtain ⟨c, found, owner⟩ := hosted
  obtain ⟨next, found', same⟩ := step.conversation_stays found
  exact ⟨next, found', same.owner.trans owner⟩

theorem Step.assigned (step : Step allowed s t) (inv : Assigned s) : Assigned t := by
  have kept : ∀ a ∈ s.assignments.rows, ∃ task, t.tasks.get? a.taskID = some task ∧
      task.delegationID = some a.delegationID ∧
      task.executionConversationID = some a.conversationID ∧ task.authority = a.executor := by
    intro a member
    obtain ⟨task, found, delegation, conversation, authority⟩ := inv.task a member
    obtain ⟨next, found', same⟩ := step.task_stays found
    exact ⟨next, found', same.delegation.trans delegation, same.conversation.trans conversation,
      same.authority.trans authority⟩
  cases step.assignmentStep with
  | keep assignments work =>
    refine ⟨fun a member => kept a (assignments ▸ member), fun a member => ?_, fun a member => ?_,
      fun id taskID conversationID at_work => ?_, assignments ▸ inv.single⟩
    · rw [work]
      exact inv.working a (assignments ▸ member)
    · exact step.hosted_stays (inv.hosted a (assignments ▸ member))
    · rw [work] at at_work
      rw [assignments]
      exact inv.current id taskID conversationID at_work
  | @assign d task row work assigned insertedTask insertedRow moved hosted =>
    have rows : ∀ a, a ∈ t.assignments.rows ↔ a ∈ s.assignments.rows ∨ a = row := by
      intro a
      rw [rows_insert? insertedRow]
      simp
    have newTask : ∀ a ∈ s.assignments.rows, a.taskID ≠ row.taskID := by
      intro a member same
      obtain ⟨_, named, _⟩ := inv.task a member
      rw [same, assigned.names, (get?_insert? insertedTask).1] at named
      cases named
    refine ⟨fun a member => ?_, fun a member => ?_, fun a member => ?_,
      fun id taskID conversationID at_work => ?_, fun a member b member' same => ?_⟩
    · rcases (rows a).mp member with old | rfl
      · exact kept a old
      · refine ⟨task, ?_, ?_, ?_, assigned.executor.symm⟩
        · rw [assigned.names]
          exact get?_insert?_self insertedTask
        · rw [assigned.delegation]
          exact work.delegation
        · rw [assigned.conversation]
          exact work.conversation
    · rw [moved]
      split
      · exact Option.some_ne_none _
      · next other =>
        rcases (rows a).mp member with old | rfl
        · exact inv.working a old
        · exact absurd assigned.delegation other
    · rcases (rows a).mp member with old | rfl
      · exact step.hosted_stays (inv.hosted a old)
      · exact hosted
    · rw [moved] at at_work
      split at at_work
      · next here =>
        cases at_work
        refine ⟨row, (rows row).mpr (.inr rfl), assigned.delegation.trans here.symm, ?_,
          assigned.conversation⟩
        rw [assigned.names, work.id]
      · obtain ⟨a, member, rest⟩ := inv.current id taskID conversationID at_work
        exact ⟨a, (rows a).mpr (.inl member), rest⟩
    · rcases (rows a).mp member with old | rfl <;> rcases (rows b).mp member' with old' | rfl
      · exact inv.single a old b old' same
      · exact absurd same (newTask a old)
      · exact absurd same.symm (newTask b old')
      · rfl

/-- A run that works for an assignment runs in its conversation under its
executor. -/
theorem Assigned.run (inv : Assigned s) (routed : s.Routed)
    (member : a ∈ s.assignments.rows) (found : s.runs.get? r = some row)
    (background : row.run.background = some b) (works : b.taskID = a.taskID) :
    b.delegationID = some a.delegationID ∧ row.run.conversationID = a.conversationID ∧
      conversationOwner row.authority = conversationOwner a.executor := by
  obtain ⟨task, named, executes, _⟩ := routed.run_task found background
  obtain ⟨task', named', delegation, conversation, authority⟩ := inv.task a member
  rw [works, named'] at named
  cases named
  refine ⟨executes.delegation.trans delegation, ?_, ?_⟩
  · have here := executes.conversation (by rw [delegation]; exact Option.some_ne_none _)
    rw [conversation] at here
    exact (Option.some.inj here).symm
  · rw [executes.principal, authority]

/-! ### Retired assignments -/

/-- An assignment whose delegation has gone on to another one. -/
def Retires (s : Core) (a : Assignment) : Prop :=
  ∃ taskID conversationID,
    currentWork s.delegations a.delegationID = some (taskID, conversationID) ∧ a.taskID ≠ taskID

theorem Retires.of_work (retires : Retires t a)
    (work : currentWork t.delegations a.delegationID = currentWork s.delegations a.delegationID) :
    Retires s a := by
  obtain ⟨taskID, conversationID, at_work, other⟩ := retires
  exact ⟨taskID, conversationID, work.symm.trans at_work, other⟩

/-- Nothing is executed for a retired assignment: it is not current work. -/
theorem Retires.not_current (retires : Retires s a) (belongs : b.delegationID = some a.delegationID)
    (works : b.taskID = a.taskID) : ¬CurrentWork s.delegations b.delegationID b.taskID := by
  intro current
  obtain ⟨taskID, conversationID, work, other⟩ := retires
  obtain ⟨d, found, task⟩ := current a.delegationID belongs
  simp only [currentWork, found, Option.map_some, Option.some.injEq, Prod.mk.injEq] at work
  exact other (works.symm.trans (task.symm.trans work.1))

/-- A background run is an earlier one, or is launched for current work. -/
theorem Step.run_from (step : Step allowed s t) (there : t.runs.get? r = some row)
    (background : row.run.background = some b) :
    (∃ old, s.runs.get? r = some old ∧ SameRun old row) ∨
      CurrentWork s.delegations b.delegationID b.taskID := by
  cases step with
  | move move =>
    cases move with
    | launch _ _ _ _ _ _ _ _ _ executes _ _ inserted _ _ _ _ _ _ _ current =>
      rcases get?_insert?_some inserted there with ⟨_, rfl⟩ | ⟨_, there⟩
      · have same := executes.background.symm.trans background
        cases same
        exact .inr current
      · exact .inl ⟨row, there, .refl row⟩
    | openRun _ foreground inserted =>
      rcases get?_insert?_some inserted there with ⟨_, rfl⟩ | ⟨_, there⟩
      · cases foreground.symm.trans background
      · exact .inl ⟨row, there, .refl row⟩
    | run found same | endRun found same | reopenRun found same | closeTask found same
      | reopenTask found same | reopenRunning found same =>
      rcases get?_put_some there with ⟨rfl, rfl, _⟩ | ⟨_, there⟩
      · exact .inl ⟨_, (congrArg s.runs.get? same.id).trans found, same⟩
      · exact .inl ⟨row, there, .refl row⟩
    | _ => exact .inl ⟨row, there, .refl row⟩
  | _ => exact .inl ⟨row, there, .refl row⟩

/-- A background run that has ended is reopened only for current work. -/
theorem Step.ended_stays (step : Step allowed s t) {old : RunRow} (found : s.runs.get? r = some old)
    (background : old.run.background = some b) (ended : old.run.status.terminal = true)
    (there : t.runs.get? r = some row)
    (retired : ¬CurrentWork s.delegations b.delegationID b.taskID) :
    row.run.status.terminal = true := by
  have stays : ∀ {runs : Table RunRow.key}, runs = s.runs → runs.get? r = some row →
      row.run.status.terminal = true := by
    rintro _ rfl there
    rw [found] at there
    cases there
    exact ended
  have written : ∀ {before new : RunRow}, s.runs.get? before.run.id = some before →
      SameRun before new → (before.run.background = some b → before.run.status.terminal = true →
        new.run.status.terminal = true) → (s.runs.put new).get? r = some row →
      row.run.status.terminal = true := by
    intro before new at_before same keeps there
    rcases get?_put_some there with ⟨rfl, rfl, _⟩ | ⟨_, there⟩
    · have here : s.runs.get? row.run.id = some before := same.id ▸ at_before
      rw [found] at here
      cases here
      exact keeps background ended
    · exact stays rfl there
  cases step with
  | move move =>
    cases move with
    | run at_old same _ kept => exact written at_old same (fun _ ended => kept.trans ended) there
    | endRun at_old same _ _ ends | closeTask at_old same _ ends =>
      exact written at_old same (fun _ _ => ends) there
    | reopenRun at_old same _ _ foreground =>
      exact written at_old same (fun its => nomatch foreground.symm.trans its) there
    | reopenTask at_old same _ _ its _ _ _ _ current
      | reopenRunning at_old same _ _ its _ _ _ current =>
      refine written at_old same (fun background => ?_) there
      cases its.symm.trans background
      exact absurd current retired
    | openRun _ _ inserted | launch _ _ _ _ _ _ _ _ _ _ _ _ inserted =>
      rw [get?_insert?_of_some inserted found] at there
      cases there
      exact ended
    | _ => exact stays rfl there
  | _ => exact stays rfl there

/-- The runs of retired assignments have ended, and their writes are settled. -/
def Retired (s : Core) : Prop :=
  ∀ a ∈ s.assignments.rows, Retires s a → ∀ r row b, s.runs.get? r = some row →
    row.run.background = some b → b.taskID = a.taskID → row.run.status.terminal = true ∧
      ∀ k call, s.tools.get? k = some call → call.runID = r → unsettledWrite call = false

theorem Retired.empty : Retired (Db.initial now limits).toCore := fun _ member => nomatch member

/-- A step that assigns nothing launches no run for a retired assignment. -/
theorem Step.retired_run (step : Step allowed s t) (routed : s.Routed)
    (assigned : Assigned s) (member : a ∈ t.assignments.rows) (before : Retires s a)
    (there : t.runs.get? r = some row) (background : row.run.background = some b)
    (works : b.taskID = a.taskID) :
    ¬CurrentWork s.delegations b.delegationID b.taskID ∧ ∃ old, s.runs.get? r = some old ∧
      SameRun old row ∧ old.run.background = some b := by
  have belongs := ((step.assigned assigned).run (step.routed routed) member there background works).1
  have stopped := before.not_current belongs works
  obtain ⟨old, found, same⟩ := (step.run_from there background).resolve_right stopped
  exact ⟨stopped, old, found, same, same.background ▸ background⟩

/-- No claim on a run that has ended is accepted. -/
theorem idle_of_ended {claim : Claim} {other : RunRow} (accepted : Accepted s claim other)
    (found : s.runs.get? r = some row) (ended : row.run.status.terminal = true) :
    r ≠ claim.runID := by
  rintro rfl
  rw [accepted.found] at found
  cases found
  rw [accepted.running] at ended
  cases ended

/-- A settled write stays settled, and a run that has ended makes no other. -/
theorem CallFrom.settled (origin : CallFrom s k call) (receipts : Receipted s.tools)
    (run : call.runID = r) (found : s.runs.get? r = some row)
    (ended : row.run.status.terminal = true)
    (before : ∀ old, s.tools.get? k = some old → unsettledWrite old = false) :
    unsettledWrite call = false := by
  subst run
  cases origin with
  | kept there => exact before call there
  | @changed old there same isOpen =>
    have settled := (receipts.settled there).mp (before old there)
    have reads : call.definition.effect ≠ .write := by
      rw [same.definition]
      exact fun write => isOpen (settled write)
    simp [unsettledWrite, reads]
  | opened _ accepted same | reused _ accepted same =>
    exact absurd same (idle_of_ended accepted found ended)

/-- What is handed over is settled, the repeated receipts included. -/
theorem HandedOver.settles (handed : HandedOver s d handoff) (receipts : Receipted s.tools)
    (runs : AssignmentRun s d a row) (there : s.tools.get? k = some call)
    (run : call.runID = row.run.id) : unsettledWrite call = false := by
  by_cases own : call.reusedFrom = none
  · exact handed.settled a row call runs (mem_of_get? there) run own
  · exact (receipts.settled there).mpr fun _ => receipts.reused k call there own

theorem Step.retired (step : Step allowed s t) (routed : s.Routed)
    (assigned : Assigned s) (receipts : Receipted s.tools) (inv : Retired s) : Retired t := by
  intro a member retires r row b there background works
  cases step.assignmentStep with
  | keep assignments work =>
    have before : Retires s a := retires.of_work (work a.delegationID)
    obtain ⟨stopped, old, found, same, its⟩ :=
      step.retired_run routed assigned member before there background works
    rw [assignments] at member
    obtain ⟨ended, settled⟩ := inv a member before r old b found its works
    refine ⟨step.ended_stays found its ended there stopped, ?_⟩
    intro k call at_call run
    refine (step.call at_call).settled receipts run found ended fun old at_old => ?_
    refine settled k old at_old ?_
    have key : call.key = k := key_of_get? at_call
    have key' : old.key = k := key_of_get? at_old
    exact (congrArg Prod.fst (key'.trans key.symm)).trans run
  | @assign d task new work at_task insertedTask insertedRow moved _ runs tools origin =>
    rw [runs] at there
    rw [tools]
    obtain ⟨taskID, conversationID, at_work, other⟩ := retires
    rw [moved] at at_work
    rw [rows_insert? insertedRow, List.mem_append, List.mem_singleton] at member
    rcases member with member | rfl
    · split at at_work
      · next here =>
        obtain ⟨belongs, conversation, principal⟩ := assigned.run routed member there background works
        rcases origin with ⟨fresh, _⟩ | ⟨old, handoff, found, handed, _⟩
        · exact absurd (by simp [currentWork, here, fresh]) (assigned.working a member)
        · have key : old.id = d.id := key_of_get? found
          have its : AssignmentRun s old a row := by
            refine ⟨List.mem_filter.mpr ⟨member, ?_⟩, mem_of_get? there, conversation,
              principal⟩
            exact decide_eq_true (here.trans key.symm)
          refine ⟨handed.ended a row its, fun k call at_call run => ?_⟩
          have names : row.key = r := key_of_get? there
          exact handed.settles receipts its at_call (run.trans names.symm)
      · exact inv a member ⟨taskID, conversationID, at_work, other⟩ r row b there background works
    · rw [if_pos at_task.delegation] at at_work
      cases at_work
      exact absurd (at_task.names.trans work.id.symm) other

/-! ### Handoffs -/

/-- A write that a retired assignment of a delegation made. -/
inductive Effected (s : Core) (id : Id) (effect : DelegationEffect) : Prop
  | write {a : Assignment} {row : RunRow} {b : TaskExecution} {call : ToolExecution}
      (member : a ∈ s.assignments.rows) (delegation : a.delegationID = id) (retired : Retires s a)
      (found : s.runs.get? call.runID = some row) (background : row.run.background = some b)
      (works : b.taskID = a.taskID) (stored : s.tools.get? call.key = some call)
      (made : handoffEffect row.run call = some effect) : Effected s id effect

/-- The handoff a task carries lists writes of retired assignments, and the
current task of a delegation carries all of them. -/
structure HandedOn (s : Core) : Prop where
  sound : ∀ k task id handoff, s.tasks.get? k = some task → task.delegationID = some id →
    task.handoff = some handoff → ∀ effect ∈ handoff.effects, Effected s id effect
  complete : ∀ id taskID conversationID task,
    currentWork s.delegations id = some (taskID, conversationID) →
    s.tasks.get? taskID = some task → ∀ effect, Effected s id effect →
      ∃ handoff, task.handoff = some handoff ∧ effect ∈ handoff.effects

theorem HandedOn.empty : HandedOn (Db.initial now limits).toCore where
  sound _ _ _ _ found := by simp [Db.initial] at found
  complete id _ _ _ work := by simp [currentWork, Db.initial] at work

/-- What holds of the assignments wherever the store gets. -/
structure Succession (s : Core) : Prop where
  assigned : Assigned s
  receipts : Receipted s.tools
  retired : Retired s
  handed : HandedOn s

theorem Succession.empty :
    Succession (Db.initial now limits).toCore := ⟨.empty, .empty, .empty, .empty⟩

end DomainryAgent.Protocol
