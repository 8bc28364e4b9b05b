import DomainryAgent.Protocol.Steps

/-!
Who belongs to whom: a background run executes a task of its principal, a task
names a run of its own, a delegated task belongs to a delegation whose
agreement is at least as new as the task's, and a delegation's task carries the
delegation's agreement whenever the delegation executes.

`Routed` holds in every reachable state, whatever hazards are met
(`Step.routed`).
-/

namespace DomainryAgent.Protocol

open Lib Table

structure Routed (runs : Table RunRow.key) (tasks : Table Task.id)
    (delegations : Table Delegation.id) : Prop where
  run_task : ∀ {r row b}, runs.get? r = some row → row.run.background = some b →
    ∃ task, tasks.get? b.taskID = some task ∧ Executes row b task ∧
      b.agreementRevision ≤ task.agreementRevision
  named_run : ∀ {t task r}, tasks.get? t = some task → task.executionRunID = some r →
    ∃ row b, runs.get? r = some row ∧ row.run.background = some b ∧ b.taskID = t
  queued : ∀ {t task}, tasks.get? t = some task → task.status = .queued →
    task.executionRunID = none
  positive : ∀ {t task}, tasks.get? t = some task → 1 ≤ task.agreementRevision
  delegated : ∀ {t task id}, tasks.get? t = some task → task.delegationID = some id →
    ∃ d, delegations.get? id = some d ∧ task.agreementRevision ≤ d.agreementRevision
  assigned : ∀ {id d}, delegations.get? id = some d → ∃ task, tasks.get? d.taskID = some task ∧
    task.delegationID = some d.id ∧ task.executionConversationID = some d.conversationID ∧
    (d.status.live = true → task.agreementRevision = d.agreementRevision)

end Protocol

abbrev Core.Routed (s : Core) : Prop := Protocol.Routed s.runs s.tasks s.delegations

namespace Protocol

open Lib Table

theorem Routed.empty : Routed .empty .empty .empty where
  run_task found := by simp at found
  named_run found := by simp at found
  queued found := by simp at found
  positive found := by simp at found
  delegated found := by simp at found
  assigned found := by simp at found

theorem SameTask.refl (task : Task) : SameTask task task := ⟨rfl, rfl, rfl, rfl, rfl, rfl⟩

variable {old new : RunRow} {task next : Task} {allowed : Hazard → Prop} {s t : Core}

variable {b : TaskExecution}

theorem Executes.of_same (executes : Executes old b task) (run : SameRun old new)
    (same : SameTask task next) : Executes new b next where
  names := executes.names.trans same.id.symm
  background := run.background.trans executes.background
  principal := by rw [run.principal, executes.principal, same.authority]
  delegation := executes.delegation.trans same.delegation.symm
  conversation := by
    rw [same.delegation, same.conversation, run.conversation]
    exact executes.conversation
  handoff := executes.handoff.trans same.handoff.symm

theorem SameRun.refl (row : RunRow) : SameRun row row := ⟨rfl, rfl, rfl, rfl, rfl, rfl⟩

theorem SameRun.trans {x y z : RunRow} (first : SameRun x y) (second : SameRun y z) : SameRun x z :=
  ⟨second.id.trans first.id, second.conversation.trans first.conversation,
    second.background.trans first.background, second.agent.trans first.agent,
    second.client.trans first.client, second.principal.trans first.principal⟩

theorem SameRun.key (same : SameRun old new) : new.key = old.run.id := same.id

namespace Routed

variable {runs : Table RunRow.key} {tasks : Table Task.id} {delegations : Table Delegation.id}

/-! ### Runs -/

/-- A row that stays the same run keeps every link. -/
theorem put_run (inv : Routed runs tasks delegations) (found : runs.get? old.run.id = some old)
    (same : SameRun old new) : Routed (runs.put new) tasks delegations := by
  refine { inv with run_task := ?_, named_run := ?_ }
  · intro r row b there background
    rcases get?_put_some there with ⟨rfl, rfl, _⟩ | ⟨_, there⟩
    · obtain ⟨task, named, executes, revision⟩ :=
        inv.run_task found (same.background ▸ background)
      exact ⟨task, named, executes.of_same same (.refl task), revision⟩
    · exact inv.run_task there background
  · intro t task r named executes
    obtain ⟨row, b, there, background, task_eq⟩ := inv.named_run named executes
    obtain ⟨row', there', background'⟩ := exists_put (P := fun row => row.run.background = some b)
      (v := new) found same.id there background fun _ => same.background.trans
    exact ⟨row', b, there', background', task_eq⟩

variable {row : RunRow} {grown : Table Task.id} {d : Delegation}

section

variable (inv : Routed runs tasks delegations)

include inv

/-- A new run is in the foreground, or executes the task it names. -/
theorem insert_run {grown : Table RunRow.key}
    (links : ∀ b, row.run.background = some b → ∃ task, tasks.get? b.taskID = some task ∧
      Executes row b task ∧ b.agreementRevision ≤ task.agreementRevision)
    (inserted : runs.insert? row = some grown) : Routed grown tasks delegations := by
  refine { inv with run_task := ?_, named_run := ?_ }
  · intro r other b there background
    rcases get?_insert?_some inserted there with ⟨_, rfl⟩ | ⟨_, there⟩
    · exact links b background
    · exact inv.run_task there background
  · intro t task r named executes
    obtain ⟨other, b, there, background, task_eq⟩ := inv.named_run named executes
    exact ⟨other, b, get?_insert?_of_some inserted there, background, task_eq⟩

/-! ### Tasks -/

/-- An edit that keeps whose task it is, names a run of the task if any, and
carries a revision that its delegation admits. -/
theorem write_task (found : tasks.get? task.id = some task) (same : SameTask task next)
    (names : ∀ {r}, next.executionRunID = some r → ∃ row b, runs.get? r = some row ∧
      row.run.background = some b ∧ b.taskID = task.id)
    (queued : next.status = .queued → next.executionRunID = none)
    (revision : task.agreementRevision ≤ next.agreementRevision)
    (terms : ∀ {d}, delegations.get? d.id = some d → task.delegationID = some d.id →
      next.agreementRevision ≤ d.agreementRevision ∧ (d.taskID = task.id → d.status.live = true →
        next.agreementRevision = d.agreementRevision)) :
    Routed runs (tasks.put next) delegations := by
  -- Every lookup of the new table is either the edited row or an old one.
  have lookup : ∀ {t other}, (tasks.put next).get? t = some other →
      t = task.id ∧ other = next ∨ t ≠ task.id ∧ tasks.get? t = some other := by
    intro t other there
    rcases get?_put_some there with ⟨rfl, rfl, _⟩ | ⟨elsewhere, there⟩
    · exact .inl ⟨same.id, rfl⟩
    · exact .inr ⟨same.id ▸ elsewhere, there⟩
  constructor
  · intro r row b there background
    obtain ⟨other, named, runs_it, older⟩ := inv.run_task there background
    exact exists_put found same.id named ⟨runs_it, older⟩
      fun _ ⟨runs_it, older⟩ => ⟨runs_it.of_same (.refl row) same, older.trans revision⟩
  · intro t other r there named
    rcases lookup there with ⟨rfl, rfl⟩ | ⟨_, there⟩
    · exact names named
    · exact inv.named_run there named
  · intro t other there status
    rcases lookup there with ⟨rfl, rfl⟩ | ⟨_, there⟩
    · exact queued status
    · exact inv.queued there status
  · intro t other there
    rcases lookup there with ⟨rfl, rfl⟩ | ⟨_, there⟩
    · exact (inv.positive found).trans revision
    · exact inv.positive there
  · intro t other id there belongs
    rcases lookup there with ⟨rfl, rfl⟩ | ⟨_, there⟩
    · rw [same.delegation] at belongs
      obtain ⟨d, at_id, _⟩ := inv.delegated found belongs
      obtain rfl : d.id = id := key_of_get? at_id
      exact ⟨d, at_id, (terms at_id belongs).1⟩
    · exact inv.delegated there belongs
  · intro id d there
    obtain ⟨other, named, belongs, conversation, current⟩ := inv.assigned there
    refine exists_put found same.id named ⟨belongs, conversation, current⟩ ?_
    rintro rfl -
    exact ⟨same.delegation.trans belongs, same.conversation.trans conversation,
      (terms (get?_key there) belongs).2 (key_of_get? named).symm⟩

/-- A revision that a delegated task keeps is one its delegation admits. -/
theorem within (found : tasks.get? task.id = some task)
    {revision : Nat} (kept : task.delegationID ≠ none → revision = task.agreementRevision)
    (there : delegations.get? d.id = some d) (belongs : task.delegationID = some d.id) :
    revision ≤ d.agreementRevision ∧ (d.taskID = task.id → d.status.live = true →
      revision = d.agreementRevision) := by
  rw [kept (by rw [belongs]; exact Option.some_ne_none d.id)]
  constructor
  · obtain ⟨e, at_id, older⟩ := inv.delegated found belongs
    rw [there] at at_id
    cases at_id
    exact older
  · intro here
    obtain ⟨other, named, _, _, current⟩ := inv.assigned there
    rw [here, found] at named
    cases named
    exact current

/-- An edit that keeps the task's routing and, for a delegated one, the
revision it carries. -/
theorem put_task (found : tasks.get? task.id = some task) (same : SameTask task next)
    (executes : next.executionRunID = task.executionRunID ∨ next.executionRunID = none)
    (queued : next.status = .queued → next.executionRunID = none)
    (revision : task.agreementRevision ≤ next.agreementRevision)
    (terms : task.delegationID ≠ none → next.agreementRevision = task.agreementRevision) :
    Routed runs (tasks.put next) delegations := by
  refine inv.write_task found same ?_ queued revision (inv.within found terms)
  intro r names
  rcases executes with same_run | none
  · exact inv.named_run found (same_run ▸ names)
  · rw [none] at names
    cases names

/-- A launch: the task comes to name the run that executes it. -/
theorem launch {grown : Table RunRow.key} (found : tasks.get? task.id = some task)
    (same : SameTask task next)
    (running : next.status = .running) (names : next.executionRunID = some row.run.id)
    (revision : next.agreementRevision = task.agreementRevision) (executes : Executes row b task)
    (terms : b.agreementRevision = max 1 task.agreementRevision)
    (inserted : runs.insert? row = some grown) : Routed grown (tasks.put next) delegations := by
  have opened : Routed grown tasks delegations := by
    refine inv.insert_run ?_ inserted
    intro b' background
    obtain rfl : b' = b := Option.some.inj (background.symm.trans executes.background)
    have positive := inv.positive found
    exact ⟨task, executes.names ▸ found, executes, by omega⟩
  refine opened.write_task found same ?_ ?_ revision.ge (opened.within found fun _ => revision)
  · intro r named
    rw [names] at named
    cases named
    exact ⟨row, b, get?_insert?_self inserted, executes.background, executes.names⟩
  · intro queued
    rw [running] at queued
    cases queued

/-- A new task, with the delegation it is for if any. -/
theorem insert_task {next : Table Delegation.id} (run : task.executionRunID = none)
    (positive : 1 ≤ task.agreementRevision)
    (inserted : tasks.insert? task = some grown)
    (delegated : ∀ {id}, task.delegationID = some id →
      ∃ d, next.get? id = some d ∧ task.agreementRevision ≤ d.agreementRevision)
    (kept : ∀ {id old}, delegations.get? id = some old → ∃ new, next.get? id = some new ∧
      old.agreementRevision ≤ new.agreementRevision)
    (came : ∀ {id d}, next.get? id = some d → TaskFor d task ∨ delegations.get? id = some d) :
    Routed runs grown next := by
  constructor
  · intro r row b there background
    obtain ⟨old, named, rest⟩ := inv.run_task there background
    exact ⟨old, get?_insert?_of_some inserted named, rest⟩
  · intro t old r there names
    rcases get?_insert?_some inserted there with ⟨_, rfl⟩ | ⟨_, there⟩
    · rw [run] at names; cases names
    · exact inv.named_run there names
  · intro t old there status
    rcases get?_insert?_some inserted there with ⟨_, rfl⟩ | ⟨_, there⟩
    · exact run
    · exact inv.queued there status
  · intro t old there
    rcases get?_insert?_some inserted there with ⟨_, rfl⟩ | ⟨_, there⟩
    · exact positive
    · exact inv.positive there
  · intro t old id there belongs
    rcases get?_insert?_some inserted there with ⟨_, rfl⟩ | ⟨_, there⟩
    · exact delegated belongs
    · obtain ⟨e, at_id, older⟩ := inv.delegated there belongs
      obtain ⟨new, at_new, newer⟩ := kept at_id
      exact ⟨new, at_new, older.trans newer⟩
  · intro id d there
    rcases came there with work | there
    · exact ⟨task, work.id ▸ get?_insert?_self inserted, work.delegation, work.conversation,
        fun _ => work.revision⟩
    · obtain ⟨old, named, rest⟩ := inv.assigned there
      exact ⟨old, get?_insert?_of_some inserted named, rest⟩

/-! ### Delegations -/

/-- A delegation that keeps its assignment; where it executes, its task must
carry the new revision. -/
theorem put_delegation {old new : Delegation} (found : delegations.get? old.id = some old)
    (same : SameDelegation old new) (assignment : SameAssignment old new)
    (revision : old.agreementRevision ≤ new.agreementRevision)
    (current : new.status.live = true → ∀ task, tasks.get? old.taskID = some task →
      task.agreementRevision = new.agreementRevision) :
    Routed runs tasks (delegations.put new) := by
  refine { inv with delegated := ?_, assigned := ?_ }
  · intro t task id there belongs
    obtain ⟨d, at_id, older⟩ := inv.delegated there belongs
    exact exists_put found same.id at_id older fun _ older => older.trans revision
  · intro id d there
    rcases get?_put_some there with ⟨_, rfl, _⟩ | ⟨_, there⟩
    · obtain ⟨task, named, belongs, conversation, _⟩ := inv.assigned found
      refine ⟨task, assignment.task ▸ named, ?_, ?_, fun live => current live task named⟩
      · rw [same.id]; exact belongs
      · rw [assignment.conversation]; exact conversation
    · exact inv.assigned there

/-- Two delegations have two tasks. -/
theorem taskID_ne {e : Delegation}
    (found : delegations.get? d.id = some d) (found' : delegations.get? e.id = some e)
    (other : d.id ≠ e.id) : d.taskID ≠ e.taskID := by
  intro same
  obtain ⟨task, named, belongs, _⟩ := inv.assigned found
  obtain ⟨task', named', belongs', _⟩ := inv.assigned found'
  rw [← same, named] at named'
  cases named'
  rw [belongs] at belongs'
  exact other (Option.some.inj belongs')

/-- Evidence that a delegation may execute means that its task carries its
agreement. -/
theorem carries {old new : Delegation}
    (found : delegations.get? old.id = some old) (executes : MayExecute runs old new)
    (live : new.status.live = true) (named : tasks.get? old.taskID = some task) :
    task.agreementRevision = old.agreementRevision := by
  obtain ⟨task', named', belongs, _, current⟩ := inv.assigned found
  rw [named] at named'
  cases named'
  rcases executes live with was | ⟨r, row, b, there, background, names, revision⟩
  · exact current was
  · -- A run's revision is at most its task's, and that at most the delegation's.
    obtain ⟨task'', at_run, _, older⟩ := inv.run_task there background
    rw [names, named] at at_run
    cases at_run
    obtain ⟨d, at_id, newer⟩ := inv.delegated named belongs
    rw [found] at at_id
    cases at_id
    have := inv.positive named
    omega

/-- A new delegation or assignment comes with its task. -/
theorem assign {next : Table Delegation.id} (work : TaskFor d task) (positive : 1 ≤ d.agreementRevision)
    (insertedTask : tasks.insert? task = some grown) (self : next.get? d.id = some d)
    (kept : ∀ {id old}, delegations.get? id = some old → ∃ new, next.get? id = some new ∧
      old.agreementRevision ≤ new.agreementRevision)
    (came : ∀ {id new}, next.get? id = some new → new = d ∨ delegations.get? id = some new) :
    Routed runs grown next := by
  refine inv.insert_task work.run (work.revision ▸ positive) insertedTask ?_ kept ?_
  · intro id belongs
    rw [work.delegation] at belongs
    cases belongs
    exact ⟨d, self, work.revision.le⟩
  · intro id new there
    refine (came there).imp_left ?_
    rintro rfl
    exact work

/-- A delegation taken up again with its task. -/
theorem resume {old new : Delegation} (found : delegations.get? old.id = some old)
    (same : SameDelegation old new) (assignment : SameAssignment old new) (newer : old.agreementRevision ≤ new.agreementRevision)
    (named : tasks.get? task.id = some task) (sameTask : SameTask task next)
    (current : new.taskID = next.id) (run : next.executionRunID = none)
    (revision : next.agreementRevision = new.agreementRevision) :
    Routed runs (tasks.put next) (delegations.put new) := by
  -- The delegation carries the new agreement first, then its task, and then it executes.
  let stopped : Delegation := { new with status := .paused }
  have at_old : delegations.get? stopped.id = some old := same.id ▸ found
  have amended : Routed runs tasks (delegations.put stopped) :=
    inv.put_delegation found
      ⟨same.id, same.owner, same.root, same.workBudget, same.budget, same.exited⟩
      ⟨assignment.task, assignment.conversation⟩ newer nofun
  have at_stopped := get?_put_self at_old
  have own : stopped.taskID = task.id := current.trans sameTask.id
  obtain ⟨task', at_task, belongs, _⟩ := amended.assigned at_stopped
  rw [own, named] at at_task
  cases at_task
  obtain ⟨d, at_id, older⟩ := amended.delegated named belongs
  rw [at_stopped] at at_id
  cases at_id
  have carried : Routed runs (tasks.put next) (delegations.put stopped) := by
    refine amended.write_task named sameTask ?_ (fun _ => run) (revision ▸ older) ?_
    · intro r names
      rw [run] at names
      cases names
    · intro e there belongs'
      rw [belongs] at belongs'
      rw [← Option.some.inj belongs', at_stopped] at there
      cases there
      exact ⟨revision.le, nofun⟩
  have resumed : Routed runs (tasks.put next) ((delegations.put stopped).put new) :=
    carried.put_delegation at_stopped ⟨rfl, rfl, rfl, rfl, rfl, rfl⟩ ⟨rfl, rfl⟩ le_rfl ?_
  · rwa [put_put delegations (v := stopped) (w := new) rfl] at resumed
  · intro _ other there
    rw [own, ← sameTask.id, get?_put_self (sameTask.id ▸ named)] at there
    cases there
    exact revision

end

end Routed

theorem Move.routed (move : Move allowed s t) (inv : s.Routed) :
    t.Routed := by
  cases move with
  | tick | openConversation | touchConversation | steps | tools | messages | send | input | openLedger
    | ledger => exact inv
  | run found same | endRun found same | reopenRun found same | reopenRunning found same =>
    exact inv.put_run found same
  | openRun _ foreground inserted =>
    refine inv.insert_run (fun b background => ?_) inserted
    rw [foreground] at background
    cases background
  | closeTask found same _ _ _ named _ _ ends =>
    refine (inv.put_run found same).put_task (get?_key named) ⟨rfl, rfl, rfl, rfl, rfl, rfl⟩
      (.inl rfl) ?_ le_rfl (fun _ => rfl)
    rintro rfl
    cases ends
  | reopenTask found same _ _ _ named =>
    refine (inv.put_run found same).put_task (get?_key named) ⟨rfl, rfl, rfl, rfl, rfl, rfl⟩
      (.inl rfl) ?_ le_rfl (fun _ => rfl)
    rintro ⟨⟩
  | launch found same running names _ revision _ _ _ executes terms _ inserted =>
    exact inv.launch found same running names revision executes terms inserted
  | newTask _ run _ delegation revision inserted =>
    refine inv.insert_task run revision.ge inserted ?_ (fun there => ⟨_, there, le_rfl⟩) .inr
    intro id belongs
    rw [delegation] at belongs
    cases belongs
  | editTask found edit _ =>
    exact inv.put_task found edit.same edit.executes edit.queued edit.revision
      (fun belongs => (edit.terms belongs).revision)
  | submit found | repoint _ found | planTask found =>
    have idle := inv.queued found
    exact inv.put_task found ⟨rfl, rfl, rfl, rfl, rfl, rfl⟩ (.inl rfl) idle le_rfl (fun _ => rfl)
  | touchDelegation found same assignment agreement executes =>
    refine inv.put_delegation found same assignment agreement.revision.ge ?_
    intro live task named
    rw [agreement.revision]
    exact inv.carries found executes live named

/-- Every step keeps the routing. -/
theorem Step.routed (step : Step allowed s t) (inv : s.Routed) :
    t.Routed := by
  cases step with
  | move move => exact move.routed inv
  | amendDelegation found same assignment revision stops _ =>
    refine inv.put_delegation found same assignment (by omega) ?_
    intro live
    rw [stops] at live
    cases live
  | resumeDelegation found same assignment agreement named _ sameTask _ current _ run revision =>
    refine inv.resume found same assignment ?_ named sameTask current run revision
    rcases agreement with ⟨unchanged, _⟩ | ⟨raised, _⟩
    · exact unchanged.revision.ge
    · omega
  | admitDelegation first work _ _ insertedTask inserted =>
    refine inv.assign work first.ge insertedTask (get?_insert?_self inserted) ?_ ?_
    · intro id old there
      exact ⟨old, get?_insert?_of_some inserted there, le_rfl⟩
    · intro id new there
      exact (get?_insert?_some inserted there).imp And.right And.right
  | @transferDelegation old new _ _ _ found same revision work _ _ insertedTask =>
    have stored := get?_put_self (v := new) (same.id ▸ found)
    refine inv.assign work (by omega) insertedTask stored ?_ ?_
    · intro id other there
      exact exists_put found same.id there le_rfl fun _ older => by omega
    · intro id new there
      exact (get?_put_some there).imp (fun h => h.2.1) And.right
  | snapshot => exact inv

theorem Steps.routed (steps : Steps allowed s t) (inv : s.Routed) :
    t.Routed := by
  induction steps with
  | refl => exact inv
  | tail _ step ih => exact step.routed ih

end DomainryAgent.Protocol
