import DomainryAgent.Protocol.Routing

/-!
Two properties of the link between a task and the run that executes it.

`NamesOpenRun`: a running task names a run that has not ended.  It survives
every step but the abandoning of a task.

`Exclusive`: a background run that has not ended is the one its task runs
under, so that a task has at most one.  It survives every step but a stray
resumption.
-/

namespace DomainryAgent.Protocol

open Lib Table

/-- A running task names an open run. -/
def NamesOpenRun (runs : Table RunRow.key) (tasks : Table Task.id) : Prop :=
  ∀ t task, tasks.get? t = some task → task.status = .running →
    ∃ r row, task.executionRunID = some r ∧ runs.get? r = some row ∧
      row.run.status.terminal = false

/-- An open background run is the one its task runs under. -/
def Exclusive (runs : Table RunRow.key) (tasks : Table Task.id) : Prop :=
  ∀ r row b, runs.get? r = some row → row.run.background = some b →
    row.run.status.terminal = false →
    ∃ task, tasks.get? b.taskID = some task ∧ task.status = .running ∧
      task.executionRunID = some r

variable {runs : Table RunRow.key} {tasks : Table Task.id} {delegations : Table Delegation.id}

/-! ### A running task names an open run -/

variable {old new task : Task} {grown : Table Task.id}

namespace NamesOpenRun

/-- Replacing a run by one that is still open, or that no running task names. -/
theorem put_run {old new : RunRow} (inv : NamesOpenRun runs tasks)
    (found : runs.get? old.run.id = some old) (same : SameRun old new)
    (stays : ∀ t task, tasks.get? t = some task → task.status = .running →
      task.executionRunID = some old.run.id → old.run.status.terminal = false →
      new.run.status.terminal = false) : NamesOpenRun (runs.put new) tasks := by
  intro t task named running
  obtain ⟨r, row, executes, there, isOpen⟩ := inv t task named running
  have kept : ∃ row', (runs.put new).get? r = some row' ∧ row'.run.status.terminal = false := by
    refine exists_put found same.id there isOpen ?_
    rintro rfl -
    obtain rfl : row.key = r := key_of_get? there
    exact stays t task named running executes isOpen
  obtain ⟨row', kept⟩ := kept
  exact ⟨r, row', executes, kept⟩

theorem insert_run {row : RunRow} {grown : Table RunRow.key} (inv : NamesOpenRun runs tasks)
    (inserted : runs.insert? row = some grown) : NamesOpenRun grown tasks := by
  intro t task named running
  obtain ⟨r, other, executes, there, isOpen⟩ := inv t task named running
  exact ⟨r, other, executes, get?_insert?_of_some inserted there, isOpen⟩

/-- Writing a task that is not running, or names an open run. -/
theorem write_task (inv : NamesOpenRun runs tasks) (written : Written tasks task grown)
    (names : task.status = .running → ∃ r row, task.executionRunID = some r ∧
      runs.get? r = some row ∧ row.run.status.terminal = false) : NamesOpenRun runs grown := by
  intro t other named running
  rcases written.cases named with ⟨_, rfl⟩ | ⟨_, named⟩
  · exact names running
  · exact inv t other named running

end NamesOpenRun

variable {allowed : Hazard → Prop} {s t : Core}

theorem Move.namesOpenRun (kept : ¬allowed .abandonTask) (move : Move allowed s t)
    (routed : s.Routed) (inv : NamesOpenRun s.runs s.tasks) :
    NamesOpenRun t.runs t.tasks := by
  cases move with
  | tick | openConversation | touchConversation | steps | tools | messages | send | input
    | touchDelegation | openLedger | ledger => exact inv
  | run found same _ unchanged =>
    exact inv.put_run found same (fun _ _ _ _ _ isOpen => unchanged.trans isOpen)
  | endRun found same _ _ _ alone =>
    refine inv.put_run found same ?_
    intro id task named _ executes isOpen
    obtain ⟨row, b, there, background, _⟩ := routed.named_run named executes
    rw [found] at there
    cases there
    rcases alone with foreground | hazard
    · rw [foreground] at background; cases background
    · exact absurd hazard kept
  | reopenRun found same _ reopened | reopenRunning found same _ reopened =>
    exact inv.put_run found same (fun _ _ _ _ _ _ => reopened)
  | openRun _ _ inserted => exact inv.insert_run inserted
  | @closeTask old new task b status _ _ _ _ _ _ found same _ _ background named _ _ ends =>
    -- No other task names the run that ends: a run belongs to one task.
    intro id other at_id running
    rcases get?_put_some at_id with ⟨_, rfl, _⟩ | ⟨elsewhere, at_id⟩
    · rw [show status = .running from running] at ends
      cases ends
    · obtain ⟨r, row, executes, there, isOpen⟩ := inv id other at_id running
      refine ⟨r, row, executes, ?_, isOpen⟩
      rw [get?_put_of_ne]
      · exact there
      · rintro rfl
        obtain ⟨row', b', there', background', task_eq⟩ := routed.named_run at_id executes
        rw [same.key, found] at there'
        cases there'
        rw [background] at background'
        cases background'
        exact elsewhere (task_eq ▸ (key_of_get? named).symm)
  | @reopenTask old new task b _ found same _ reopened _ named executes _ =>
    refine (inv.put_run found same fun _ _ _ _ _ _ => reopened).write_task
      (written_put (get?_key named) rfl) fun _ => ?_
    exact ⟨new.run.id, new, same.id.symm ▸ executes, get?_put_self (same.id ▸ found), reopened⟩
  | @launch task next row b grown found same running names _ _ _ _ _ _ _ fresh inserted =>
    refine (inv.insert_run inserted).write_task (written_put found same.id) fun _ => ?_
    refine ⟨row.run.id, row, names, get?_insert?_self inserted, ?_⟩
    rw [fresh.status]
    rfl
  | newTask status _ _ _ _ inserted =>
    exact inv.write_task (written_insert? inserted) fun running => nomatch status.symm.trans running
  | editTask found edit _ =>
    exact inv.write_task (written_put found edit.same.id) fun running => absurd running edit.status
  | submit found | repoint _ found | planTask found =>
    have names := inv _ _ found
    exact inv.write_task (written_put found rfl) names

theorem Step.namesOpenRun (kept : ¬allowed .abandonTask) (step : Step allowed s t)
    (routed : s.Routed) (inv : NamesOpenRun s.runs s.tasks) :
    NamesOpenRun t.runs t.tasks := by
  cases step with
  | move move => exact move.namesOpenRun kept routed inv
  | amendDelegation | snapshot => exact inv
  | resumeDelegation _ _ _ _ named _ sameTask _ _ queued =>
    exact inv.write_task (written_put named sameTask.id) fun running =>
      nomatch queued.symm.trans running
  | admitDelegation _ work _ _ insertedTask _ | transferDelegation _ _ _ work _ _ insertedTask =>
    exact inv.write_task (written_insert? insertedTask) fun running =>
      nomatch work.status.symm.trans running

/-! ### One executor per task -/

namespace Exclusive

theorem write_run {row : RunRow} {grown : Table RunRow.key} (inv : Exclusive runs tasks)
    (written : Written runs row grown)
    (covered : ∀ b, row.run.background = some b → row.run.status.terminal = false →
      ∃ task, tasks.get? b.taskID = some task ∧ task.status = .running ∧
        task.executionRunID = some row.run.id) : Exclusive grown tasks := by
  intro r other b there background isOpen
  rcases written.cases there with ⟨rfl, rfl⟩ | ⟨_, there⟩
  · exact covered b background isOpen
  · exact inv r other b there background isOpen

/-- A run of the foreground, or one that has ended, takes up no task. -/
theorem put_run {old new : RunRow} (inv : Exclusive runs tasks)
    (found : runs.get? old.run.id = some old) (same : SameRun old new)
    (free : old.run.background = none ∨ new.run.status.terminal = true) :
    Exclusive (runs.put new) tasks := by
  refine inv.write_run (written_put found same.id) fun b background isOpen => ?_
  rcases free with foreground | ended
  · rw [same.background, foreground] at background
    cases background
  · rw [ended] at isOpen
    cases isOpen

/-- Writing a task that keeps running under its run, or that has no open run. -/
theorem put_task (inv : Exclusive runs tasks) (found : tasks.get? old.id = some old)
    (id : new.id = old.id)
    (covered : ∀ r row b, runs.get? r = some row → row.run.background = some b →
      row.run.status.terminal = false → b.taskID = old.id → old.status = .running →
      old.executionRunID = some r → new.status = .running ∧ new.executionRunID = some r) :
    Exclusive runs (tasks.put new) := by
  intro r row b there background isOpen
  obtain ⟨task, named, running, executes⟩ := inv r row b there background isOpen
  refine exists_put found id named ⟨running, executes⟩ ?_
  rintro rfl -
  exact covered r row b there background isOpen (key_of_get? named).symm running executes

theorem insert_task (inv : Exclusive runs tasks) (inserted : tasks.insert? task = some grown) :
    Exclusive runs grown := by
  intro r row b there background isOpen
  obtain ⟨old, named, rest⟩ := inv r row b there background isOpen
  exact ⟨old, get?_insert?_of_some inserted named, rest⟩

end Exclusive

theorem Move.exclusive (kept : ¬allowed .strayResume) (move : Move allowed s t)
    (routed : s.Routed) (inv : Exclusive s.runs s.tasks) :
    Exclusive t.runs t.tasks := by
  cases move with
  | tick | openConversation | touchConversation | steps | tools | messages | send | input
    | touchDelegation | openLedger | ledger => exact inv
  | @run old new found same _ unchanged =>
    refine inv.write_run (written_put found same.id) fun b background isOpen => ?_
    rw [same.id]
    exact inv old.run.id old b found (same.background ▸ background) (unchanged ▸ isOpen)
  | endRun found same _ _ ended => exact inv.put_run found same (.inr ended)
  | reopenRun found same _ _ foreground => exact inv.put_run found same (.inl foreground)
  | openRun _ foreground inserted =>
    refine inv.write_run (written_insert? inserted) fun b background _ => ?_
    rw [foreground] at background
    cases background
  | @closeTask old new task b _ _ _ _ _ _ _ found same _ ended background named _ executes =>
    have stopped := inv.put_run found same (.inr ended)
    -- The closed task runs under the run that ended, so no open run is left.
    refine stopped.put_task (get?_key named) rfl ?_
    intro r row b' there _ isOpen _ _ executes'
    rcases get?_put_some there with ⟨_, rfl, _⟩ | ⟨elsewhere, _⟩
    · rw [ended] at isOpen
      cases isOpen
    · rw [executes] at executes'
      exact absurd (Option.some.inj executes').symm (same.key ▸ elsewhere)
  | @reopenTask old new task b _ found same _ _ background named executes ended =>
    have reopened := get?_key named
    refine Exclusive.write_run (inv.put_task reopened rfl ?_) (written_put found same.id) ?_
    · intro r row b' _ _ _ _ running _
      rcases ended with failed | cancelled
      · rw [failed] at running; cases running
      · rw [cancelled] at running; cases running
    · intro b' background' _
      rw [same.background, background] at background'
      cases background'
      rw [← key_of_get? named, same.id]
      exact ⟨_, get?_put_self reopened, rfl, executes⟩
  | @reopenRunning old new task b found same _ _ background named running executes =>
    refine inv.write_run (written_put found same.id) ?_
    intro b' background' _
    rw [same.background, background] at background'
    cases background'
    rw [same.id]
    exact ⟨task, named, running, executes.resolve_right kept⟩
  | @launch task next row b grown found same running names _ _ _ _ idle executes _ _ inserted =>
    have stored : (s.tasks.put next).get? task.id = some next := get?_put_at found same.id
    refine Exclusive.write_run (inv.put_task found same.id ?_) (written_insert? inserted) ?_
    · -- An open run of the launched task: the task is not queued, and no run
      -- of its conversation is open.
      intro r other b' there background' isOpen here status _
      exfalso
      rcases idle with queued | ⟨delegated, ended⟩
      · rw [queued] at status; cases status
      · obtain ⟨task', at_task, runs_it, _⟩ := routed.run_task there background'
        rw [here, found] at at_task
        cases at_task
        have conversation : other.run.conversationID = row.run.conversationID :=
          Option.some.inj ((runs_it.conversation delegated).symm.trans
            (executes.conversation delegated))
        have := ended r other there conversation (runs_it.principal.trans executes.principal.symm)
        rw [this] at isOpen
        cases isOpen
    · intro b' background' _
      obtain rfl : b' = b := Option.some.inj (background'.symm.trans executes.background)
      exact ⟨next, executes.names ▸ stored, running, names⟩
  | newTask _ _ _ _ _ inserted => exact inv.insert_task inserted
  | editTask found edit _ =>
    refine inv.put_task found edit.same.id ?_
    intro r row b there _ isOpen _ running executes
    obtain ⟨row', there', ended⟩ := edit.stopped running r executes
    rw [there] at there'
    cases there'
    rw [ended] at isOpen
    cases isOpen
  | submit found | repoint _ found | planTask found =>
    exact inv.put_task found rfl (fun _ _ _ _ _ _ _ running executes => ⟨running, executes⟩)

theorem Step.exclusive (kept : ¬allowed .strayResume) (step : Step allowed s t)
    (routed : s.Routed) (inv : Exclusive s.runs s.tasks) :
    Exclusive t.runs t.tasks := by
  cases step with
  | move move => exact move.exclusive kept routed inv
  | amendDelegation | snapshot => exact inv
  | resumeDelegation _ _ _ _ named ended sameTask =>
    refine inv.put_task named sameTask.id ?_
    intro _ _ _ _ _ _ _ running _
    rw [running] at ended
    cases ended
  | admitDelegation _ _ _ _ insertedTask _ | transferDelegation _ _ _ _ _ _ insertedTask =>
    exact inv.insert_task insertedTask

end DomainryAgent.Protocol
