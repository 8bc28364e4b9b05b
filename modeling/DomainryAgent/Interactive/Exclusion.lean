import DomainryAgent.Interactive.Runs

/-!
Of the writers that read one revision of an interactive run, one is stored.

The update goes by a stamp, so it excludes others as far as stamps tell
revisions apart.  While every stored change is stamped with a later millisecond
than the run it replaces, stamps grow with revisions and the swap is exact.
Within one millisecond it is not: a change that was prepared before a handoff
is stored over it, and the run is handed off a second time.
-/

namespace DomainryAgent.Interactive

open Lib Tx

/-! ### Writers in order -/

/-- A call whose change is stamped with a later millisecond than the run it was
made from.  A save made through the repository itself moreover counts the
revision on and keeps the task of the run, as those of the service do. -/
def Call.Later (run : InteractiveRun) (now : Instant) : Call → Prop
  | .save value => unixMilli run.updatedAt < unixMilli value.updatedAt ∧
      value.revision = run.revision + 1 ∧ value.taskRunID = run.taskRunID
  | _ => unixMilli run.updatedAt < unixMilli now

/-- Calls are stamped later than what their writers have read. -/
def Orderly (w : Switchboard) : Action → Prop
  | .call writer call now => ∀ run, w.writers writer = some (.holding run) → call.Later run now
  | _ => True

instance (run : InteractiveRun) (now : Instant) (call : Call) : Decidable (call.Later run now) := by
  cases call <;> unfold Call.Later <;> infer_instance

instance (w : Switchboard) (action : Action) : Decidable (Orderly w action) := by
  cases action with
  | call writer call now =>
    dsimp only [Orderly]
    rcases w.writers writer with _ | run | _ | _ | _
    case some.holding => exact decidable_of_iff (call.Later run now) (by simp)
    all_goals exact .isTrue nofun
  | read | advance | crash => exact .isTrue trivial

/-! ### What a writer knows of the run -/

/-- The change `value` was made from `run`. -/
structure Follows (run value : InteractiveRun) : Prop where
  revision : value.revision = run.revision + 1
  task : value.taskRunID = run.taskRunID
  stamp : unixMilli run.updatedAt < unixMilli value.updatedAt

/-- `run` was read before the run became `current`; if the revision is still the
same, so is the run. -/
structure Snapshot (run current : InteractiveRun) : Prop where
  before : run.revision ≤ current.revision
  same : run.revision = current.revision → run = current

/-- What a writer carries is up to date, or it will be noticed. -/
def Writer.Current (current : InteractiveRun) : Writer → Prop
  | .holding run => Snapshot run current
  | .saving run value _ => Snapshot run current ∧ Follows run value
  | .updating run value expected _ => expected ≤ unixMilli current.updatedAt ∧
      (expected = unixMilli current.updatedAt →
        run.revision = current.revision ∧ Follows current value)
  | .checking _ _ _ => True

/-- The run moved on to a later revision and a later millisecond. -/
structure MovesOn (current next : InteractiveRun) : Prop where
  revision : current.revision < next.revision
  stamp : unixMilli current.updatedAt < unixMilli next.updatedAt

variable {run next : InteractiveRun} {now : Instant}

variable {value current answer : InteractiveRun} {writer : Writer} {call : Call} {route : Route}
  {task : TaskRow} {store : Store}

theorem Follows.movesOn (follows : Follows run value) : MovesOn run value := by
  refine ⟨?_, follows.stamp⟩
  rw [follows.revision]
  omega

theorem Snapshot.refl (run : InteractiveRun) : Snapshot run run := ⟨le_refl _, fun _ => rfl⟩

/-- A writer that is overtaken stays behind. -/
theorem Snapshot.movesOn (snapshot : Snapshot run current) (moves : MovesOn current next) :
    Snapshot run next := by
  have behind : run.revision < next.revision := lt_of_le_of_lt snapshot.before moves.revision
  refine ⟨by omega, ?_⟩
  intro same
  omega

theorem Writer.Current.movesOn (known : writer.Current current) (moves : MovesOn current next) :
    writer.Current next := by
  cases writer with
  | holding run => exact Snapshot.movesOn known moves
  | saving run value call => exact ⟨known.1.movesOn moves, known.2⟩
  | updating run value expected call =>
    have behind : expected < unixMilli next.updatedAt := lt_of_le_of_lt known.1 moves.stamp
    exact ⟨behind.le, fun same => absurd same behind.ne⟩
  | checking run route processID => trivial

/-- Every change the service prepares follows the run it was made from. -/
theorem prepared_follows (later : call.Later run now)
    (ready : Switchboard.prepared run now call = some (.ok value)) : Follows run value := by
  cases call with
  | complete _ _ _ | recordToolInvocation _ | handoffWorkflow _ _ =>
    simp only [Switchboard.prepared, complete, recordToolInvocation, handoffWorkflow,
      Option.some.injEq] at ready
    split at ready
    · cases ready
    · cases ready
      exact ⟨rfl, rfl, later⟩
  | save value' =>
    cases ready
    exact ⟨later.2.1, later.2.2, later.1⟩
  | handoffTask route task => cases ready

/-! ### Handing off to a task -/

/-- A handoff answers with the task the run already has and writes nothing, or
it finds the revision and the millisecond its writer has read, and stores the
task with the run. -/
theorem handoffTask_ensures :
    (handoffTask run route task now).Ensures store fun out store' =>
      (out.2 = true ∧ store' = store) ∨
        (out.2 = false ∧ store.row.payload.taskRunID = none ∧
          store.row.payload.revision = run.revision ∧
          store.row.updatedAt = unixMilli run.updatedAt ∧
          ∃ run' task', store'.row = (handedOffRun store.row.payload run' task' now).row) := by
  unfold handoffTask
  rw [ensures_ite]
  refine ⟨fun _ => ensures_fail, fun _ => ?_⟩
  unfold commitInteractiveTaskHandoff
  rw [ensures_bind, ensures_read, ensures_ite]
  refine ⟨fun _ => ensures_pure.mpr (.inl ⟨rfl, rfl⟩), ?_⟩
  intro free
  simp only [wp]
  rintro ⟨revision, -⟩ - tasks - row updated
  unfold updateInteractiveRun at updated
  split at updated
  · next found =>
    cases updated
    exact .inr ⟨trivial, not_not.mp free, revision, found.2.2, _, _, rfl⟩
  · cases updated

/-! ### The invariant -/

/-- Every writer is up to date or behind, what was stored came from an earlier
revision, each from another one, and a run that was handed off has its task. -/
structure Exclusive (w : Switchboard) : Prop where
  column : w.store.row.updatedAt = unixMilli w.store.row.payload.updatedAt
  current : ∀ id writer, w.writers id = some writer → writer.Current w.store.row.payload
  past : ∀ outcome ∈ w.outcomes, outcome.stored = true →
    outcome.revision < w.store.row.payload.revision
  once : ((w.outcomes.filter Outcome.stored).map Outcome.revision).Nodup
  handed : w.handedTo.length ≤ 1
  kept : w.handedTo ≠ [] → w.store.row.payload.taskRunID ≠ none

theorem Exclusive.initial (run : InteractiveRun) (tasks : Table TaskRow.key) :
    Exclusive (Switchboard.initial run tasks) where
  column := rfl
  current := by
    intro id writer found
    cases found
  past := by
    intro outcome member
    cases member
  once := List.nodup_nil
  handed := Nat.zero_le _
  kept := fun some => absurd rfl some

section Steps

variable {w : Switchboard} {id : Id}

section

variable (exclusive : Exclusive w)

include exclusive

/-- A writer that moves to an up-to-date state changes nothing else. -/
theorem Exclusive.become {next : Option Writer}
    (known : ∀ writer, next = some writer → writer.Current w.store.row.payload) :
    Exclusive (w.become id next) := by
  refine { exclusive with current := ?_ }
  intro other writer found
  by_cases here : other = id
  · subst here
    dsimp only [Switchboard.become] at found
    rw [Function.update_self] at found
    exact known writer found
  · dsimp only [Switchboard.become] at found
    rw [Function.update_of_ne here] at found
    exact exclusive.current other writer found

/-- An answer that stores nothing changes nothing. -/
theorem Exclusive.finish {answer : Except Error (InteractiveRun × Bool)}
    (nothing : (⟨run.revision, answer⟩ : Outcome).stored = false) :
    Exclusive (w.finish id run answer) := by
  have rest : Exclusive (w.become id none) :=
    exclusive.become fun writer absurd => nomatch absurd
  refine { rest with past := ?_, once := ?_ }
  · intro outcome member stored
    rcases List.mem_cons.mp member with rfl | earlier
    · rw [nothing] at stored
      cases stored
    · exact exclusive.past outcome earlier stored
  · have same : (w.finish id run answer).outcomes.filter Outcome.stored =
        w.outcomes.filter Outcome.stored :=
      List.filter_cons_of_neg (by simp [nothing])
    rw [same]
    exact exclusive.once

theorem Exclusive.notSaved (run : InteractiveRun) (call : Call) :
    Exclusive (w.notSaved id run call) := by
  cases call with
  | handoffWorkflow route processID =>
    refine exclusive.become fun writer next => ?_
    cases next
    trivial
  | complete | recordToolInvocation | handoffTask | save => exact exclusive.finish rfl

/-- A change made from the current run is stored: no writer of this revision was
stored before, and none will be. -/
theorem Exclusive.write {handedTo : List Id} (row : store.row = next.row)
    (moves : MovesOn w.store.row.payload next)
    (revision : run.revision = w.store.row.payload.revision) (handed : handedTo.length ≤ 1)
    (kept : handedTo ≠ [] → next.taskRunID ≠ none) :
    Exclusive { w.finish id run (.ok (answer, false)) with store := store, handedTo := handedTo } := by
  have payload : store.row.payload = next := by rw [row]; rfl
  have idle : Exclusive (w.become id none) := exclusive.become fun writer absurd => nomatch absurd
  refine ⟨?_, ?_, ?_, ?_, handed, ?_⟩
  · change store.row.updatedAt = unixMilli store.row.payload.updatedAt
    rw [row]
    rfl
  · intro other writer found
    change writer.Current store.row.payload
    rw [payload]
    exact (idle.current other writer found).movesOn moves
  · intro outcome member stored
    change outcome.revision < store.row.payload.revision
    rw [payload]
    rcases List.mem_cons.mp member with rfl | earlier
    · exact lt_of_eq_of_lt revision moves.revision
    · exact (exclusive.past outcome earlier stored).trans moves.revision
  · change ((Outcome.mk run.revision (.ok (answer, false)) :: w.outcomes).filter
      Outcome.stored |>.map Outcome.revision).Nodup
    rw [List.filter_cons_of_pos (by rfl), List.map_cons, List.nodup_cons]
    refine ⟨?_, exclusive.once⟩
    intro again
    obtain ⟨outcome, member, same⟩ := List.mem_map.mp again
    obtain ⟨earlier, stored⟩ := List.mem_filter.mp member
    have older := exclusive.past outcome earlier stored
    rw [same, revision] at older
    exact lt_irrefl _ older
  · change handedTo ≠ [] → store.row.payload.taskRunID ≠ none
    rw [payload]
    exact kept

/-- A handoff to a task that is stored is the first one. -/
theorem Exclusive.handOff (later : unixMilli run.updatedAt < unixMilli now) :
    Exclusive (w.handOff id run route task now) := by
  unfold Switchboard.handOff
  split
  · exact exclusive.finish rfl
  · next answer replayed store ok =>
    rcases handoffTask_ensures _ _ ok with
      ⟨rfl, rfl⟩ | ⟨rfl, free, revision, stamp, run', task', row⟩
    · exact exclusive.finish rfl
    · have none : w.handedTo = [] := by
        by_contra some
        exact exclusive.kept some free
      have moves : MovesOn w.store.row.payload
          (handedOffRun w.store.row.payload run' task' now) := by
        refine ⟨Nat.lt_succ_self _, ?_⟩
        rw [← exclusive.column, stamp]
        exact later
      refine exclusive.write row moves revision.symm ?_ ?_
      · simp [none]
      · intro _ gone
        cases gone

theorem Exclusive.begin (holds : w.writers id = some (.holding run))
    (later : call.Later run now) : Exclusive (w.begin id run call now) := by
  have snapshot : Snapshot run w.store.row.payload := exclusive.current id _ holds
  cases call with
  | handoffTask route task => exact exclusive.handOff later
  | complete | recordToolInvocation | handoffWorkflow | save =>
    simp only [Switchboard.begin]
    split
    · next prepared =>
      refine exclusive.become fun writer next => ?_
      cases next
      exact ⟨snapshot, prepared_follows later prepared⟩
    · exact exclusive.finish rfl
    · exact exclusive

theorem Exclusive.proceed (found : w.writers id = some writer) :
    Exclusive (w.proceed id writer) := by
  have known := exclusive.current id writer found
  cases writer with
  | holding run => exact exclusive
  | saving run value call =>
    simp only [Switchboard.proceed]
    split
    · next expected looked =>
      unfold lookInteractiveRun at looked
      split at looked
      · next agrees =>
        cases looked
        refine exclusive.become fun writer next => ?_
        cases next
        obtain ⟨snapshot, follows⟩ := known
        have current := snapshot.same agrees.2.2.symm
        exact ⟨le_refl _, fun _ => ⟨agrees.2.2.symm, current ▸ follows⟩⟩
      · cases looked
    · exact exclusive.notSaved run call
  | updating run value expected call =>
    simp only [Switchboard.proceed]
    split
    · next row updated =>
      unfold updateInteractiveRun at updated
      split at updated
      · next agrees =>
        cases updated
        have fresh : expected = unixMilli w.store.row.payload.updatedAt :=
          agrees.2.2.symm.trans exclusive.column
        obtain ⟨revision, follows⟩ := known.2 fresh
        refine exclusive.write rfl follows.movesOn revision exclusive.handed ?_
        rw [follows.task]
        exact exclusive.kept
      · cases updated
    · exact exclusive.notSaved run call
  | checking run route processID =>
    refine exclusive.finish ?_
    unfold recheckWorkflow
    by_cases before : w.store.row.payload.status = .handedOff ∧
        w.store.row.payload.routeType = route.routeType ∧
        w.store.row.payload.routedTargetKey = route.targetKey ∧
        w.store.row.payload.processID = processID
    · rw [if_pos before]
      rfl
    · rw [if_neg before]
      rfl

/-- Every action keeps the invariant. -/
theorem Exclusive.step (action : Action) (orderly : Orderly w action) :
    Exclusive (w.step action) := by
  cases action with
  | read writer =>
    refine exclusive.become fun state next => ?_
    cases next
    exact Snapshot.refl _
  | call writer call now =>
    simp only [Switchboard.step]
    split
    · next run holds => exact exclusive.begin holds (orderly run holds)
    · exact exclusive
  | advance writer =>
    simp only [Switchboard.step]
    split
    · next state found => exact exclusive.proceed found
    · exact exclusive
  | crash writer => exact exclusive.become fun state absurd => nomatch absurd

end

end Steps

/-! ### Results -/

/-- The revisions whose readers were stored. -/
def storedRevisions (w : Switchboard) : List Nat :=
  (w.outcomes.filter Outcome.stored).map Outcome.revision

/-- Whatever writers do to a run, in whatever order their statements take effect
and whoever crashes between them: while changes are stamped with a later
millisecond than what they were made from, of the writers that read one revision
at most one is stored, and the run is handed to at most one task. -/
theorem one_writer_per_revision {run : InteractiveRun} {tasks : Table TaskRow.key}
    {w : Switchboard}
    (reached : Reaches Switchboard.step Orderly (Switchboard.initial run tasks) w) :
    (storedRevisions w).Nodup ∧ w.handedTo.length ≤ 1 := by
  have exclusive : Exclusive w :=
    reached.invariant (Exclusive.initial run tasks) fun u kept action may => kept.step action may
  exact ⟨exclusive.once, exclusive.handed⟩

/-! ### Runs of the switchboard -/

/-- A run that was created at the first nanosecond. -/
def sampleRun : InteractiveRun where
  id := 1
  workspaceID := 1
  status := .running
  structuredResult := ""
  errorCode := ""
  toolCallCount := 0
  toolInvocations := []
  routeType := ""
  routedTargetKey := ""
  routedTargetVersion := ""
  processID := ""
  taskRunID := none
  updatedAt := 1
  completedAt := none
  revision := 1

def sampleRoute : Route := ⟨"agent_task", "review", "1", "key"⟩

def sampleTask (id : Id) : TaskRow := ⟨id, 1, none, "review", "1", "", toString id⟩

/-- A tool is recorded by one writer while another hands the run off to a task,
and a third finds the run running again. -/
def doubleHandoff (second third fourth : Instant) : List Action :=
  [.read 1, .read 2,
    .call 1 (.recordToolInvocation ⟨"call", "query"⟩) second, .advance 1,
    .call 2 (.handoffTask sampleRoute (sampleTask 7)) third, .advance 1,
    .read 3, .call 3 (.handoffTask sampleRoute (sampleTask 8)) fourth]

/-- Where the writers of the sample get. -/
def afterHandoffs (second third fourth : Instant) : Switchboard :=
  runActions Switchboard.step (Switchboard.initial sampleRun Table.empty)
    (doubleHandoff second third fourth)

/-- Within one millisecond both readers of the first revision are stored, and
the run is handed to two tasks. -/
theorem writers_share_a_revision :
    storedRevisions (afterHandoffs 2 3 4) = [2, 1, 1] ∧
      (afterHandoffs 2 3 4).handedTo = [8, 7] ∧
      (afterHandoffs 2 3 4).store.tasks.rows.length = 2 := by
  decide +kernel

/-- With milliseconds between them the tool call is refused and one task is
made. -/
theorem writers_apart_exclude :
    (storedRevisions (afterHandoffs 1000001 2000001 3000001)).Nodup ∧
      (afterHandoffs 1000001 2000001 3000001).handedTo.length ≤ 1 ∧
      storedRevisions (afterHandoffs 1000001 2000001 3000001) = [1] := by
  have reached : Reaches Switchboard.step Orderly (Switchboard.initial sampleRun Table.empty)
      (afterHandoffs 1000001 2000001 3000001) :=
    .decided _ (by decide +kernel)
  obtain ⟨once, handed⟩ := one_writer_per_revision reached
  exact ⟨once, handed, by decide +kernel⟩

end DomainryAgent.Interactive
