import DomainryAgent.Refinement.PlanVersions

/-!
The control of a delegation's task follows the protocol, and touches nothing
but that task, its runs and its delegation (`Confined`).

A control cancels the run, which may store a closing plan version, and then
writes back the task it had read before.  Where the plan was closed in between
this is the hazard `staleTask`; the phase that goes back with the copy is the
hazard `stalePhase`.
-/

namespace DomainryAgent.Refinement

open Lib Tx Table Protocol

variable {allowed : Hazard → Prop} {clean : Prop} {s : Db}

/-! ### What a control leaves alone -/

/-- Only the task `t`, its runs and the delegation `id` changed. -/
structure Confined (t id : Id) (s s' : Core) : Prop where
  tasks : ∀ t', t' ≠ t → s'.tasks.get? t' = s.tasks.get? t'
  runs : ∀ r row, s.runs.get? r = some row → (∀ b, row.run.background = some b → b.taskID ≠ t) →
    s'.runs.get? r = some row
  delegations : ∀ id', id' ≠ id → s'.delegations.get? id' = s.delegations.get? id'

theorem Confined.refl (t id : Id) (s : Core) : Confined t id s s :=
  ⟨fun _ _ => rfl, fun _ _ found _ => found, fun _ _ => rfl⟩

variable {id via : Id} {t start : Core} {b : TaskExecution} {task : Task} {d origin : Delegation}
  {fields : List AgreementField} {a : Authority} {items : List Delegation} {changed queue : List Id}

variable {x y : Core} {old : RunRow} {control : Control}

theorem Confined.trans {t : Id} {z : Core} (first : Confined t id x y) (second : Confined t id y z) :
    Confined t id x z :=
  ⟨fun t' other => (second.tasks t' other).trans (first.tasks t' other),
    fun r row found other => second.runs r row (first.runs r row found other) other,
    fun id' other => (second.delegations id' other).trans (first.delegations id' other)⟩

/-- Nor is any of them a message. -/
theorem Confined.messages {t : Id} (confined : Confined t id x y) (messages : Table PeerMessage.id) :
    Confined t id x { y with peerMessages := messages } :=
  ⟨confined.tasks, confined.runs, confined.delegations⟩

/-- Work that is stopped leaves its delegation too, where that needs an update
already. -/
structure Contained (t id : Id) (s s' : Core) : Prop extends Confined t id s s' where
  still : (∀ d, s.delegations.get? id = some d → d.status = .needsUpdate) →
    s'.delegations = s.delegations

theorem Contained.refl (t id : Id) (s : Core) : Contained t id s s :=
  ⟨.refl t id s, fun _ => rfl⟩

/-- The end of a run touches its task and that task's delegation. -/
theorem TaskClosed.confined {s : Core} {run : Run} {reported : Bool}
    (closed : TaskClosed s run reported t) (background : run.background = some b)
    (named : s.tasks.get? b.taskID = some task) (belongs : task.delegationID = some id) :
    Contained b.taskID id s t := by
  cases closed with
  | foreground => exact .refl _ _ _
  | closed background' named' _ _ _ _ announced =>
    rw [background] at background'
    cases background'
    rw [named] at named'
    cases named'
    have key : task.id = b.taskID := key_of_get? named
    refine ⟨⟨fun t' other => ?_, fun _ _ found _ => found, fun id' other => announced.only ?_⟩,
      fun waits => ?_⟩
    · exact get?_put_of_ne (key ▸ other)
    · rw [belongs]
      exact fun same => other (Option.some.inj same).symm
    · cases announced with
      | silent => rfl
      | told its found executes =>
        obtain rfl := Option.some.inj (belongs.symm.trans its)
        simp [waits _ found] at executes

theorem Cancelled.confined {s : Core} (cancelled : Cancelled s old t)
    (found : s.runs.get? old.run.id = some old) (background : old.run.background = some b)
    (named : s.tasks.get? b.taskID = some task) (belongs : task.delegationID = some id) :
    Contained b.taskID id s t := by
  cases cancelled with
  | ended => exact .refl _ _ _
  | @cancelled _ _ new mid _ _ same _ _ _ _ _ _ closed =>
    have confined := TaskClosed.confined closed (same.background.trans background) named belongs
    refine ⟨⟨confined.tasks, fun r row there other => ?_, confined.delegations⟩, confined.still⟩
    -- The run that changes belongs to the task.
    have elsewhere : r ≠ new.run.id := by
      rintro rfl
      rw [same.id, found] at there
      cases there
      exact other b background rfl
    exact (get?_put_of_ne (v := new) elsewhere).trans (confined.runs r row there other)

/-! ### Stopping the task -/

/-- A task whose open run works on a plan step: cancelling it stores a closing
version behind the copy a control holds. -/
def StalePlan (s : Core) (t : Id) : Prop :=
  ∃ task r row plan, s.tasks.get? t = some task ∧ task.status.terminal = false ∧
    task.executionRunID = some r ∧ s.runs.get? r = some row ∧ row.run.status.terminal = false ∧
    task.plan = some plan ∧ plan.steps.any (·.status == .inProgress) = true

/-- A task that does not record that it is paused: a control that stops it
writes the phase back with the copy it holds. -/
def StalePhase (s : Core) (t : Id) : Prop :=
  ∃ task, s.tasks.get? t = some task ∧ task.goalProgress.phase ≠ .paused

/-- What a control may do to the task it stops. -/
def Stops (allowed : Hazard → Prop) (s : Core) (t : Id) : Prop :=
  allowed .ends ∧ (StalePlan s t → allowed .staleTask) ∧ (StalePhase s t → allowed .stalePhase)

/-- What is left of a task when its run is stopped. -/
structure Leftover (allowed : Hazard → Prop) (s : Core) (task : Task) (status : TaskStatus)
    (errorCode : String) (plan : Option Plan) (progress : GoalProgress) : Prop where
  found : s.tasks.get? task.id = some { task with
    status := status, errorCode := errorCode, plan := plan, goalProgress := progress }
  stopped : Stopped s.runs { task with
    status := status, errorCode := errorCode, plan := plan, goalProgress := progress }
  planned : plan = task.plan ∨ allowed .staleTask ∧ task.plan ≠ none

theorem Cancelled.leaves {s : Core} (cancelled : Cancelled s old t)
    (found : s.runs.get? old.run.id = some old) (background : old.run.background = some b)
    (names : b.taskID = task.id) (named : s.tasks.get? task.id = some task)
    (belongs : task.delegationID ≠ none) (executes : task.executionRunID = some old.run.id)
    (active : task.status.terminal = false) (stale : Stops allowed s task.id) :
    ∃ status errorCode plan progress,
      Leftover allowed t task status errorCode plan progress := by
  cases cancelled with
  | ended terminal =>
    refine ⟨task.status, task.errorCode, task.plan, task.goalProgress, named, ?_, .inl rfl⟩
    intro _ r executes'
    rw [executes] at executes'
    cases executes'
    exact ⟨old, found, terminal⟩
  | @cancelled _ _ new _ isOpen _ same status _ _ _ _ _ closed =>
    cases closed with
    | foreground none =>
      rw [same.background, background] at none
      cases none
    | @closed b' task' ends code plan plans _ _ progress _ _ background' named' _ _ left planned =>
      rw [same.background, background] at background'
      cases background'
      rw [names, named] at named'
      cases named'
      obtain ⟨rfl, rfl⟩ := left.unjudged (.inl belongs)
      refine ⟨ends, code, plan, progress, get?_put_self named, ?_, ?_⟩
      · refine .of_not_running ?_
        rintro running
        have terminal := left.ends
        rw [show ends = .running from running] at terminal
        cases terminal
      · cases planned with
        | keep => exact .inl rfl
        | close had closes _ =>
          rw [status] at closes
          unfold closedPlan at closes
          split at closes
          · next unfinished =>
            refine .inr ⟨stale.2.1 ⟨task, _, old, _, named, active, executes, found, isOpen, had,
              unfinished⟩, ?_⟩
            rw [had]
            exact Option.some_ne_none _
          · cases closes

/-- What a control finds after the run of the task was stopped. -/
theorem cancelExecution_stops (routed : s.Routed)
    (named : s.tasks.get? task.id = some task) (belongs : task.delegationID = some id)
    (stale : Stops allowed s.toCore task.id) :
    (cancelExecution d task).Ensures s (fun _ t => Moves allowed s.toCore t.toCore ∧
      Contained task.id id s.toCore t.toCore ∧
      ∃ status errorCode plan progress,
        Leftover allowed t.toCore task status errorCode plan progress) := by
  unfold cancelExecution
  split
  · next unnamed =>
    rw [ensures_pure]
    refine ⟨.refl, .refl _ _ _, task.status, task.errorCode, task.plan, task.goalProgress, named, ?_,
      .inl rfl⟩
    intro _ r executes
    rw [show task.executionRunID = some r from executes] at unnamed
    cases unnamed
  · next runID executes =>
    rw [ensures_onlyIf]
    refine ⟨fun active => cancel_cancels.mono ?_, fun ended => ?_⟩
    · rintro _ t ⟨old, found, cancelled⟩
      obtain ⟨row, b, there, background, names⟩ := routed.named_run named executes
      rw [found] at there
      cases there
      have key : old.key = runID := key_of_get? found
      have here := get?_key found
      refine ⟨cancelled.moves stale.1 here, names ▸ cancelled.confined here background (names ▸ named)
        belongs, ?_⟩
      exact cancelled.leaves here background names named
        (by rw [belongs]; exact Option.some_ne_none _) (executes.trans (congrArg some key.symm)) active stale
    · refine ⟨.refl, .refl _ _ _, task.status, task.errorCode, task.plan, task.goalProgress, named,
        ?_, .inl rfl⟩
      refine .of_not_running ?_
      intro running
      rw [show task.status = .running from running] at ended
      exact ended rfl

theorem ensures_overwriteTask {Q : Unit → Db → Prop} : (overwriteTask task).Ensures s Q ↔
      ∀ found, s.tasks.get? task.id = some found →
        Q () { s with tasks := s.tasks.put task } := by
  simp [overwriteTask]

theorem supersedeFields_writes :
    (supersedeFields task d fields).Ensures s (fun out s' => ∃ plan plans,
      PlanWrite task.id s.plans task.plan plan plans ∧ out = { task with plan := plan } ∧
        s' = { s with plans := plans }) := by
  unfold supersedeFields
  refine ensures_ite.mpr ⟨fun _ => ?_, fun _ => supersedeConversationTaskPlan_writes⟩
  rw [ensures_pure]
  exact ⟨task.plan, s.plans, .keep, rfl, rfl⟩

/-- Writing back the copy of a task that was stopped in between. -/
theorem Leftover.overwrite {status : TaskStatus} {errorCode : String} {plan next : Option Plan}
    {progress : GoalProgress} {plans : Table PlanRow.key}
    (left : Leftover allowed t task status errorCode plan progress)
    (phase : task.goalProgress.phase = .paused ∨ allowed .stalePhase) (stored : ∀ p, task.plan =
      some p → ∃ client, t.plans.get? (task.id, p.version) = some ⟨p, client⟩)
    (planned : PlanWrite task.id t.plans task.plan next plans) : Moves allowed t { t with
      plans := plans, tasks := t.tasks.put { task with status := .cancelled, plan := next } } := by
  -- The edit goes from the stored task, once that has the plan of the copy.
  have edit : ∀ p, p = task.plan → TaskEdit t.runs
      { task with
        status := status, errorCode := errorCode, plan := p, goalProgress := progress }
      { task with status := .cancelled, plan := next } := fun _ _ =>
    { same := ⟨rfl, rfl, rfl, rfl, rfl, rfl⟩, stopped := left.stopped, status := nofun
      queued := nofun, executes := .inl rfl, revision := le_rfl
      terms := fun _ => ⟨rfl, rfl, rfl⟩, runs := .same rfl rfl, budget := fun _ => rfl }
  have verified : Verified { task with status := .cancelled, plan := next } :=
    .of_status nofun
  rcases left.planned with rfl | ⟨hazard, has⟩
  · exact .single (.editTask left.found (edit _ rfl) planned nofun .keep
      (fun _ => verified) (phase.imp_left fun paused _ => paused))
  · obtain ⟨p, had⟩ := Option.ne_none_iff_exists'.mp has
    obtain ⟨client, at_p⟩ := stored p had
    have back : Move allowed t { t with
        tasks := t.tasks.put { task with
          status := status, errorCode := errorCode, plan := some p, goalProgress := progress } } :=
      @Move.repoint _ _ { task with
        status := status, errorCode := errorCode, plan := plan, goalProgress := progress }
        ⟨p, client⟩ hazard left.found at_p
    refine .head back ?_
    have found := get?_put_self
      (v := { task with
        status := status, errorCode := errorCode, plan := some p, goalProgress := progress })
      left.found
    have last := put_put t.tasks
      (v := { task with
        status := status, errorCode := errorCode, plan := some p, goalProgress := progress })
      (w := { task with status := .cancelled, plan := next }) rfl
    rw [← last]
    exact .single (.editTask found (edit (some p) had.symm) (had ▸ planned) nofun
      .keep (fun _ => verified) (phase.imp_left fun paused _ => paused))

/-- Where the cancellation closes no plan, the copy a control holds still has
the last version. -/
theorem stopDelegatedTask_stops (sane : Sane allowed clean s.toCore)
    (named : s.tasks.get? task.id = some task) (belongs : task.delegationID = some id)
    (stale : Stops allowed s.toCore task.id) :
    (stopDelegatedTask d task control).Runs s (fun _ t => Moves allowed s.toCore t.toCore ∧
      Contained task.id id s.toCore t.toCore) (Fine clean) := by
  refine runs_bind.mpr (Runs.mono ⟨cancelExecution_stops sane.routed named belongs stale,
    fun e failed h => sound_cancelExecution (sane.ordered h) e failed⟩ ?_)
  rintro _ t ⟨moves, confined, status, errorCode, plan, progress, left⟩
  refine runs_bind.mpr (Runs.mono ⟨supersedeFields_writes, fun e failed h => ?_⟩ ?_)
  · have last := ((sane.steps moves.steps).ordered h).nextFree left.found
    obtain rfl := left.planned.resolve_right fun closed => (sane.current h).1 closed.1
    have copy : NextFree t.plans { task with status := .cancelled } := ⟨last.owner, last.free⟩
    unfold supersedeFields at failed
    exact throws_ite.mpr ⟨fun _ => by simp, fun _ => sound_supersedeConversationTaskPlan copy⟩
      e failed
  rintro _ _ ⟨next, plans, planned, rfl, rfl⟩
  rw [runs_sound sound_overwriteTask, ensures_overwriteTask]
  intro _ _
  have phase := or_iff_not_imp_left.mpr fun active => stale.2.2 ⟨task, named, active⟩
  refine ⟨moves.trans (left.overwrite phase ?_ planned), confined.trans ⟨?_,
    fun _ _ there _ => there, fun _ _ => rfl⟩, confined.still⟩
  · intro p had
    obtain ⟨client, stored⟩ := sane.history.stored named had
    exact ⟨client, moves.steps.plans_kept stored⟩
  · intro t' other
    exact get?_put_of_ne other

theorem invalidateEndedTask_stops (sane : Sane allowed clean s.toCore)
    (named : s.tasks.get? task.id = some task) (ended : task.status.terminal = true) :
    (invalidateEndedTask d task).Runs s (fun _ t => Moves allowed s.toCore t.toCore ∧
      Contained task.id id s.toCore t.toCore) (Fine clean) := by
  unfold invalidateEndedTask
  split
  · rw [runs_sound throws_pure, ensures_pure]
    exact ⟨.refl, .refl _ _ _⟩
  · refine runs_bind.mpr (Runs.mono ⟨supersedeConversationTaskPlan_writes, fun e failed h =>
      sound_supersedeConversationTaskPlan ((sane.ordered h).nextFree named) e failed⟩ ?_)
    rintro _ _ ⟨next, plans, planned, rfl, rfl⟩
    rw [runs_sound sound_saveTask, ensures_saveTask]
    intro _ _ _
    have idle : task.status ≠ .running := by
      intro running
      rw [running] at ended
      cases ended
    have edit : TaskEdit s.runs task { task with plan := next } :=
      { same := ⟨rfl, rfl, rfl, rfl, rfl, rfl⟩, stopped := .of_not_running idle, status := idle
        queued := fun queued => by rw [show task.status = .queued from queued] at ended; cases ended
        executes := .inl rfl, revision := le_rfl, terms := fun _ => ⟨rfl, rfl, rfl⟩
        runs := .same rfl rfl, budget := fun _ => rfl }
    refine ⟨.single (.editTask named edit planned .inl .keep (fun h => h) (.inl fun h => h)),
      ⟨fun t' other => get?_put_of_ne other, fun _ _ there _ => there, fun _ _ => rfl⟩,
      fun _ => rfl⟩

/-! ### Controlling the task -/

theorem controlDelegationTask_stops (sane : Sane allowed clean s.toCore)
    (belongs : ∀ task, s.tasks.get? d.taskID = some task → task.delegationID = some d.id)
    (stops : control ≠ .resume) (stale : Stops allowed s.toCore d.taskID) :
    (controlDelegationTask d control a).Runs s (fun _ t => Moves allowed s.toCore t.toCore ∧
      Contained d.taskID d.id s.toCore t.toCore) (Fine clean) := by
  simp only [controlDelegationTask, runs_bind, runs_sound sound_delegationAuthorities,
    (readOnly_delegationAuthorities _ _).ensures, runs_sound sound_taskRow, ensures_taskRow,
    runs_sound (sound_demand (notTaken_forbidden _)), wp]
  rintro ⟨source, execution⟩ _ task named _ _
  have key : task.id = d.taskID := key_of_get? named
  have here := get?_key named
  rw [← key] at stale ⊢
  have stop : ∀ c, (stopDelegatedTask d task c).Runs s (fun _ t =>
      Moves allowed s.toCore t.toCore ∧ Contained task.id d.id s.toCore t.toCore) (Fine clean) :=
    fun _ => stopDelegatedTask_stops sane here (belongs task named) stale
  unfold controlTask
  split
  · exact absurd rfl stops
  · exact runs_ite.mpr ⟨invalidateEndedTask_stops sane here, fun _ => stop _⟩
  · exact stop _

/-- A resumption queues the task that ended under the delegation's agreement,
and writes no plan. -/
theorem controlDelegationTask_requeues :
    (controlDelegationTask d .resume a).Runs s (fun _ t => ∃ task,
      s.tasks.get? d.taskID = some task ∧ task.status.terminal = true ∧
        QueueRoom s.toCore task.authority ∧ t = { s with
          tasks := s.tasks.put (requeuedTask d task
            (conversationDelegationRemainingBudget s.toCore d)) }) (Fine clean) := by
  rw [runs_sound (by simp [controlDelegationTask, controlTask, resumeDelegatedTask,
    (readOnly_delegationAuthorities _ _).ensures])]
  simp only [controlDelegationTask, wp, (readOnly_delegationAuthorities _ _).ensures,
    ensures_taskRow, controlTask, resumeDelegatedTask, ensures_checkConversationQueueCapacity,
    ensures_overwriteTask]
  rintro ⟨source, execution⟩ _ task named _ _ ended _ _ passed _ _
  exact ⟨task, named, ended, queueRoom_of_check passed, rfl⟩

/-! ### Propagation -/

/-- A delegation the propagation has not reached: it, its task and the run its
task names are what they were at the start. -/
structure Untouched (start s : Core) (d : Delegation) : Prop where
  before : start.delegations.get? d.id = some d
  found : s.delegations.get? d.id = some d
  task : s.tasks.get? d.taskID = start.tasks.get? d.taskID
  run : ∀ task r row, s.tasks.get? d.taskID = some task → task.executionRunID = some r →
    s.runs.get? r = some row → start.runs.get? r = some row

theorem Untouched.stops {s : Core} (untouched : Untouched start s d)
    (stops : Stops allowed start d.taskID) : Stops allowed s d.taskID := by
  refine ⟨stops.1, ?_, ?_⟩
  · rintro ⟨task, r, row, plan, named, active, executes, there, rest⟩
    exact stops.2.1 ⟨task, r, row, plan, untouched.task ▸ named, active, executes,
      untouched.run task r row named executes there, rest⟩
  · rintro ⟨task, named, active⟩
    exact stops.2.2 ⟨task, untouched.task ▸ named, active⟩

/-- Work on another delegation leaves it so. -/
theorem Untouched.after {s : Core} {task : Id} (untouched : Untouched start s d)
    (routed : s.Routed) (confined : Confined task id s t)
    (other : d.id ≠ id) (otherTask : d.taskID ≠ task) : Untouched start t d := by
  have same := confined.tasks d.taskID otherTask
  refine ⟨untouched.before, (confined.delegations d.id other).trans untouched.found,
    same.trans untouched.task, fun own r row named executes there => ?_⟩
  rw [same] at named
  obtain ⟨row', b, there', background, names⟩ := routed.named_run named executes
  have kept := confined.runs r row' there' fun b' background' => by
    rw [background] at background'
    cases background'
    exact names ▸ otherTask
  rw [there] at kept
  cases kept
  exact untouched.run own r row named executes there'

theorem requirementChangeNotices_tells {reachedID : Option Id} :
    Tells (requirementChangeNotices origin d reachedID fields a) s := by
  simp only [requirementChangeNotices, wp, (readOnly_delegationAuthorities _ _).ensures,
    ensures_taskRow]
  rintro ⟨source, execution⟩ _ task _ _
  refine insertConversationPeerNotice_tells.mono ?_
  rintro _ _ ⟨first, told, rfl⟩
  refine insertConversationPeerNotice_tells.mono ?_
  rintro _ _ ⟨second, told', rfl⟩
  exact ⟨second, told.trans told', rfl⟩

theorem invalidate_follows (sane : Sane allowed clean s.toCore)
    (found : s.delegations.get? d.id = some d) (stale : Stops allowed s.toCore d.taskID) :
    (invalidate origin fields via a d).Runs s (fun _ t => Moves allowed s.toCore t.toCore ∧
      Confined d.taskID d.id s.toCore t.toCore ∧
      t.delegations = s.delegations.put (invalidated origin fields via d)) (Fine clean) := by
  simp only [invalidate, runs_bind, runs_sound sound_saveConversationDelegation,
    ensures_saveConversationDelegation]
  intro _ _ _ _
  have touch : Moves allowed s.toCore { s.toCore with
      delegations := s.delegations.put (invalidated origin fields via d) } :=
    .single (.touchDelegation found ⟨rfl, rfl, rfl, rfl, rfl, rfl⟩ ⟨rfl, rfl⟩ ⟨rfl, rfl, rfl, rfl, rfl⟩
      nofun (fun _ => .of_status nofun))
  have alone : Confined d.taskID d.id s.toCore { s.toCore with
      delegations := s.delegations.put (invalidated origin fields via d) } :=
    ⟨fun _ _ => rfl, fun _ _ there _ => there, fun _ other => get?_put_of_ne other⟩
  refine Runs.mono (controlDelegationTask_stops (sane.steps touch.steps) ?_ nofun stale) ?_
  · intro task named
    obtain ⟨task', named', belongs, _⟩ := sane.routed.assigned found
    rw [show s.tasks.get? d.taskID = some task from named] at named'
    cases named'
    exact belongs
  · rintro _ t ⟨moves, confined⟩
    rw [runs_sound sound_requirementChangeNotices]
    refine requirementChangeNotices_tells.mono ?_
    rintro _ _ ⟨messages, told, rfl⟩
    refine ⟨(touch.trans moves).trans (Told.moves told),
      (alone.trans confined.toConfined).messages messages, confined.still fun row there => ?_⟩
    cases (get?_put_at (v := invalidated origin fields via d) found rfl).symm.trans there
    rfl

/-- The delegations that depend on `origin`, directly or through others. -/
inductive Downstream (delegations : Table Delegation.id) (origin : Id) : Id → Prop
  | origin : Downstream delegations origin origin
  | via {v : Id} {d : Delegation} (reached : Downstream delegations origin v)
      (found : delegations.get? d.id = some d)
      (depends : ∃ edge ∈ d.dependencies, edge.reference.delegationID = v) :
      Downstream delegations origin d.id

/-- Every task below `origin` may be stopped. -/
abbrev StopsBelow (allowed : Hazard → Prop) (s : Core) (origin : Id) : Prop :=
  ∀ d, s.delegations.get? d.id = some d → Downstream s.delegations origin d.id →
    Stops allowed s d.taskID

/-- After work on `d`, the rest of the goal is as it was. -/
theorem Untouched.rest {s : Core} (routed : s.Routed)
    (confined : Confined d.taskID d.id s t) (here : Untouched start s d)
    (untouched : ∀ e ∈ items, e.id ∉ changed → Untouched start s e) :
    ∀ e ∈ items, e.id ∉ d.id :: changed → Untouched start t e := by
  intro e member unreached
  obtain ⟨other, unchanged⟩ := not_or.mp (fun h => unreached (List.mem_cons.mpr h))
  have before := untouched e member unchanged
  exact before.after routed confined other (routed.taskID_ne before.found here.found other)

theorem changeReaches_iff : changeReaches origin fields via d = true ↔
    ∃ edge ∈ d.dependencies, edge.reference.delegationID = via ∧ (via = origin.id →
      origin.subjectExited = true ∨
        dependencyProjection origin.brief origin.structuredInput edge.reference.fields ≠
          some edge.values ∨ fields = [.dependencies]) := by
  simp [changeReaches, or_assoc, imp_iff_not_or]

theorem propagateVia_follows {rest : List Delegation}
    (stale : StopsBelow allowed start origin.id)
    (within : ∀ d ∈ rest, d ∈ items) (sane : Sane allowed clean s.toCore)
    (reached : Downstream start.delegations origin.id via)
    (queued : ∀ v ∈ queue, Downstream start.delegations origin.id v)
    (untouched : ∀ d ∈ items, d.id ∉ changed → Untouched start s.toCore d) :
    (propagateVia origin fields via a rest changed queue).Runs s (fun out t =>
      Moves allowed s.toCore t.toCore ∧ (∀ v ∈ out.2, Downstream start.delegations origin.id v) ∧
        ∀ d ∈ items, d.id ∉ out.1 → Untouched start t.toCore d) (Fine clean) := by
  induction rest generalizing s changed queue with
  | nil =>
    unfold propagateVia
    rw [runs_sound throws_pure, ensures_pure]
    exact ⟨.refl, queued, untouched⟩
  | cons d rest ih =>
    have later := fun e member => within e (List.mem_cons_of_mem _ member)
    unfold propagateVia
    refine runs_ite.mpr ⟨fun _ => ih later sane queued untouched, fun chosen => ?_⟩
    simp only [not_or, Bool.not_eq_false] at chosen
    obtain ⟨fresh, _, _, reaches⟩ := chosen
    have here := untouched d (within d List.mem_cons_self) fresh
    obtain ⟨edge, member, upstream, _⟩ := changeReaches_iff.mp reaches
    have below := Downstream.via reached here.before ⟨edge, member, upstream⟩
    rw [runs_bind]
    refine (invalidate_follows sane here.found (here.stops (stale d here.before below))).mono ?_
    rintro _ t ⟨moves, confined, _⟩
    have next := List.forall_mem_append.mpr ⟨queued, List.forall_mem_singleton.mpr below⟩
    refine (ih later (sane.steps moves.steps) next
      (Untouched.rest sane.routed confined here untouched)).mono ?_
    exact fun _ _ ⟨after, left⟩ => ⟨moves.trans after, left⟩

theorem propagateLoop_follows (start : Core) {fuel : Nat}
    (stale : StopsBelow allowed start origin.id) (sane : Sane allowed clean s.toCore)
    (queued : ∀ v ∈ queue, Downstream start.delegations origin.id v)
    (untouched : ∀ d ∈ items, d.id ∉ changed → Untouched start s.toCore d) :
    (propagateLoop origin fields a items fuel changed queue).Runs s
      (fun _ t => Moves allowed s.toCore t.toCore) (Fine clean) := by
  induction fuel generalizing s changed queue with
  | zero => cases queue <;> exact (runs_sound throws_pure).mpr (ensures_pure.mpr .refl)
  | succ fuel ih =>
    cases queue with
    | nil => exact (runs_sound throws_pure).mpr (ensures_pure.mpr .refl)
    | cons via queue =>
      refine runs_bind.mpr ((propagateVia_follows stale (fun _ member => member) sane
        (queued via List.mem_cons_self)
        (fun v member => queued v (List.mem_cons_of_mem _ member)) untouched).mono ?_)
      rintro ⟨changed', queue'⟩ t ⟨moves, next, left⟩
      exact (ih (sane.steps moves.steps) next left).mono (fun _ _ => moves.trans)

/-- A change of an agreement reaches the delegations downstream of it that the
operation had not touched before. -/
theorem propagateRequirementChange_follows
    (stale : StopsBelow allowed start origin.id) (sane : Sane allowed clean s.toCore)
    (untouched : ∀ d, s.delegations.get? d.id = some d → d.id ≠ origin.id →
      Untouched start s.toCore d) :
    (propagateRequirementChange origin fields a).Runs s
      (fun _ t => Moves allowed s.toCore t.toCore) (Fine clean) := by
  simp only [propagateRequirementChange, runs_bind, runs_sound throws_read, wp]
  refine propagateLoop_follows start stale sane ?_ ?_
  · exact fun v member => List.mem_singleton.mp member ▸ .origin
  · intro d member other
    have chosen := List.mem_filter.mp (List.mem_insertionSort _ |>.mp member)
    exact untouched d (get?_of_mem chosen.1) (fun same => other (List.mem_singleton.mpr same))

end DomainryAgent.Refinement
