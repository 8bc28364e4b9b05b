import DomainryAgent.Protocol.Tasks
import DomainryAgent.PeerDelivery

/-!
What the record of a background task says, over every run of the store: which
runs it had, in which phase it is, and what completed it.

A message that wakes the executor of a delegation writes the new run and the
status on the task and nothing else.  The run the task named before is then in
no list (`forgetRun`), and the phase is the one of the status before
(`stalePhase`).  The controls of a delegation write back a copy with the phase
it had, and a follow-up that failed over its report keeps the phase of the run
that completed.
-/

namespace DomainryAgent

open Lib Table Protocol Refinement

variable {s : Db}

/-! ### Runs -/

/-- **Provenance of runs.**  As long as no message wakes an executor whose task
names a run, every run that executes a task is the one its task names or among
those it had. -/
theorem runs_are_on_their_task
    (reached : ReachableBy (fun u op => ¬Raises u op .forgetRun) s) :
    ∀ row ∈ s.runs.rows, ∀ b, row.run.background = some b →
      ∃ task ∈ s.tasks.rows, task.id = b.taskID ∧
        (task.executionRunID = some row.run.id ∨ row.run.id ∈ task.previousExecutionRuns) := by
  have provenance : Provenance s.runs s.tasks :=
    reached.invariant (P := fun c => Provenance c.runs c.tasks) (fun _ _ => .empty)
      fun _ _ _ kept _ _ step _ _ inv => step.provenance kept inv
  intro row member b background
  obtain ⟨task, named, had⟩ :=
    provenance row.run.id row b (get?_of_mem member) background
  exact ⟨task, mem_of_get? named, key_of_get? named, had⟩

theorem launched_run_is_on_its_task :
    ∃ row ∈ (afterOps launchedTask).runs.rows, ∃ b, row.run.background = some b ∧
      ∃ task ∈ (afterOps launchedTask).tasks.rows, task.id = b.taskID ∧
        (task.executionRunID = some row.run.id ∨ row.run.id ∈ task.previousExecutionRuns) := by
  obtain ⟨row, member, b, background⟩ : ∃ row ∈ (afterOps launchedTask).runs.rows,
      ∃ b, row.run.background = some b := by decide +kernel
  have reached : ReachableBy (fun u op => ¬Raises u op .forgetRun) (afterOps launchedTask) :=
    follows_afterOps (by decide)
  exact ⟨row, member, b, background, runs_are_on_their_task reached row member b background⟩

/-! The failing run: a delegation's run ends, which is told to the source, and a
message of the user wakes the executor with another one. -/

def wokenDelegation : List Op :=
  launchedDelegation ++
    [.finish delegatedClaim "done" "" true, .sendMessage 3 samplePeerSend sampleUser,
      .launchPeerMessage 1 21, .launchPeerMessage 1 22]

/-- The run that ended is on no list of its task. -/
theorem woken_task_forgets_its_run :
    ∃ s, Reachable s ∧ ∃ row b task, s.runs.get? 20 = some row ∧ row.run.background = some b ∧
      s.tasks.get? b.taskID = some task ∧ task.executionRunID = some 22 ∧
      20 ∉ task.previousExecutionRuns := by
  refine ⟨_, reachable_afterOps wokenDelegation, ?_⟩
  simp only [exists_and_left]
  decide +kernel

/-! ### Phases -/

/-- **Phases follow the status.**  As long as no operation takes a write that
leaves the phase, every task records the phase that its status asks for. -/
theorem tasks_record_their_phase
    (reached : ReachableBy (fun u op => ¬Raises u op .stalePhase) s) :
    ∀ task ∈ s.tasks.rows, task.goalProgress.phase =
      (setConversationTaskGoalPhase task).goalProgress.phase := by
  have phases : InPhases s.tasks :=
    reached.invariant (P := fun c => InPhases c.tasks) (fun _ _ => .empty)
      fun _ _ _ kept _ _ step _ _ inv => step.taskStep.each (fun _ new => new.phase)
        (fun _ _ change current => change.phase.resolve_right kept current) inv
  exact fun task member => phases task.id task (get?_of_mem member)

theorem launched_task_records_its_phase :
    ∃ task ∈ (afterOps launchedTask).tasks.rows, task.status = .running ∧
      task.goalProgress.phase = (setConversationTaskGoalPhase task).goalProgress.phase := by
  obtain ⟨task, member, running⟩ : ∃ task ∈ (afterOps launchedTask).tasks.rows,
      task.status = .running := by decide +kernel
  exact ⟨task, member, running, tasks_record_their_phase (follows_afterOps (by decide)) task member⟩

/-! The three failing runs: an executor that is woken, a delegation that is
paused, and a follow-up whose report cannot be read. -/

def pausedDelegation : List Op := launchedDelegation ++ [sampleUpdate .pause 2]

def unreportedFollowUp : List Op :=
  [.createConversation 1 none sampleUser,
    .acceptScheduledTask { sampleStart with followUp := true } sampleUser, .launchTask 1 20,
    .claim 1 7 1000 [], .finish sampleClaim "done" "" false]

/-- The status of the task and the phase it records. -/
def recordedPhase (ops : List Op) : Option (TaskStatus × GoalPhase) :=
  ((afterOps ops).tasks.get? 10).map (fun task => (task.status, task.goalProgress.phase))

/-- A running task is recorded as completed, a cancelled one as executing, and a
failed one as completed. -/
theorem writes_leave_the_phase :
    recordedPhase wokenDelegation = some (.running, .completed) ∧
    recordedPhase pausedDelegation = some (.cancelled, .executing) ∧
    recordedPhase unreportedFollowUp = some (.failed, .completed) ∧
    ∀ ops ∈ [wokenDelegation, pausedDelegation, unreportedFollowUp],
      ∃ s, Reachable s ∧ ∃ task ∈ s.tasks.rows, task.goalProgress.phase ≠
        (setConversationTaskGoalPhase task).goalProgress.phase := by
  refine ⟨by decide +kernel, by decide +kernel, by decide +kernel,
    fun ops member => ⟨_, reachable_afterOps ops, ?_⟩⟩
  revert ops
  decide +kernel

/-! ### Completion -/

/-- **Completion is verified.**  A completed task that is neither delegated nor a
follow-up has a stored completion that is ready and was handed in for the
agreement the task has; and the completions of a task are stored under the
revisions from one to its last, each once. -/
theorem completed_tasks_are_verified (reached : Reachable s) :
    (∀ task ∈ s.tasks.rows, task.status = .completed → task.delegationID = none →
      task.followUp = false → ∃ row ∈ s.completions.rows, row.taskID = task.id ∧
        task.completion = some row.completion ∧ row.completion.verification.ready = true ∧
        row.completion.submission.agreementRevision = max 1 task.agreementRevision) ∧
    ∀ task ∈ s.tasks.rows, ∃ n, ∀ k,
      (∃! row, row ∈ s.completions.rows ∧ row.taskID = task.id ∧ row.completion.revision = k) ↔
        1 ≤ k ∧ k ≤ n := by
  have verified : AllVerified s.tasks :=
    reached.invariant (P := fun c => AllVerified c.tasks) (fun _ _ => .empty)
      fun _ _ _ _ _ _ step _ _ inv => step.taskStep.each
        (fun _ new => .of_status (by rw [new.status]; exact nofun))
        (fun _ _ change => change.verified) inv
  have history : CompletionHistory s.tasks s.completions :=
    reached.invariant (P := fun c => CompletionHistory c.tasks c.completions) (fun _ _ => .empty)
      fun _ _ _ _ _ _ step _ _ inv => step.completionHistory inv
  constructor
  · intro task member completed own plain
    have found := get?_of_mem member
    obtain ⟨record, has, ready⟩ :=
      (Option.any_eq_true _ _).mp (verified task.id task found completed own plain)
    obtain ⟨ready, current⟩ := Bool.and_eq_true_iff.mp ready
    obtain ⟨row, stored, same⟩ := history.current found has
    have key : row.key = (task.id, record.revision) := key_of_get? stored
    refine ⟨row, mem_of_get? stored, (Prod.mk.inj key).1, ?_, ?_, ?_⟩
    · rw [same]; exact has
    · rw [same]; exact ready
    · rw [same]; exact beq_iff_eq.mp current
  · intro task member
    refine ⟨completionRevision task.completion, fun k => ?_⟩
    rw [← history.revisions (get?_of_mem member) k]
    constructor
    · rintro ⟨row, ⟨there, owner, revision⟩, _⟩
      have key : row.key = (task.id, k) := Prod.ext owner revision
      exact ⟨row, key ▸ get?_of_mem there⟩
    · rintro ⟨row, stored⟩
      have key : row.key = (task.id, k) := key_of_get? stored
      obtain ⟨owner, revision⟩ := Prod.mk.inj key
      refine ⟨row, ⟨mem_of_get? stored, owner, revision⟩, ?_⟩
      rintro other ⟨there, owner', revision'⟩
      have key' : other.key = (task.id, k) := Prod.ext owner' revision'
      have found := get?_of_mem there
      rw [key', stored] at found
      exact (Option.some.inj found).symm

/-- A task that is completed by the response of its run. -/
def completedTask : List Op :=
  [.createConversation 1 none sampleUser,
    .acceptScheduledTask { sampleStart with completionMode := .legacyResponse } sampleUser,
    .launchTask 1 20, .claim 1 7 1000 [], .finish sampleClaim "done" "" true]

theorem completed_task_is_verified :
    ∃ task ∈ (afterOps completedTask).tasks.rows, task.status = .completed ∧
      ∃ row ∈ (afterOps completedTask).completions.rows, row.taskID = task.id ∧
        task.completion = some row.completion ∧ row.completion.verification.ready = true ∧
        row.completion.submission.agreementRevision = max 1 task.agreementRevision := by
  obtain ⟨task, member, status, own, plain⟩ : ∃ task ∈ (afterOps completedTask).tasks.rows,
      task.status = .completed ∧ task.delegationID = none ∧ task.followUp = false := by
    decide +kernel
  exact ⟨task, member, status, (completed_tasks_are_verified (reachable_afterOps completedTask)).1
    task member status own plain⟩

end DomainryAgent
