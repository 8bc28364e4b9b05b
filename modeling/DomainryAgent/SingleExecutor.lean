import DomainryAgent.Refinement.Operations

/-!
A background task and the run that executes it, over every run of the store.

Two statements hold as long as the store keeps to the protocol: a running task
names a run that has not ended, and a task has at most one such run.  The code
leaves the protocol in one place for each.  A rejected or expired interaction
ends a background run without its task, and an old run of a task can be resumed
while the task already runs under a newer one.
-/

namespace DomainryAgent

open Lib Table Protocol Refinement

variable {s : Db}

variable {may : Db → Op → Prop}

/-! ### A running task names an open run -/

/-- **No abandoned task.**  Unless a rejection or an expiry ends a background
run, every running task names a run that exists and has not ended. -/
theorem running_task_names_open_run
    (reached : ReachableBy (fun u op => ¬Raises u op .abandonTask) s) :
    ∀ task ∈ s.tasks.rows, task.status = .running →
      ∃ r row, task.executionRunID = some r ∧ s.runs.get? r = some row ∧
        row.run.status.terminal = false := by
  have names := reached.invariant (P := fun c => NamesOpenRun c.runs c.tasks)
    (fun _ _ => fun _ _ named => nomatch named)
    fun _ _ _ kept _ _ step routed _ inv => step.namesOpenRun kept routed inv
  exact fun task member running => names task.id task (get?_of_mem member) running

/-! The failing run: a scheduled task waits for the confirmation of a write, and
the user rejects it. -/

def sampleUser : Authority :=
  { runtimeID := 1, workspaceID := 1, userID := 1, roleKey := 1, known := true }

def sampleBrief : Brief :=
  { version := 1, goal := "report", deliverable := "text", audience := "team"
    constraints := some [], completionConditions := some ["complete"], verificationRules := []
    assumptions := some [], dueAt := none }

def sampleStart : TaskStart :=
  { taskID := 10, requestHash := 10, goal := "report", brief := sampleBrief, conversationID := 1
    sourceRunID := none, agent := none, budget := ⟨8, 8⟩, completionMode := .assessed
    followUp := false }

def sampleClaim : Claim :=
  { authority := sampleUser, conversationID := 1, runID := 20, owner := 7, fence := 1 }

/-- A host tool that writes and is reconciled after an interruption. -/
def sampleTool : ToolDefinition :=
  { key := 5, version := 1, effect := .write, idempotency := .reconcile, kind := .host
    maxOutputBytes := 100 }

/-- A task is accepted. -/
def scheduledTask : List Op :=
  [.createConversation 1 none sampleUser, .acceptScheduledTask sampleStart sampleUser]

/-- A task is accepted, launched and claimed. -/
def launchedTask : List Op :=
  [.createConversation 1 none sampleUser, .acceptScheduledTask sampleStart sampleUser,
    .launchTask 1 20, .claim 1 7 1000 []]

/-- Its first step calls a tool. -/
def calledTool : List Op :=
  [.executionStep sampleClaim 0
      { tools := [sampleTool], maxToolCalls := 4, maxParallelTools := 0, payload := 0 },
    .completeExecutionStep sampleClaim 0
      { finishReason := .toolCalls, content := "", calls := [⟨30, 5, 0, 0⟩], usage := ⟨none, none, []⟩ }]

def rejectedConfirmation : List Op :=
  launchedTask ++ calledTool ++
    [.waitExecution sampleClaim ⟨0, 30, .confirmation, 40, 0⟩,
      .respondExecution 1 20 ⟨50, 40, 1, .reject, ""⟩ sampleUser]

/-- The store after some operations on an empty one. -/
def afterOps (ops : List Op) : Db := runActions Db.step (Db.initial 0 none) ops

variable {ops : List Op}

theorem reachableBy_afterOps (free : ∀ op ∈ ops, ∀ u, may u op) : ReachableBy may (afterOps ops) :=
  ⟨0, none, Reaches.start.runActions ops free⟩

theorem reachable_afterOps (ops : List Op) : Reachable (afterOps ops) :=
  reachableBy_afterOps (fun _ _ _ => trivial)

/-- Operations that do not run into a hazard, whatever they find. -/
theorem follows_afterOps {hazard : Hazard} (safe : ∀ op ∈ ops, mayRaise hazard op = false) :
    ReachableBy (fun u op => ¬Raises u op hazard) (afterOps ops) := by
  refine reachableBy_afterOps fun op member u raises => ?_
  have may := raises.mayRaise
  rw [safe op member] at may
  cases may

/-- The launched task is running, and so is its run. -/
theorem launched_task_names_open_run :
    (∃ task ∈ (afterOps launchedTask).tasks.rows, task.status = .running) ∧
      ∀ task ∈ (afterOps launchedTask).tasks.rows, task.status = .running →
        ∃ r row, task.executionRunID = some r ∧ (afterOps launchedTask).runs.get? r = some row ∧
          row.run.status.terminal = false :=
  ⟨by decide +kernel, running_task_names_open_run (follows_afterOps (by decide))⟩

/-- A rejected confirmation leaves a running task under a run that has ended. -/
theorem rejected_confirmation_abandons_task :
    ∃ s, Reachable s ∧ ∃ task row, s.tasks.get? 10 = some task ∧ task.status = .running ∧
      task.executionRunID = some 20 ∧ s.runs.get? 20 = some row ∧
      row.run.status.terminal = true := by
  refine ⟨_, reachable_afterOps rejectedConfirmation, ?_⟩
  simp only [exists_and_left]
  decide +kernel

/-! ### One executor per task -/

/-- The run executes the task. -/
def Carries (row : RunRow) (t : Id) : Prop := ∃ b, row.run.background = some b ∧ b.taskID = t

/-- **Single executor.**  Unless a run is resumed while its task runs under
another one, an open run of a task is the one the task names, and the task has
no other. -/
theorem task_has_one_executor
    (reached : ReachableBy (fun u op => ¬Raises u op .strayResume) s) :
    ∀ task ∈ s.tasks.rows, ∀ row ∈ s.runs.rows, Carries row task.id →
      row.run.status.terminal = false →
      task.executionRunID = some row.run.id ∧
        ∀ row' ∈ s.runs.rows, Carries row' task.id → row'.run.status.terminal = false →
          row' = row := by
  have exclusive := reached.invariant (P := fun c => Exclusive c.runs c.tasks)
    (fun _ _ => fun _ _ _ there => nomatch there)
    fun _ _ _ kept _ _ step routed _ inv => step.exclusive kept routed inv
  intro task member
  -- An open run that carries the task is the one the task names.
  have named : ∀ row ∈ s.runs.rows, Carries row task.id → row.run.status.terminal = false →
      task.executionRunID = some row.run.id := by
    rintro row there ⟨b, background, carries⟩ isOpen
    obtain ⟨task', at_task, _, executes⟩ :=
      exclusive row.run.id row b (get?_of_mem there) background isOpen
    rw [carries, get?_of_mem member] at at_task
    cases at_task
    exact executes
  intro row there carries isOpen
  refine ⟨named row there carries isOpen, fun row' there' carries' isOpen' => ?_⟩
  have same := (named row' there' carries' isOpen').symm.trans (named row there carries isOpen)
  have key : row'.key = row.key := Option.some.inj same
  have found := get?_of_mem there'
  rw [key, get?_of_mem there] at found
  exact (Option.some.inj found).symm

/-- The launched task and its run. -/
theorem launched_task_has_one_executor :
    ((afterOps launchedTask).runs.rows.any (fun row =>
      row.run.background.any (·.taskID = 10) && !row.run.status.terminal)) = true ∧
      ∀ task ∈ (afterOps launchedTask).tasks.rows, ∀ row ∈ (afterOps launchedTask).runs.rows,
        Carries row task.id → row.run.status.terminal = false →
        task.executionRunID = some row.run.id ∧
          ∀ row' ∈ (afterOps launchedTask).runs.rows, Carries row' task.id →
            row'.run.status.terminal = false → row' = row :=
  ⟨by decide +kernel, task_has_one_executor (follows_afterOps (by decide))⟩

/-! The failing run: the first run of a task fails, the task's agreement is
updated and launched again, and then the first run is resumed. -/

def resumedOldRun : List Op :=
  launchedTask ++
    [.finish sampleClaim "" "model_failed" true,
      .updateTaskAgreement 10 ⟨60, 1, "clearer", { sampleBrief with version := 2, goal := "memo" }⟩
        sampleUser,
      .resumeQueuedTask 10 sampleUser, .launchTask 1 21, .resume 1 20 sampleUser]

/-- After the resumption two runs of the task are open. -/
theorem resumed_old_run_executes_twice :
    ∃ s, Reachable s ∧ ∃ row row', s.runs.get? 20 = some row ∧ s.runs.get? 21 = some row' ∧
      Carries row 10 ∧ Carries row' 10 ∧ row.run.status.terminal = false ∧
      row'.run.status.terminal = false := by
  refine ⟨_, reachable_afterOps resumedOldRun, ?_⟩
  simp only [exists_and_left, Carries]
  decide +kernel

end DomainryAgent
