import DomainryAgent.Lib.Totals
import DomainryAgent.Protocol.Leases

/-!
The execution quotas of a user and of a workspace, and the leases of an agent.

A quota partition is a scope of authorities that does not tell those of one
principal apart.  Its queued load is the queued runs and the queued tasks
together, so that a launch, which makes a queued run of a queued task, leaves
it.  A step adds one to a load at most, and then only where the check of that
load passed (`Step.queued_grows`, `Step.running_grows`).  The live leases of an
agent go up by a claim only (`Step.agentLoad_le`): time and the end of a run
take them away, and a heartbeat extends one that is live.
-/

namespace DomainryAgent.Protocol

open Lib

variable {allowed : Hazard → Prop} {s t : Core}

/-- A quota partition does not tell the authorities of a principal apart. -/
def Scope (scope : Authority → Bool) : Prop :=
  ∀ a b, conversationOwner a = conversationOwner b → scope a = scope b

/-- The partition of a user. -/
def ofUser (user : OwnerKey) (a : Authority) : Bool := decide (conversationOwner a = user)

/-- The partition of a workspace. -/
def ofWorkspace (workspace : Id × Id) (a : Authority) : Bool := decide (workspaceKey a = workspace)

theorem scope_ofUser (user : OwnerKey) : Scope (ofUser user) := by
  intro a b principal
  rw [ofUser, ofUser, principal]

theorem scope_ofWorkspace (workspace : Id × Id) : Scope (ofWorkspace workspace) := by
  intro a b principal
  rw [ofWorkspace, ofWorkspace, workspaceKey_of_principal principal]

/-- What waits in a partition: a task that is queued counts with the runs. -/
def queuedIn (s : Core) (scope : Authority → Bool) : Nat :=
  runsIn s scope .queued + queuedTasksIn s scope

/-- Some authority of the partition passes the queue check. -/
def QueueOpen (s : Core) (scope : Authority → Bool) : Prop := ∃ a, scope a = true ∧ QueueRoom s a

/-- Some authority of the partition passes the running check. -/
def RunningOpen (s : Core) (scope : Authority → Bool) : Prop :=
  ∃ a, scope a = true ∧ checkConversationRunningCapacity s a = none

theorem Step.limits (step : Step allowed s t) : t.limits = s.limits := by
  cases step with
  | move move => cases move <;> rfl
  | amendDelegation | resumeDelegation | admitDelegation | transferDelegation | snapshot => rfl

variable {old new : RunRow} {limits : ExecutionLimits}

variable {runs : Table RunRow.key}

section Partition

variable {scope : Authority → Bool}

/-! ### Runs -/

/-- A run gets back into the queue only past the check. -/
theorem RunMove.queues (move : RunMove allowed s old new) (queued : new.run.status = .queued) :
    old.run.status = .queued ∨ QueueRoom s old.authority := by
  cases move with
  | touch status => exact .inl (status ▸ queued)
  | extend _ _ status | lease _ status => rw [status] at queued; cases queued
  | free _ _ _ _ room => exact .inr (room queued)
  | finish _ _ status =>
    rcases status with status | status <;> rw [status] at queued <;> cases queued

/-- A run starts to run only past the check, or in the place of another worker. -/
theorem RunMove.starts (move : RunMove allowed s old new) (running : new.run.status = .running) :
    old.run.status = .running ∨
      checkConversationRunningCapacity s old.authority = none := by
  cases move with
  | touch status => exact .inl (status ▸ running)
  | extend was => exact .inl was
  | lease idle _ _ _ room =>
    rcases idle with queued | ⟨was, _⟩
    · exact .inr (room queued).1
    · exact .inl was
  | free status => exact absurd running status
  | finish _ _ status =>
    rcases status with status | status <;> rw [status] at running <;> cases running

/-- A status that is entered only past a check. -/
theorem runsIn_put_grows {status : RunStatus} {room : Authority → Prop} (fair : Scope scope)
    (found : s.runs.get? old.run.id = some old) (same : SameRun old new)
    (enters : new.run.status = status → old.run.status = status ∨ room old.authority) :
    Table.Grows (runsIn s scope status) (runsIn { s with runs := s.runs.put new } scope status)
      (∃ a, scope a = true ∧ room a) := by
  have there : s.runs.get? new.run.id = some old := same.id ▸ found
  refine Table.countP_put_grows there fun holds => ?_
  simp only [Bool.and_eq_true, beq_iff_eq] at holds ⊢
  have inside : scope old.authority = true := (fair _ _ same.principal).symm.trans holds.1
  exact (enters holds.2).imp (fun was => ⟨inside, was⟩) fun room => ⟨_, inside, room⟩

theorem RunMove.queued_grows (fair : Scope scope) (found : s.runs.get? old.run.id = some old)
    (same : SameRun old new) (move : RunMove allowed s old new) :
    Table.Grows (runsIn s scope .queued) (runsIn { s with runs := s.runs.put new } scope .queued)
      (QueueOpen s scope) :=
  runsIn_put_grows fair found same move.queues

theorem RunsStep.running_grows (fair : Scope scope) (step : RunsStep allowed s runs) :
    Table.Grows (runsIn s scope .running) (runsIn { s with runs := runs } scope .running)
      (RunningOpen s scope) := by
  cases step with
  | same => exact .inl le_rfl
  | move found same move => exact runsIn_put_grows fair found same move.starts
  | opened fresh inserted =>
    refine Table.countP_insert?_grows inserted fun enters => ?_
    simp only [Bool.and_eq_true, beq_iff_eq, fresh.status] at enters
    exact nomatch enters.2

/-! ### Tasks -/

/-- A task gets into the queue only if it was there, or with room. -/
theorem queuedTasksIn_put {old new : Task} (found : s.tasks.get? old.id = some old)
    (same : SameTask old new)
    (enters : new.status = .queued → old.status = .queued ∨ QueueRoom s old.authority) :
    Table.Grows (queuedTasksIn s scope) (queuedTasksIn { s with tasks := s.tasks.put new } scope)
      (QueueOpen s scope) := by
  have there : s.tasks.get? new.id = some old := same.id ▸ found
  refine Table.countP_put_grows there fun holds => ?_
  simp only [Bool.and_eq_true, beq_iff_eq, same.authority] at holds ⊢
  exact (enters holds.2).imp (fun was => ⟨holds.1, was⟩) fun room => ⟨_, holds.1, room⟩

/-- A task that is not put into the queue. -/
theorem queuedTasksIn_put_le {old new : Task} (found : s.tasks.get? old.id = some old)
    (id : new.id = old.id) (authority : new.authority = old.authority)
    (stays : new.status = .queued → old.status = .queued) :
    queuedTasksIn { s with tasks := s.tasks.put new } scope ≤ queuedTasksIn s scope := by
  have there : s.tasks.get? new.id = some old := id ▸ found
  refine Table.countP_put_le there fun holds => ?_
  simp only [Bool.and_eq_true, beq_iff_eq, authority] at holds ⊢
  exact ⟨holds.1, stays holds.2⟩

variable {task : Task}

theorem queuedTasksIn_insert {grown : Table Task.id} (inserted : s.tasks.insert? task = some grown)
    (room : QueueRoom s task.authority) :
    Table.Grows (queuedTasksIn s scope) (queuedTasksIn { s with tasks := grown } scope)
      (QueueOpen s scope) := by
  refine Table.countP_insert?_grows inserted fun enters => ?_
  exact ⟨task.authority, (Bool.and_eq_true_iff.mp enters).1, room⟩

/-! ### Launches -/

/-- A launch makes a queued run of a queued task, or has room for one more. -/
theorem launch_queued_grows {next : Task} {row : RunRow} {b : TaskExecution}
    {grown : Table RunRow.key} (fair : Scope scope) (found : s.tasks.get? task.id = some task)
    (same : SameTask task next) (running : next.status = .running) (executes : Executes row b task)
    (fresh : FreshRun row) (inserted : s.runs.insert? row = some grown)
    (room : task.status = .queued ∨ QueueRoom s task.authority) : Table.Grows (queuedIn s scope)
      (queuedIn { s with runs := grown, tasks := s.tasks.put next } scope) (QueueOpen s scope) := by
  have there : s.tasks.get? next.id = some task := same.id ▸ found
  have principal : scope row.authority = scope task.authority := fair _ _ executes.principal
  have entered : runsIn { s with runs := grown } scope .queued =
      runsIn s scope .queued + (scope task.authority).toNat := by
    have inserted := Table.countP_insert?
      (fun row => scope row.authority && row.run.status == .queued) inserted
    simpa only [runsIn, fresh.status, beq_self_eq_true, Bool.and_true, principal] using inserted
  have left : queuedTasksIn { s with tasks := s.tasks.put next } scope +
      (scope task.authority && task.status == .queued).toNat = queuedTasksIn s scope := by
    have exchanged := Table.countP_put
      (fun task => scope task.authority && task.status == .queued) there
    have out : (next.status == TaskStatus.queued) = false := by rw [running]; rfl
    simpa only [queuedTasksIn, out, Bool.and_false, Bool.toNat_false, Nat.add_zero] using exchanged
  show Table.Grows (runsIn s scope .queued + queuedTasksIn s scope)
    (runsIn { s with runs := grown } scope .queued +
      queuedTasksIn { s with tasks := s.tasks.put next } scope) (QueueOpen s scope)
  rcases room with queued | room
  · -- The task leaves the queue as the run enters it.
    rw [queued, beq_self_eq_true, Bool.and_true] at left
    exact .inl (by omega)
  · cases inside : scope task.authority with
    | false =>
      rw [inside, Bool.toNat_false] at entered
      exact .inl (by omega)
    | true =>
      rw [inside, Bool.toNat_true] at entered
      exact .inr ⟨by omega, task.authority, inside, room⟩

/-! ### Steps -/

theorem Move.queued_grows (fair : Scope scope) (move : Move allowed s t) :
    Table.Grows (queuedIn s scope) (queuedIn t scope) (QueueOpen s scope) := by
  cases move with
  | run found same move | endRun found same move | reopenRun found same move
    | reopenRunning found same move => exact (move.queued_grows fair found same).add le_rfl
  | openRun fresh _ inserted _ room =>
    refine Table.Grows.add (Table.countP_insert?_grows inserted fun enters => ?_) le_rfl
    exact ⟨_, (Bool.and_eq_true_iff.mp enters).1, room⟩
  | @closeTask _ _ _ _ status _ _ _ _ _ _ found same move _ _ named _ _ ends =>
    refine (move.queued_grows fair found same).add ?_
    refine queuedTasksIn_put_le (Table.get?_key named) rfl rfl fun queued => ?_
    obtain rfl : status = .queued := queued
    cases ends
  | reopenTask found same move _ _ named =>
    refine (move.queued_grows fair found same).add ?_
    exact queuedTasksIn_put_le (Table.get?_key named) rfl rfl nofun
  | launch found same running _ _ _ _ _ _ executes _ fresh inserted room =>
    exact launch_queued_grows fair found same running executes fresh inserted room
  | newTask _ _ _ _ _ inserted room => exact (queuedTasksIn_insert inserted room).beside _
  | editTask found edit _ room => exact (queuedTasksIn_put found edit.same room).beside _
  | @submit task row _ found =>
    have same : SameTask task { task with completion := some row.completion } :=
      ⟨rfl, rfl, rfl, rfl, rfl, rfl⟩
    exact (queuedTasksIn_put found same .inl).beside _
  | @repoint task row _ found | @planTask task row _ found =>
    have same : SameTask task { task with plan := some row.plan } := ⟨rfl, rfl, rfl, rfl, rfl, rfl⟩
    exact (queuedTasksIn_put found same .inl).beside _
  | tick | openConversation | touchConversation | steps | tools | messages | send | input
    | touchDelegation | openLedger | ledger => exact .inl le_rfl

theorem Step.queued_grows (fair : Scope scope) (step : Step allowed s t) :
    Table.Grows (queuedIn s scope) (queuedIn t scope) (QueueOpen s scope) := by
  cases step with
  | move move => exact move.queued_grows fair
  | resumeDelegation _ _ _ _ named _ sameTask _ _ _ _ _ _ _ room =>
    exact (queuedTasksIn_put named sameTask fun _ => .inr room).beside _
  | admitDelegation _ _ _ _ inserted _ room | transferDelegation _ _ _ _ _ _ inserted room =>
    exact (queuedTasksIn_insert inserted room).beside _
  | amendDelegation | snapshot => exact .inl le_rfl

theorem Step.running_grows (fair : Scope scope) (step : Step allowed s t) :
    Table.Grows (runsIn s scope .running) (runsIn t scope .running) (RunningOpen s scope) :=
  step.runs.running_grows fair

end Partition

/-! ### The quotas -/

/-- Every user and every workspace is within the limits. -/
structure Within (s : Core) (limits : ExecutionLimits) : Prop where
  userQueued (user : OwnerKey) : queuedIn s (ofUser user) ≤ limits.maxQueuedPerUser
  workspaceQueued (workspace : Id × Id) :
    queuedIn s (ofWorkspace workspace) ≤ limits.maxQueuedPerWorkspace
  userRunning (user : OwnerKey) : runsIn s (ofUser user) .running ≤ limits.maxRunningPerUser
  workspaceRunning (workspace : Id × Id) :
    runsIn s (ofWorkspace workspace) .running ≤ limits.maxRunningPerWorkspace

theorem Within.empty {s : Core} (runs : s.runs = .empty) (tasks : s.tasks = .empty) :
    Within s limits := by
  constructor <;> intro _ <;> simp [queuedIn, runsIn, queuedTasksIn, runs, tasks, Table.empty]

/-- What the queue check leaves room for. -/
theorem QueueOpen.below (configured : s.limits = some limits) :
    (∀ user, QueueOpen s (ofUser user) → queuedIn s (ofUser user) < limits.maxQueuedPerUser) ∧
      ∀ workspace, QueueOpen s (ofWorkspace workspace) →
        queuedIn s (ofWorkspace workspace) < limits.maxQueuedPerWorkspace := by
  constructor
  · rintro user ⟨a, inside, room⟩
    obtain rfl := of_decide_eq_true inside
    exact (room limits configured).1
  · rintro workspace ⟨a, inside, room⟩
    obtain rfl := of_decide_eq_true inside
    exact (room limits configured).2

/-- What the running check leaves room for. -/
theorem RunningOpen.below (configured : s.limits = some limits) :
    (∀ user, RunningOpen s (ofUser user) →
      runsIn s (ofUser user) .running < limits.maxRunningPerUser) ∧
      ∀ workspace, RunningOpen s (ofWorkspace workspace) →
        runsIn s (ofWorkspace workspace) .running < limits.maxRunningPerWorkspace := by
  have both (a : Authority) (passed : checkConversationRunningCapacity s a = none) :
      runsIn s (ofUser (conversationOwner a)) .running < limits.maxRunningPerUser ∧
        runsIn s (ofWorkspace (workspaceKey a)) .running < limits.maxRunningPerWorkspace := by
    simp only [checkConversationRunningCapacity, configured] at passed
    split at passed
    · cases passed
    · next user =>
      split at passed
      · cases passed
      · next workspace => exact ⟨not_le.mp user, not_le.mp workspace⟩
  constructor
  · rintro user ⟨a, inside, passed⟩
    obtain rfl := of_decide_eq_true inside
    exact (both a passed).1
  · rintro workspace ⟨a, inside, passed⟩
    obtain rfl := of_decide_eq_true inside
    exact (both a passed).2

theorem Step.within (step : Step allowed s t) (configured : s.limits = some limits)
    (within : Within s limits) : Within t limits where
  userQueued user := (step.queued_grows (scope_ofUser user)).within (within.userQueued user)
    ((QueueOpen.below configured).1 user)
  workspaceQueued workspace := (step.queued_grows (scope_ofWorkspace workspace)).within
    (within.workspaceQueued workspace) ((QueueOpen.below configured).2 workspace)
  userRunning user := (step.running_grows (scope_ofUser user)).within (within.userRunning user)
    ((RunningOpen.below configured).1 user)
  workspaceRunning workspace := (step.running_grows (scope_ofWorkspace workspace)).within
    (within.workspaceRunning workspace) ((RunningOpen.below configured).2 workspace)

/-! ### The leases of an agent -/

/-- A run of an agent in a workspace that holds a live lease. -/
def leasedTo (workspace : Id × Id) (agentID : Id) (now : Time) (row : RunRow) : Bool :=
  decide (workspaceKey row.authority = workspace ∧ row.run.status = .running ∧ now < row.expires ∧
    row.run.agent.any (·.id = agentID))

/-- The live leases of an agent in a workspace. -/
def agentLoad (workspace : Id × Id) (agentID : Id) (s : Core) : Nat :=
  s.runs.rows.countP (leasedTo workspace agentID s.now)

/-- The check counts the leases of the workspace, the caller's among them. -/
theorem agentLeases_eq (s : Core) (a : Authority) (agentID : Id) :
    agentLeases s a agentID = agentLoad (workspaceKey a) agentID s := by
  refine List.countP_congr fun row _ => ?_
  have inside : (conversationOwner row.authority = conversationOwner a ∨
      workspaceKey row.authority = workspaceKey a) ↔
        workspaceKey row.authority = workspaceKey a :=
    or_iff_right_of_imp workspaceKey_of_principal
  simp only [leasedTo, inside]

section Agent

variable {workspace : Id × Id} {agentID : Id}

/-- Nobody but a claim gives a run a live lease. -/
theorem RunMove.leasedTo_of (move : RunMove allowed s old new) (same : SameRun old new)
    (unclaimed : ∀ agents, ¬allowed (.claims agents))
    (leased : leasedTo workspace agentID s.now new = true) :
    leasedTo workspace agentID s.now old = true := by
  simp only [leasedTo, decide_eq_true_eq, same.agent, workspaceKey_of_principal same.principal]
    at leased ⊢
  obtain ⟨inside, running, live, agent⟩ := leased
  cases move with
  | touch status _ _ expires => exact ⟨inside, status ▸ running, expires ▸ live, agent⟩
  | extend was unexpired => exact ⟨inside, was, unexpired, agent⟩
  | lease _ _ _ claims => exact absurd claims (unclaimed _)
  | free status => exact absurd running status
  | finish _ _ status =>
    rcases status with status | status <;> rw [status] at running <;> cases running

theorem RunsStep.agentLoad_le (step : RunsStep allowed s runs)
    (unclaimed : ∀ agents, ¬allowed (.claims agents)) :
    runs.rows.countP (leasedTo workspace agentID s.now) ≤ agentLoad workspace agentID s := by
  cases step with
  | same => exact le_rfl
  | @move old new found same move =>
    have there : s.runs.get? new.run.id = some old := same.id ▸ found
    exact Table.countP_put_le there (move.leasedTo_of same unclaimed)
  | @opened row grown fresh inserted =>
    have out : leasedTo workspace agentID s.now row = false := by
      simp [leasedTo, fresh.status]
    have added := Table.countP_insert? (leasedTo workspace agentID s.now) inserted
    rw [out] at added
    exact added.le

theorem Step.agentLoad_le (step : Step allowed s t)
    (unclaimed : ∀ agents, ¬allowed (.claims agents)) :
    agentLoad workspace agentID t ≤ agentLoad workspace agentID s := by
  rcases step.clock with same | ⟨runs, later⟩
  · rw [agentLoad, same]
    exact step.runs.agentLoad_le unclaimed
  · rw [agentLoad, agentLoad, runs]
    refine List.countP_mono_left fun row _ leased => ?_
    simp only [leasedTo, decide_eq_true_eq] at leased ⊢
    obtain ⟨inside, running, live, agent⟩ := leased
    exact ⟨inside, running, lt_of_le_of_lt later live, agent⟩

end Agent

end DomainryAgent.Protocol
