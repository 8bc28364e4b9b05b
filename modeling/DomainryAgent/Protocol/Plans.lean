import DomainryAgent.Protocol.Steps

/-!
The history of plans: a task's plan is stored, every stored version is the
first of its task or follows the one before it, and a task that is not written
back from an old copy has the last version.
-/

namespace DomainryAgent.Protocol

open Lib Table

variable {tasks : Table Task.id} {plans : Table PlanRow.key}

/-- The version a plan has, none counting as zero. -/
def planVersion (plan : Option Plan) : Nat := (plan.map (·.version)).getD 0

variable {old : Option Plan} {row : PlanRow} {task new : Task} {grown : Table PlanRow.key}
  {allowed : Hazard → Prop} {s t : Core} {k : Id × Nat}

theorem PlanNext.version {t : Id} (next : PlanNext t old row) :
    row.plan.version = planVersion old + 1 := by
  cases next with
  | update _ version _ _ => exact version
  | supersede => rfl
  | close closed =>
    unfold closedPlan at closed
    split at closed
    · cases closed; rfl
    · cases closed

theorem PlanNext.taskID {t : Id} (next : PlanNext t old row)
    (owner : ∀ plan, old = some plan → plan.taskID = t) : row.plan.taskID = t := by
  cases next with
  | update task _ _ _ => exact task
  | @supersede plan => exact owner plan rfl
  | @close plan _ _ _ closed =>
    unfold closedPlan at closed
    split at closed
    · cases closed; exact owner plan rfl
    · cases closed

structure PlanHistory (tasks : Table Task.id) (plans : Table PlanRow.key) : Prop where
  stored : ∀ {t task plan}, tasks.get? t = some task → task.plan = some plan →
    ∃ client, plans.get? (t, plan.version) = some ⟨plan, client⟩
  owned : ∀ {t v row}, plans.get? (t, v) = some row → ∃ task, tasks.get? t = some task
  next : ∀ {t v row}, plans.get? (t, v) = some row → v = 1 ∧ PlanNext t none row ∨
    ∃ u prev, v = u + 1 ∧ plans.get? (t, u) = some prev ∧ PlanNext t (some prev.plan) row

/-- A task has the last version of its plan. -/
def Current (tasks : Table Task.id) (plans : Table PlanRow.key) : Prop :=
  ∀ t task, tasks.get? t = some task → plans.get? (t, planVersion task.plan + 1) = none

theorem PlanHistory.empty : PlanHistory .empty .empty :=
  ⟨fun found => by simp at found, fun found => by simp at found, fun found => by simp at found⟩

theorem Current.empty : Current .empty .empty := fun _ _ found => by simp at found

/-- What a step does to the tasks and their plans. -/
inductive PlansStep (allowed : Hazard → Prop) (s : Core) :
    Table Task.id → Table PlanRow.key → Prop
  | same : PlansStep allowed s s.tasks s.plans
  | keep {task new : Task} (found : s.tasks.get? task.id = some task) (id : new.id = task.id)
      (plan : new.plan = task.plan) : PlansStep allowed s (s.tasks.put new) s.plans
  | write {task new : Task} {row : PlanRow} {grown : Table PlanRow.key}
      (found : s.tasks.get? task.id = some task) (id : new.id = task.id)
      (next : PlanNext task.id task.plan row) (inserted : s.plans.insert? row = some grown)
      (plan : new.plan = some row.plan) : PlansStep allowed s (s.tasks.put new) grown
  | insert {task : Task} {tasks : Table Task.id} (plan : task.plan = none)
      (inserted : s.tasks.insert? task = some tasks) : PlansStep allowed s tasks s.plans
  | repoint {task : Task} {row : PlanRow} (hazard : allowed .staleTask)
      (stored : s.plans.get? (task.id, row.plan.version) = some row) :
      PlansStep allowed s (s.tasks.put { task with plan := some row.plan }) s.plans

theorem PlansStep.put (found : s.tasks.get? task.id = some task) (id : new.id = task.id)
    (planned : PlanWrite task.id s.plans task.plan new.plan grown) :
    PlansStep allowed s (s.tasks.put new) grown := by
  generalize same : new.plan = plan at planned
  generalize had : task.plan = old at planned
  cases planned with
  | keep => exact .keep found id (same.trans had.symm)
  | write next inserted => exact .write found id (had ▸ next) inserted same

theorem Step.plansStep (step : Step allowed s t) : PlansStep allowed s t.tasks t.plans := by
  cases step with
  | move move =>
    cases move with
    | closeTask _ _ _ _ _ named _ _ _ planned => exact .put (get?_key named) rfl planned
    | reopenTask _ _ _ _ _ named _ _ => exact .keep (get?_key named) rfl rfl
    | launch found same _ _ plan => exact .keep found same.id plan
    | newTask _ _ plan _ _ inserted => exact .insert plan inserted
    | editTask found edit planned => exact .put found edit.same.id planned
    | submit found => exact .keep found rfl rfl
    | repoint hazard _ stored => exact .repoint hazard stored
    | planTask found next inserted => exact .write found rfl next inserted rfl
    | tick | openConversation | touchConversation | run | openRun | endRun | reopenRun
      | reopenRunning | steps | tools | messages | send | input | touchDelegation | openLedger
      | ledger => exact .same
  | resumeDelegation _ _ _ _ named _ same plan => exact .keep named same.id plan
  | admitDelegation _ _ plan _ insertedTask _ | transferDelegation _ _ _ _ plan _ insertedTask =>
    exact .insert plan insertedTask
  | amendDelegation | snapshot => exact .same

namespace PlanHistory

section

variable (inv : PlanHistory tasks plans)

include inv

/-- The key a task's next version is stored under. -/
theorem next_key (found : tasks.get? task.id = some task)
    (next : PlanNext task.id task.plan row) : row.key = (task.id, planVersion task.plan + 1) := by
  have owner : ∀ plan, task.plan = some plan → plan.taskID = task.id := by
    intro plan has
    obtain ⟨client, stored⟩ := inv.stored found has
    have key : PlanRow.key ⟨plan, client⟩ = (task.id, plan.version) := key_of_get? stored
    exact (Prod.mk.inj key).1
  exact Prod.ext (next.taskID owner) next.version

/-- Storing the next version of a task's plan. -/
theorem write
    (found : tasks.get? task.id = some task)
    (id : new.id = task.id) (next : PlanNext task.id task.plan row)
    (inserted : plans.insert? row = some grown) (plan : new.plan = some row.plan) :
    PlanHistory (tasks.put new) grown := by
  have key : row.key = (task.id, planVersion task.plan + 1) := inv.next_key found next
  constructor
  · intro t other p there has
    rcases get?_put_some there with ⟨rfl, rfl, _⟩ | ⟨_, there⟩
    · rw [plan] at has
      cases has
      have same : (other.id, row.plan.version) = row.key := by rw [id, key, next.version]
      exact ⟨row.client, same ▸ get?_insert?_self inserted⟩
    · obtain ⟨client, stored⟩ := inv.stored there has
      exact ⟨client, get?_insert?_of_some inserted stored⟩
  · intro t v other there
    have owned : ∃ old, tasks.get? t = some old := by
      rcases get?_insert?_some inserted there with ⟨same, _⟩ | ⟨_, there⟩
      · rw [key] at same
        exact ⟨task, (Prod.mk.inj same).1 ▸ found⟩
      · exact inv.owned there
    obtain ⟨old, at_t⟩ := owned
    exact exists_get?_put at_t
  · intro t v other there
    rcases get?_insert?_some inserted there with ⟨same, rfl⟩ | ⟨_, there⟩
    · rw [key] at same
      cases same
      cases had : task.plan with
      | none => exact .inl ⟨by simp [planVersion], had ▸ next⟩
      | some p =>
        obtain ⟨client, stored⟩ := inv.stored found had
        exact .inr ⟨p.version, ⟨p, client⟩, by simp [planVersion],
          get?_insert?_of_some inserted stored, had ▸ next⟩
    · exact (inv.next there).imp_right fun ⟨u, prev, eq, before, follows⟩ =>
        ⟨u, prev, eq, get?_insert?_of_some inserted before, follows⟩

/-- Writing a task whose plan, if any, is one of the stored versions. -/
theorem write_task {grown : Table Task.id} (written : Written tasks new grown)
    (stored : ∀ plan, new.plan = some plan →
      ∃ client, plans.get? (new.id, plan.version) = some ⟨plan, client⟩) :
    PlanHistory grown plans := by
  refine ⟨?_, ?_, inv.next⟩
  · intro t other p there has
    rcases written.cases there with ⟨rfl, rfl⟩ | ⟨_, there⟩
    · exact stored p has
    · exact inv.stored there has
  · intro t v row there
    obtain ⟨old, at_t⟩ := inv.owned there
    by_cases here : t = new.id
    · exact ⟨new, here ▸ written.self⟩
    · exact ⟨old, (written.rest here).trans at_t⟩

end

end PlanHistory

theorem Step.planHistory (step : Step allowed s t) (inv : PlanHistory s.tasks s.plans) :
    PlanHistory t.tasks t.plans := by
  have change := step.plansStep
  generalize t.tasks = tasks, t.plans = plans at change ⊢
  cases change with
  | same => exact inv
  | keep found id plan =>
    refine inv.write_task (written_put found id) fun _ has => ?_
    rw [id]
    exact inv.stored found (plan ▸ has)
  | write found id next inserted plan => exact inv.write found id next inserted plan
  | insert plan inserted =>
    exact inv.write_task (written_insert? inserted) fun _ has => nomatch plan.symm.trans has
  | repoint _ stored =>
    obtain ⟨_, owner⟩ := inv.owned stored
    refine inv.write_task (written_put (get?_key owner) (key_of_get? owner).symm) ?_
    rintro _ ⟨⟩
    exact ⟨_, stored⟩

theorem Steps.planHistory (steps : Steps allowed s t) (inv : PlanHistory s.tasks s.plans) :
    PlanHistory t.tasks t.plans := by
  induction steps with
  | refl => exact inv
  | tail _ step ih => exact step.planHistory ih

/-! ### Stored versions stay -/

theorem Step.plans_kept (step : Step allowed s t) (found : s.plans.get? k = some row) :
    t.plans.get? k = some row := by
  have change := step.plansStep
  generalize t.tasks = tasks, t.plans = plans at change ⊢
  cases change with
  | write _ _ _ inserted => exact get?_insert?_of_some inserted found
  | same | keep | insert | repoint => exact found

theorem Steps.plans_kept (steps : Steps allowed s t) (found : s.plans.get? k = some row) :
    t.plans.get? k = some row := by
  induction steps with
  | refl => exact found
  | tail _ step ih => exact step.plans_kept ih

/-! ### The last version -/

namespace Current

theorem write (inv : Current tasks plans) (history : PlanHistory tasks plans)
    (found : tasks.get? task.id = some task) (id : new.id = task.id)
    (next : PlanNext task.id task.plan row) (inserted : plans.insert? row = some grown)
    (plan : new.plan = some row.plan) : Current (tasks.put new) grown := by
  have key : row.key = (task.id, planVersion task.plan + 1) := history.next_key found next
  have free := inv task.id task found
  intro t other there
  rcases get?_put_some there with ⟨rfl, rfl, _⟩ | ⟨elsewhere, there⟩
  · -- A version beyond the new one would follow the one that was free.
    have version : planVersion other.plan = planVersion task.plan + 1 := by
      rw [plan]
      exact next.version
    rw [version, id]
    by_contra taken
    obtain ⟨beyond, at_beyond⟩ := Option.ne_none_iff_exists'.mp taken
    rcases get?_insert?_some inserted at_beyond with ⟨same, _⟩ | ⟨_, before⟩
    · rw [key] at same
      simp at same
    · rcases history.next before with ⟨first, _⟩ | ⟨u, prev, eq, at_prev, _⟩
      · omega
      · obtain rfl : u = planVersion task.plan + 1 := by omega
        rw [free] at at_prev
        cases at_prev
  · rw [(get?_insert? inserted).2, if_neg]
    · exact inv t other there
    · rw [key]
      intro same
      exact elsewhere ((Prod.mk.inj same).1.trans id.symm)

theorem keep_plan (inv : Current tasks plans) (found : tasks.get? task.id = some task)
    (id : new.id = task.id) (plan : new.plan = task.plan) : Current (tasks.put new) plans := by
  intro t other there
  rcases get?_put_some there with ⟨rfl, rfl, _⟩ | ⟨_, there⟩
  · rw [plan, id]
    exact inv task.id task found
  · exact inv t other there

theorem insert_task {grown : Table Task.id} (inv : Current tasks plans)
    (history : PlanHistory tasks plans) (plan : task.plan = none)
    (inserted : tasks.insert? task = some grown) : Current grown plans := by
  intro t other there
  rcases get?_insert?_some inserted there with ⟨rfl, rfl⟩ | ⟨_, there⟩
  · rw [plan]
    by_contra taken
    obtain ⟨row, at_row⟩ := Option.ne_none_iff_exists'.mp taken
    obtain ⟨old, at_old⟩ := history.owned at_row
    rw [(get?_insert? inserted).1] at at_old
    cases at_old
  · exact inv t other there

end Current

/-- No step but the writing back of an old copy leaves a task behind its plan. -/
theorem Step.current (kept : ¬allowed .staleTask) (step : Step allowed s t)
    (history : PlanHistory s.tasks s.plans) (inv : Current s.tasks s.plans) :
    Current t.tasks t.plans := by
  have change := step.plansStep
  generalize t.tasks = tasks, t.plans = plans at change ⊢
  cases change with
  | same => exact inv
  | keep found id plan => exact inv.keep_plan found id plan
  | write found id next inserted plan => exact inv.write history found id next inserted plan
  | insert plan inserted => exact inv.insert_task history plan inserted
  | repoint hazard => exact absurd hazard kept

end Protocol

abbrev Core.PlanHistory (s : Core) : Prop := Protocol.PlanHistory s.tasks s.plans

end DomainryAgent
