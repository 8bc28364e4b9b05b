import DomainryAgent.Protocol.PlanRules
import DomainryAgent.Briefs

/-!
The plans of background tasks, over every run of the store.

Stored versions never change, keep the rules of a plan and carry completed
steps along.  They are numbered without gaps up to the task's own one as long as
no control writes back a task whose plan was closed in between; there the code
falls behind its own history and then fails over it.
-/

namespace DomainryAgent

open Lib Protocol Refinement

variable {s t : Db}

/-! ### Completed steps -/

/-- **Completed steps are immutable.**  A step that some stored version has as
completed is in every later version, whenever that is stored, with every field
as it was, and no other step of that version has its id. -/
theorem completed_steps_immutable (reached : Reachable s) (leads : LeadsTo s t) {task : Id}
    {v w : Nat} {row later : PlanRow} (stored : s.plans.get? (task, v) = some row)
    (after : t.plans.get? (task, w) = some later) (order : v ≤ w) {step : PlanStep}
    (member : step ∈ row.plan.steps) (completed : step.status = .completed) :
    step ∈ later.plan.steps ∧ ∀ next ∈ later.plan.steps, next.id = step.id → next = step := by
  obtain ⟨wf, kept⟩ := leads.keeps (P := fun c => c.plans.get? (task, v) = some row)
    reached.wellFormed (fun step found => step.plans_kept found) stored
  have history := wf.history
  have there := history.completed kept after order member completed
  refine ⟨there, fun next member' same => ?_⟩
  have unique := (history.rules after).unique
  have found := stepByID_of_mem unique member'
  rw [same, stepByID_of_mem unique there] at found
  exact (Option.some.inj found).symm

/-! ### The rules of a stored plan -/

/-- **Stored plans keep their rules.**  Whoever wrote it, a stored version has
unique step ids, dependencies that exist and form no cycle, at most one step in
progress, and that one depends on completed or skipped steps only.  A completed
step depends on completed, skipped or reviewed ones; a version that
`plan_update` wrote satisfies the whole check. -/
theorem stored_plans_keep_rules (reached : Reachable s) {task : Id} {v : Nat} {row : PlanRow}
    (stored : s.plans.get? (task, v) = some row) :
    PlanRules row.plan.steps ∧
      ∀ client, row.client = .update client → validStoredConversationPlan row.plan = true := by
  have history := reached.wellFormed.history
  refine ⟨history.rules stored, fun client updated => ?_⟩
  have valid : ∀ old, PlanNext task old row → validStoredConversationPlan row.plan = true := by
    intro old next
    cases next with
    | update _ _ valid _ => exact valid
    | supersede | close => cases updated
  rcases history.next stored with ⟨_, next⟩ | ⟨_, _, _, _, next⟩
  · exact valid _ next
  · exact valid _ next

/-! The failing rule: a completed step above a skipped one, and an agreement
whose goal changes. -/

def planTool : ToolDefinition :=
  { key := 6, version := 1, effect := .write, idempotency := .key, kind := .planUpdate
    maxOutputBytes := 100 }

def samplePlanStep (id : Id) (status : PlanStepStatus) (dependsOn : List Id)
    (fields : List AgreementField) : PlanStep :=
  { id := id, title := "step", status := status, dependsOn := dependsOn, input := ""
    expectedOutput := "text", requirementFields := fields, executor := ⟨0, 20⟩, evidence := []
    artifacts := [], outcome := "done", blocker := "" }

/-- The first step of a claimed run calls `plan_update` and stores the first
version of the plan of task `10`; a step that declares no fields is stored with the
default list. -/
def storedPlan (claim : Claim) (steps : List PlanStep) : List Op :=
  [.executionStep claim 0
      { tools := [planTool], maxToolCalls := 4, maxParallelTools := 0, payload := 0 },
    .completeExecutionStep claim 0
      { finishReason := .toolCalls, content := "", calls := [⟨30, 6, 0, 0⟩], usage := ⟨none, none, []⟩ },
    .beginExecutionTool claim 0 30 0,
    .updatePlan
      { claim := claim, step := 0, call := ⟨30, 6, 0, 0⟩, definition := planTool
        idempotencyKey := ⟨conversationOwner sampleUser, 20, 0, 30⟩ }
      { clientID := 70, expectedVersion := 0, agreementRevision := 1, reason := "plan"
        steps := steps }
      { taskID := 10, version := 1, agreementRevision := 1, reason := "plan"
        steps := steps.map fun step =>
          if step.requirementFields = [] then
            { step with requirementFields := storedPlanAgreementFields }
          else step
        source := some ⟨claim.conversationID, 20, 1⟩ }]

def reviewedBelowCompleted : List Op :=
  launchedTask ++
    storedPlan sampleClaim
      [samplePlanStep 1 .skipped [] [.goal], samplePlanStep 2 .completed [1] [.audience]] ++
    [.finish sampleClaim "" "model_failed" true,
      .updateTaskAgreement 10 ⟨60, 1, "clearer", { sampleBrief with version := 2, goal := "memo" }⟩
        sampleUser]

/-- The version the agreement's change stores has a completed step that depends
on one up for review, which `plan_update` would refuse. -/
theorem reviewed_step_below_completed :
    ∃ s, Reachable s ∧ ∃ row, s.plans.get? (10, 2) = some row ∧
      ∃ step ∈ row.plan.steps, step.status = .completed ∧
        ∃ other ∈ row.plan.steps, other.id ∈ step.dependsOn ∧ other.status.settled = false := by
  exact ⟨_, reachable_afterOps reviewedBelowCompleted, by decide +kernel⟩

/-- The completed step is in both versions of that plan. -/
theorem completed_step_kept_under_review :
    ∃ row later step, (afterOps reviewedBelowCompleted).plans.get? (10, 1) = some row ∧
      (afterOps reviewedBelowCompleted).plans.get? (10, 2) = some later ∧
      step ∈ row.plan.steps ∧ step.status = .completed ∧ step ∈ later.plan.steps ∧
      ∀ next ∈ later.plan.steps, next.id = step.id → next = step := by
  obtain ⟨row, there, step, member, status⟩ : ∃ row,
      (afterOps reviewedBelowCompleted).plans.get? (10, 1) = some row ∧
      ∃ step ∈ row.plan.steps, step.status = .completed := by decide +kernel
  obtain ⟨later, there'⟩ : ∃ later,
      (afterOps reviewedBelowCompleted).plans.get? (10, 2) = some later := by decide +kernel
  obtain ⟨kept, only⟩ := completed_steps_immutable (reachable_afterOps _) .start there there'
    (by omega) member status
  exact ⟨row, later, step, there, there', member, status, kept, only⟩

/-- The rules hold of the version that broke the validator's one. -/
theorem reviewed_plan_keeps_rules :
    ∃ row, (afterOps reviewedBelowCompleted).plans.get? (10, 2) = some row ∧
      PlanRules row.plan.steps ∧
      ∀ client, row.client = .update client → validStoredConversationPlan row.plan = true := by
  obtain ⟨row, there⟩ : ∃ row, (afterOps reviewedBelowCompleted).plans.get? (10, 2) = some row := by
    decide +kernel
  exact ⟨row, there, stored_plans_keep_rules (reachable_afterOps _) there⟩

/-! ### The check of the graph -/

/-- What is checked of a plan beside its graph. -/
def validPlanFields (plan : Plan) : Bool :=
  1 ≤ plan.version && 1 ≤ plan.agreementRevision && executionText plan.reason 2048 true &&
  (match plan.source with
    | none => false
    | some source => 1 ≤ source.beforeStep) &&
  1 ≤ plan.steps.length && plan.steps.length ≤ 32 &&
  plan.steps.all validPlanStep && decide ((plan.steps.map (·.id)).Nodup) &&
  (plan.steps.filter (fun step => step.status = .inProgress)).length ≤ 1

/-- **The graph of a plan.**  In whatever order its steps are gone through, the
check accepts exactly the plans whose dependencies are steps, without repetition
or cycle, and whose started steps stand on settled ones; the store checks the
graph of a plan in the same way. -/
theorem plan_graph_check (steps : List PlanStep) (unique : (steps.map (·.id)).Nodup)
    (order : List Id) (visits : order.Perm (steps.map (·.id))) :
    (validConversationPlanDAG order steps = true ↔ PlanGraph steps) ∧
      ∀ plan, plan.steps = steps → validStoredConversationPlan plan =
        (validPlanFields plan && validConversationPlanDAG order steps) := by
  have same := validConversationPlanDAG_iff unique visits
  refine ⟨same, ?_⟩
  rintro plan rfl
  rw [Bool.eq_iff_iff.mpr (same.trans (validConversationPlanDAG_iff unique (.refl _)).symm)]
  exact Bool.and_assoc ..

theorem two_steps_are_checked : PlanGraph
    [samplePlanStep 1 .skipped [] [.goal], samplePlanStep 2 .completed [1] [.audience]] :=
  (plan_graph_check _ (by decide) [2, 1] (by decide)).1.mp (by decide)

/-! ### What a changed brief puts up for review -/

/-- A step rests on the fields it declares; one that declared none was stored
with the default list and rests on the whole brief. -/
def PlanStep.RestsOn (step : PlanStep) (field : AgreementField) : Prop :=
  field ∈ step.requirementFields ∨
    step.requirementFields = storedPlanAgreementFields ∧ field ∈ briefFields

/-- The open steps that a change of the brief concerns, directly or through
their dependencies. -/
def UpForReview (steps : List PlanStep) (before after : Brief) (step : PlanStep) : Prop :=
  step.status ≠ .completed ∧ Reached steps
    (fun step => ∃ field ∈ changedBriefFields before after, step.RestsOn field) step

/-- The version that supersedes a plan has the steps up for review marked, with
whatever reason is given, and every other step as it was. -/
def ReviewsExactly (plan : Plan) (before after : Brief) : Prop :=
  ∀ (revision : Nat) (reason : String), ∃ f,
    (supersededPlan plan revision (conversationPlanBriefFields before after) reason).steps =
      plan.steps.map f ∧
    ∀ step ∈ plan.steps,
      (UpForReview plan.steps before after step →
        f step = { step with status := .needsReview, blocker := reason }) ∧
      (¬UpForReview plan.steps before after step → f step = step)

variable {before after : Brief} {step : PlanStep} {steps : List PlanStep}

/-- The stored default names every field of a brief but one. -/
theorem listed_of_brief {field : AgreementField} (inBrief : field ∈ briefFields)
    (other : field ≠ .verificationRules) : field ∈ storedPlanAgreementFields := by
  revert inBrief other
  cases field <;> decide

/-- Unless the rules are all that changed, something the default names did too. -/
theorem listed_changed (others : changedBriefFields before after ≠ [.verificationRules])
    {field : AgreementField} (changed : field ∈ changedBriefFields before after) :
    ∃ g ∈ changedBriefFields before after, g ∈ storedPlanAgreementFields := by
  have inBrief : ∀ g ∈ changedBriefFields before after, g ∈ briefFields := fun g changed =>
    (of_decide_eq_true (List.mem_filter.mp changed).2).1
  have distinct : (changedBriefFields before after).Nodup := .filter _ (by decide)
  by_contra! unlisted
  have rules : ∀ g ∈ changedBriefFields before after, g = .verificationRules := fun g changed =>
    not_not.mp fun other => unlisted g changed (listed_of_brief (inBrief g changed) other)
  refine others (List.perm_singleton.mp
    ((List.perm_ext_iff_of_nodup distinct (List.nodup_singleton _)).mpr fun g => ?_))
  rw [List.mem_singleton]
  exact ⟨rules g, fun same => same ▸ rules field changed ▸ changed⟩

theorem planFieldsAffected_iff (others : changedBriefFields before after ≠ [.verificationRules]) :
    planFieldsAffected step (changedBriefFields before after) = true ↔
      ∃ field ∈ changedBriefFields before after, step.RestsOn field := by
  simp only [planFieldsAffected, List.any_eq_true, List.contains_iff_mem]
  constructor
  · rintro ⟨field, changed, declared⟩
    exact ⟨field, changed, .inl declared⟩
  · rintro ⟨field, changed, declared | ⟨default, -⟩⟩
    · exact ⟨field, changed, declared⟩
    · rw [default]
      exact listed_changed others changed

/-- No step can declare the rules. -/
theorem restsOn_rules (known : ∀ field ∈ step.requirementFields, storedPlanField field = true) :
    step.RestsOn .verificationRules ↔ step.requirementFields = storedPlanAgreementFields := by
  constructor
  · rintro (declared | ⟨default, -⟩)
    · exact absurd (known _ declared) (by decide)
    · exact default
  · exact fun default => .inr ⟨default, by decide⟩

/-- So nothing is marked for them. -/
theorem not_reached_by_rules
    (known : ∀ step ∈ steps, ∀ field ∈ step.requirementFields, storedPlanField field = true)
    (member : step ∈ steps) :
    ¬Reached steps (planFieldsAffected · [.verificationRules] = true) step := by
  intro reached
  induction reached with
  | direct holds =>
    simp only [planFieldsAffected, List.any_cons, List.any_nil, Bool.or_false,
      List.contains_iff_mem] at holds
    exact absurd (known _ member _ holds) (by decide)
  | depends there _ _ ih => exact ih there

/-- **A changed brief reviews exactly what it concerns.**  The version that
supersedes a stored plan has each step up for review that is not completed and
rests on a changed field or depends on such a step, and every other step as it
was, unless the verification rules are all that changed and an open step declared
no fields or depends on one that did. -/
theorem changed_brief_reviews_exactly (reached : Reachable s) {task : Id} {v : Nat} {row : PlanRow}
    (stored : s.plans.get? (task, v) = some row) (before after : Brief) :
    ReviewsExactly row.plan before after ↔
      (changedBriefFields before after = [.verificationRules] →
        ∀ step ∈ row.plan.steps, step.status ≠ .completed →
          ¬Reached row.plan.steps (·.requirementFields = storedPlanAgreementFields) step) := by
  have history := reached.wellFormed.history
  have rules := history.rules stored
  have known : ∀ step ∈ row.plan.steps, ∀ field ∈ step.requirementFields,
      storedPlanField field = true := fun step member field => history.declares stored member
  constructor
  · intro exact alone step member open_ concerned
    -- The step is up for review with any reason, and stays as it is.
    have review : UpForReview row.plan.steps before after step := by
      refine ⟨open_, concerned.mono (fun other there default => ?_) member⟩
      exact ⟨.verificationRules, by rw [alone]; exact List.mem_singleton_self _,
        (restsOn_rules (known other there)).mpr default⟩
    have unmarked : step.id ∉ affectedSteps row.plan.steps (changedBriefFields before after) := by
      rw [mem_affectedSteps rules _ member, alone]
      exact not_reached_by_rules known member
    obtain ⟨f, steps, marks⟩ := exact 0 (step.blocker ++ "!")
    have kept : supersedeStep _ _ step = f step := List.map_inj_left.mp steps step member
    rw [(marks step member).1 review, supersedeStep, if_neg fun marked => unmarked marked.2] at kept
    have blocker := congrArg PlanStep.blocker kept
    have longer := congrArg String.length blocker
    simp at longer
  · intro condition revision reason
    refine ⟨_, rfl, fun step member => ?_⟩
    have marked : step.status ≠ .completed →
        (step.id ∈ affectedSteps row.plan.steps (changedBriefFields before after) ↔
          Reached row.plan.steps
            (fun step => ∃ field ∈ changedBriefFields before after, step.RestsOn field) step) := by
      intro open_
      rw [mem_affectedSteps rules _ member]
      by_cases alone : changedBriefFields before after = [.verificationRules]
      · rw [alone]
        refine iff_of_false (not_reached_by_rules known member) fun concerned => ?_
        refine condition alone step member open_ (concerned.mono (fun other there rests => ?_) member)
        exact (restsOn_rules (known other there)).mp (by simpa using rests)
      · simp only [planFieldsAffected_iff alone]
    exact ⟨fun review => if_pos ⟨review.1, (marked review.1).mpr review.2⟩,
      fun kept => if_neg fun review => kept ⟨review.1, (marked review.1).mp review.2⟩⟩

/-- A stored plan of one open step that declared no fields. -/
def defaultPlan : List Op :=
  launchedTask ++ storedPlan sampleClaim [samplePlanStep 1 .pending [] []]

def changedRules : Brief :=
  { sampleBrief with
    verificationRules :=
      [{ condition := 0, kind := "receipt", schema := none, tool := "send", argumentsSchema := none
         resultSchema := none, minReceipts := 0, completion := "" }] }

/-- New verification rules concern that step, but it stays as it is. -/
theorem changed_rules_review_nothing :
    ∃ s, Reachable s ∧ ∃ row, s.plans.get? (10, 1) = some row ∧ ∃ step ∈ row.plan.steps,
      UpForReview row.plan.steps sampleBrief changedRules step ∧
        step ∈ (supersededPlan row.plan 2 (conversationPlanBriefFields sampleBrief changedRules)
          "rules").steps ∧ step.status = .pending := by
  have stored : ((afterOps defaultPlan).plans.get? (10, 1)).map (·.plan.steps) =
      some [samplePlanStep 1 .pending [] storedPlanAgreementFields] := by decide +kernel
  obtain ⟨row, there, steps⟩ := Option.map_eq_some_iff.mp stored
  refine ⟨_, reachable_afterOps _, row, there,
    samplePlanStep 1 .pending [] storedPlanAgreementFields, ?_,
    ⟨nofun, .direct ⟨.verificationRules, ?_⟩⟩, ?_, rfl⟩
  · rw [steps]; exact List.mem_singleton_self _
  · exact ⟨by decide +kernel, .inr ⟨rfl, by decide⟩⟩
  · simp only [supersededPlan, steps]
    decide +kernel

/-- A new goal puts it up for review. -/
theorem changed_goal_reviews_default :
    ∃ row, (afterOps defaultPlan).plans.get? (10, 1) = some row ∧
      ReviewsExactly row.plan sampleBrief { sampleBrief with goal := "memo" } := by
  obtain ⟨row, there⟩ : ∃ row, (afterOps defaultPlan).plans.get? (10, 1) = some row := by
    decide +kernel
  refine ⟨row, there, (changed_brief_reviews_exactly (s := afterOps defaultPlan)
    (reachable_afterOps _) there sampleBrief { sampleBrief with goal := "memo" }).mpr fun alone => ?_⟩
  exact absurd alone (by decide +kernel)

/-! ### The history of versions -/

theorem ordered_of_reachable (reached : ReachableBy (fun u op => ¬Raises u op .staleTask) s) :
    Ordered s.toCore := by
  have current : Current s.tasks s.plans := by
    refine reached.invariant (P := fun c => Current c.tasks c.plans) (fun _ _ => .empty) ?_
    intro u op _ clean _ _ step _ history inv
    exact step.current clean history inv
  exact ⟨reached.wellFormed.routed, reached.wellFormed.history, current⟩

/-- **Plan history.**  Unless a control reaches a task whose open run has a plan
step in progress, the stored versions of a task are `1` to the version of its
plan, that plan is the stored one, and no operation fails over a version that is
stored already. -/
theorem plan_history_intact (reached : ReachableBy (fun u op => ¬Raises u op .staleTask) s) :
    (∀ task ∈ s.tasks.rows,
      (∀ v, (∃ row, s.plans.get? (task.id, v) = some row) ↔
        1 ≤ v ∧ v ≤ planVersion task.plan) ∧
      ∀ plan, task.plan = some plan →
        ∃ client, s.plans.get? (task.id, plan.version) = some ⟨plan, client⟩) ∧
    ∀ op, ¬Raises s op .staleTask → writesPlans op = true →
      exec op s ≠ .error (duplicate "_agent_conversation_task_plans") := by
  have ordered := ordered_of_reachable reached
  constructor
  · intro task member
    have found := Table.get?_of_mem member
    exact ⟨ordered.history.versions ordered.current found, fun _ => ordered.history.stored found⟩
  · intro op clean writes failed
    exact exec_sound ordered clean writes _ failed rfl

/-! The failing runs: a delegated task works on a plan step when its delegation
is paused, or gets a new brief. -/

def sampleAdmission : Admission :=
  { delegationID := 3, conversationID := 2, taskID := 10, sourceConversationID := 1
    sourceRunID := none, fromAgentID := 0, sourceAgent := ⟨0, 1⟩, toAgentID := 4, toAgentRevision := 1
    brief := sampleBrief
    structuredInput := none, source := none, dependencies := [], budget := ⟨8, 8⟩
    workBudget := none, executor := sampleUser, purpose := "report" }

def delegatedClaim : Claim := { sampleClaim with conversationID := 2 }

/-- A delegation is admitted, launched and claimed, and its first step has
reserved its work. -/
def launchedDelegation : List Op :=
  [.createConversation 1 none sampleUser, .createDelegation sampleAdmission sampleUser,
    .launchTask 1 20, .claim 1 7 1000 [], .reserveWork delegatedClaim 0 ⟨10, 10, 100⟩]

/-- Its plan has a step in progress. -/
def plannedDelegation : List Op :=
  launchedDelegation ++ storedPlan delegatedClaim [samplePlanStep 1 .inProgress [] [.goal]]

def sampleUpdate (action : DelegationAction) (expected : Nat) : Op :=
  .updateDelegation 3
    { action := action, expectedRevision := expected, reason := "", source := none, manager := false }
    sampleUser

def changedGoal : Op :=
  sampleUpdate (.updateBrief { sampleBrief with version := 2, goal := "memo" }) 3

/-- After a pause the task has its first plan version and the store a second
one; and a new brief for the running task fails over the version that the
cancellation inside it has just stored. -/
theorem control_falls_behind_plan :
    (∃ s, Reachable s ∧ ∃ task ∈ s.tasks.rows, planVersion task.plan = 1 ∧
      ∃ row, s.plans.get? (task.id, 2) = some row) ∧
    ∃ s op, Reachable s ∧ writesPlans op = true ∧
      exec op s = .error (duplicate "_agent_conversation_task_plans") := by
  constructor
  · exact ⟨_, reachable_afterOps (plannedDelegation ++ [sampleUpdate .pause 3]), by decide +kernel⟩
  · refine ⟨afterOps plannedDelegation, changedGoal, reachable_afterOps _, rfl, ?_⟩
    have refused : (match exec changedGoal (afterOps plannedDelegation) with
      | .error e => e == duplicate "_agent_conversation_task_plans"
      | .ok _ => false) = true := by decide +kernel
    split at refused
    · next failed => rw [failed, eq_of_beq refused]
    · cases refused

/-- The planned delegation before any control. -/
theorem planned_delegation_history_intact :
    (afterOps plannedDelegation).tasks.rows.any (fun task => planVersion task.plan = 1) = true ∧
    (∀ task ∈ (afterOps plannedDelegation).tasks.rows,
      (∀ v, (∃ row, (afterOps plannedDelegation).plans.get? (task.id, v) = some row) ↔
        1 ≤ v ∧ v ≤ planVersion task.plan) ∧
      ∀ plan, task.plan = some plan → ∃ client,
        (afterOps plannedDelegation).plans.get? (task.id, plan.version) = some ⟨plan, client⟩) ∧
    ∀ op, ¬Raises (afterOps plannedDelegation) op .staleTask → writesPlans op = true →
      exec op (afterOps plannedDelegation) ≠ .error (duplicate "_agent_conversation_task_plans") :=
  ⟨by decide +kernel, plan_history_intact (follows_afterOps (by decide))⟩

end DomainryAgent
