import DomainryAgent.Protocol.Plans

/-!
What every stored plan version satisfies, whoever wrote it.

`plan_update` checks a version before it stores it; the two writers of the store
itself rewrite statuses and check nothing.  `Rewrite` says what such a rewrite
must keep to preserve `PlanRules`, and `PlanNext.rules` that all three do.  The
one rule of the validator that is not among them is that a completed step
depends on completed or skipped ones: a changed agreement puts a skipped step
up for review and leaves the completed ones above it as they are.
-/

namespace DomainryAgent.Protocol

open Lib

/-! ### The rules -/

/-- The rules of a stored plan. -/
structure PlanRules (steps : List PlanStep) : Prop where
  unique : (steps.map (·.id)).Nodup
  present : ∀ step ∈ steps, ∀ d ∈ step.dependsOn, ∃ other ∈ steps, other.id = d
  acyclic : ∀ step ∈ steps, ¬Relation.TransGen (Dag.Edge (planDeps steps)) step.id step.id
  single : (steps.filter (fun step => step.status = .inProgress)).length ≤ 1
  working : ∀ step ∈ steps, step.status = .inProgress →
    ∀ other ∈ steps, other.id ∈ step.dependsOn → other.status.settled = true
  done : ∀ step ∈ steps, step.status = .completed →
    ∀ other ∈ steps, other.id ∈ step.dependsOn →
      other.status.settled = true ∨ other.status = .needsReview

variable {steps : List PlanStep} {step : PlanStep} {plan : Plan} {marked : List Id} {t : Id}
  {row : PlanRow}

/-- With unique ids, a step is found under its id. -/
theorem stepByID_of_mem (unique : (steps.map (·.id)).Nodup) (member : step ∈ steps) :
    stepByID steps step.id = some step :=
  Table.get?_of_mem (t := (⟨steps, unique⟩ : Table PlanStep.id)) member

theorem clean_iff (unique : (steps.map (·.id)).Nodup) (member : step ∈ steps) :
    Dag.Clean (planDeps steps) step.id ↔ step.dependsOn.Nodup ∧
      (∀ d ∈ step.dependsOn, ∃ other ∈ steps, other.id = d) ∧
      ¬Relation.TransGen (Dag.Edge (planDeps steps)) step.id step.id := by
  have present : ∀ d, (stepByID steps d).isSome ↔ ∃ other ∈ steps, other.id = d := by
    simp [stepByID]
  simp [Dag.Clean, planDeps, stepByID_of_mem unique member, present]

/-- What the graph of a plan has to satisfy. -/
structure PlanGraph (steps : List PlanStep) : Prop where
  clean : ∀ step ∈ steps, step.dependsOn.Nodup ∧
    (∀ d ∈ step.dependsOn, ∃ other ∈ steps, other.id = d) ∧
    ¬Relation.TransGen (Dag.Edge (planDeps steps)) step.id step.id
  settled : ∀ step ∈ steps, step.status.started = true →
    ∀ other ∈ steps, other.id ∈ step.dependsOn → other.status.settled = true

theorem validConversationPlanDAG_iff (unique : (steps.map (·.id)).Nodup) {order : List Id}
    (visits : order.Perm (steps.map (·.id))) :
    validConversationPlanDAG order steps = true ↔ PlanGraph steps := by
  have all : ∀ id, (planDeps steps id).isSome → id ∈ order := by
    intro id present
    rw [planDeps, Option.isSome_map] at present
    obtain ⟨step, found⟩ := Option.isSome_iff_exists.mp present
    exact visits.mem_iff.mpr (List.mem_map.mpr ⟨step, List.mem_of_find?_eq_some found,
      by simpa using List.find?_some found⟩)
  rw [validConversationPlanDAG, Bool.and_eq_true, Dag.isDag_iff all]
  simp only [visits.mem_iff, List.forall_mem_map]
  constructor
  · rintro ⟨clean, settled⟩
    refine ⟨fun step member => (clean_iff unique member).mp (clean step member), ?_⟩
    intro step member started other there depends
    have held := List.all_eq_true.mp settled step member
    rw [started, Bool.not_true, Bool.false_or] at held
    have found := List.all_eq_true.mp held other.id depends
    rw [stepByID_of_mem unique there] at found
    exact found
  · intro graph
    refine ⟨fun step member => (clean_iff unique member).mpr (graph.clean step member), ?_⟩
    refine List.all_eq_true.mpr fun step member => ?_
    cases started : step.status.started with
    | false => rfl
    | true =>
      refine List.all_eq_true.mpr fun d depends => ?_
      obtain ⟨other, there, rfl⟩ := (graph.clean step member).2.1 d depends
      rw [stepByID_of_mem unique there]
      exact graph.settled step member started other there depends

/-- The validator accepts only plans that keep the rules. -/
theorem PlanRules.of_valid (valid : validStoredConversationPlan plan = true) :
    PlanRules plan.steps := by
  simp only [validStoredConversationPlan, Bool.and_eq_true, decide_eq_true_eq] at valid
  obtain ⟨⟨⟨⟨-, unique⟩, single⟩, dag⟩, settled⟩ := valid
  have graph := (validConversationPlanDAG_iff unique (.refl _)).mp
    (Bool.and_eq_true_iff.mpr ⟨dag, settled⟩)
  refine ⟨unique, fun step member => (graph.clean step member).2.1,
    fun step member => (graph.clean step member).2.2, single, ?_, ?_⟩
  · exact fun step member status => graph.settled step member (by rw [status]; rfl)
  · intro step member status other there depends
    exact .inl (graph.settled step member (by rw [status]; rfl) other there depends)

/-! ### Rewriting statuses -/

/-- A rewrite of a plan's steps that keeps the graph, starts nothing, and
leaves alone what a step in progress and a completed one stand on. -/
structure Rewrite (steps : List PlanStep) (f : PlanStep → PlanStep) : Prop where
  id : ∀ step, (f step).id = step.id
  dependsOn : ∀ step, (f step).dependsOn = step.dependsOn
  working : ∀ step ∈ steps, (f step).status = .inProgress → step.status = .inProgress ∧
    ∀ other ∈ steps, other.id ∈ step.dependsOn → f other = other
  completed : ∀ step, step.status = .completed → f step = step
  done : ∀ step, (f step).status = .completed → step.status = .completed
  settled : ∀ step, step.status.settled = true ∨ step.status = .needsReview →
    (f step).status.settled = true ∨ (f step).status = .needsReview
  fields : ∀ step, (f step).requirementFields = step.requirementFields

variable {f : PlanStep → PlanStep} {fuel : Nat} {P : Id → Prop} {reason : String}

theorem Rewrite.planDeps (rewrite : Rewrite steps f) : planDeps (steps.map f) = planDeps steps := by
  funext id
  simp only [DomainryAgent.planDeps, stepByID, List.find?_map, Function.comp_def, rewrite.id,
    Option.map_map, rewrite.dependsOn]

theorem PlanRules.rewrite (rules : PlanRules steps) (rewrite : Rewrite steps f) :
    PlanRules (steps.map f) := by
  have ids : (steps.map f).map (·.id) = steps.map (·.id) := by
    rw [List.map_map]
    exact List.map_congr_left fun step _ => rewrite.id step
  constructor
  · rw [ids]
    exact rules.unique
  · intro _ member d depends
    obtain ⟨step, there, rfl⟩ := List.mem_map.mp member
    rw [rewrite.dependsOn] at depends
    obtain ⟨other, at_other, same⟩ := rules.present step there d depends
    exact ⟨f other, List.mem_map_of_mem at_other, (rewrite.id other).trans same⟩
  · intro _ member
    obtain ⟨step, there, rfl⟩ := List.mem_map.mp member
    rw [rewrite.planDeps, rewrite.id]
    exact rules.acyclic step there
  · -- Every step in progress was so before.
    rw [List.filter_map, List.length_map]
    refine le_trans (List.Sublist.length_le ?_) rules.single
    have fewer : steps.filter ((fun step => decide (step.status = .inProgress)) ∘ f) =
        (steps.filter (fun step => step.status = .inProgress)).filter
          ((fun step => decide (step.status = .inProgress)) ∘ f) := by
      rw [List.filter_filter]
      refine List.filter_congr fun step member => ?_
      by_cases now : (f step).status = .inProgress
      · simp [now, (rewrite.working step member now).1]
      · simp [now]
    rw [fewer]
    exact List.filter_sublist
  · intro _ member status _ member' depends
    obtain ⟨step, there, rfl⟩ := List.mem_map.mp member
    obtain ⟨other, there', rfl⟩ := List.mem_map.mp member'
    rw [rewrite.dependsOn, rewrite.id] at depends
    obtain ⟨before, kept⟩ := rewrite.working step there status
    rw [kept other there' depends]
    exact rules.working step there before other there' depends
  · intro _ member status _ member' depends
    obtain ⟨step, there, rfl⟩ := List.mem_map.mp member
    obtain ⟨other, there', rfl⟩ := List.mem_map.mp member'
    rw [rewrite.dependsOn, rewrite.id] at depends
    exact rewrite.settled other
      (rules.done step there (rewrite.done step status) other there' depends)

/-! ### The steps a change reaches -/

theorem affectedPass_cons (step : PlanStep) (rest : List PlanStep) (marked : List Id) :
    affectedPass (step :: rest) marked = affectedPass rest
      (if step.id ∈ marked then marked
        else if step.dependsOn.any (· ∈ marked) then step.id :: marked
        else marked) := rfl

/-- The ids a pass adds come in front, and each is the id of a step that was not
marked. -/
theorem affectedPass_extends (steps : List PlanStep) (marked : List Id) :
    ∃ new, affectedPass steps marked = new ++ marked ∧
      ∀ x ∈ new, x ∉ marked ∧ ∃ step ∈ steps, step.id = x := by
  induction steps generalizing marked with
  | nil => exact ⟨[], rfl, by simp⟩
  | cons step rest ih =>
    rw [affectedPass_cons]
    have passed : ∃ new, affectedPass rest marked = new ++ marked ∧
        ∀ x ∈ new, x ∉ marked ∧ ∃ other ∈ step :: rest, other.id = x := by
      obtain ⟨new, grows, fresh⟩ := ih marked
      refine ⟨new, grows, fun x member => ?_⟩
      obtain ⟨out, other, there, same⟩ := fresh x member
      exact ⟨out, other, List.mem_cons_of_mem _ there, same⟩
    split_ifs with seen reached
    · exact passed
    · obtain ⟨new, grows, fresh⟩ := ih (step.id :: marked)
      refine ⟨new ++ [step.id], by rw [grows]; simp, fun x member => ?_⟩
      rcases List.mem_append.mp member with added | here
      · obtain ⟨out, other, there, same⟩ := fresh x added
        exact ⟨fun old => out (List.mem_cons_of_mem _ old), other, List.mem_cons_of_mem _ there, same⟩
      · obtain rfl := List.mem_singleton.mp here
        exact ⟨seen, step, List.mem_cons_self, rfl⟩
    · exact passed

/-- The marked ids reach no further. -/
def Closed (steps : List PlanStep) (marked : List Id) : Prop :=
  ∀ step ∈ steps, ∀ d ∈ step.dependsOn, d ∈ marked → step.id ∈ marked

/-- A pass that marks nothing new has nothing left to mark. -/
theorem closed_of_affectedPass (fixed : affectedPass steps marked = marked) :
    Closed steps marked := by
  induction steps with
  | nil => exact fun _ member => by simp at member
  | cons step rest ih =>
    rw [affectedPass_cons] at fixed
    intro other member d depends at_d
    split_ifs at fixed with seen reached
    · rcases List.mem_cons.mp member with rfl | later
      · exact seen
      · exact ih fixed other later d depends at_d
    · -- The head was marked, and no pass takes a mark back.
      obtain ⟨new, grows, -⟩ := affectedPass_extends rest (step.id :: marked)
      have size := congrArg List.length (grows.symm.trans fixed)
      simp only [List.length_append, List.length_cons] at size
      omega
    · rcases List.mem_cons.mp member with rfl | later
      · exact absurd (List.any_eq_true.mpr ⟨d, depends, by simpa using at_d⟩) reached
      · exact ih fixed other later d depends at_d

/-- The steps that are not marked. -/
def unmarked (steps : List PlanStep) (marked : List Id) : List PlanStep :=
  steps.filter (·.id ∉ marked)

/-- A pass that marks something leaves fewer steps unmarked. -/
theorem unmarked_affectedPass (grows : (affectedPass steps marked).length ≠ marked.length) :
    (unmarked steps (affectedPass steps marked)).length < (unmarked steps marked).length := by
  obtain ⟨new, extended, fresh⟩ := affectedPass_extends steps marked
  obtain ⟨x, at_x⟩ : ∃ x, x ∈ new := by
    refine List.exists_mem_of_ne_nil new ?_
    rintro rfl
    exact grows (congrArg List.length extended)
  obtain ⟨out, step, there, rfl⟩ := fresh x at_x
  have fewer : unmarked steps (affectedPass steps marked) =
      (unmarked steps marked).filter (·.id ∉ new) := by
    unfold unmarked
    rw [extended, List.filter_filter]
    refine List.filter_congr fun other _ => ?_
    simp [List.mem_append, not_or]
  rw [fewer]
  refine List.length_filter_lt_length_iff_exists.mpr ⟨step, ?_, by simpa using at_x⟩
  exact List.mem_filter.mpr ⟨there, by simpa using out⟩

theorem closed_affectedLoop (enough : (unmarked steps marked).length < fuel) :
    Closed steps (affectedLoop steps fuel marked) := by
  induction fuel generalizing marked with
  | zero => omega
  | succ fuel ih =>
    simp only [affectedLoop]
    split_ifs with same
    · obtain ⟨new, extended, -⟩ := affectedPass_extends steps marked
      have none : new = [] := by
        have size := congrArg List.length extended
        rw [same, List.length_append] at size
        exact List.length_eq_zero_iff.mp (by omega)
      rw [none, List.nil_append] at extended
      exact closed_of_affectedPass extended
    · have less := unmarked_affectedPass same
      exact ih (by omega)

/-- A step that depends on an affected one is affected. -/
theorem affectedSteps_closed (steps : List PlanStep) (fields : List AgreementField) :
    Closed steps (affectedSteps steps fields) :=
  closed_affectedLoop (Nat.lt_succ_of_le (List.length_filter_le _ _))

/-- What holds of the marked ids and spreads along dependencies holds of all
that a pass marks. -/
theorem affectedPass_least (spreads : ∀ step ∈ steps, ∀ d ∈ step.dependsOn, P d → P step.id)
    (held : ∀ x ∈ marked, P x) : ∀ x ∈ affectedPass steps marked, P x := by
  induction steps generalizing marked with
  | nil => exact held
  | cons step rest ih =>
    rw [affectedPass_cons]
    apply ih fun other there => spreads other (List.mem_cons_of_mem _ there)
    split_ifs with seen reached
    · exact held
    · obtain ⟨d, depends, at_d⟩ := List.any_eq_true.mp reached
      have here := spreads step List.mem_cons_self d depends (held d (of_decide_eq_true at_d))
      exact List.forall_mem_cons.mpr ⟨here, held⟩
    · exact held

theorem affectedLoop_least (spreads : ∀ step ∈ steps, ∀ d ∈ step.dependsOn, P d → P step.id)
    (held : ∀ x ∈ marked, P x) : ∀ x ∈ affectedLoop steps fuel marked, P x := by
  induction fuel generalizing marked with
  | zero => exact held
  | succ fuel ih =>
    simp only [affectedLoop]
    split_ifs
    · exact held
    · exact ih (affectedPass_least spreads held)

theorem subset_affectedLoop : marked ⊆ affectedLoop steps fuel marked := by
  induction fuel generalizing marked with
  | zero => exact List.Subset.refl _
  | succ fuel ih =>
    simp only [affectedLoop]
    split_ifs
    · exact List.Subset.refl _
    · obtain ⟨new, extended, -⟩ := affectedPass_extends steps marked
      rw [extended]
      exact fun x member => ih (List.mem_append_right new member)

/-- The steps that satisfy `direct`, and those that depend on one that is
reached. -/
inductive Reached (steps : List PlanStep) (direct : PlanStep → Prop) : PlanStep → Prop
  | direct {step : PlanStep} (holds : direct step) : Reached steps direct step
  | depends {step other : PlanStep} (there : other ∈ steps) (depends : other.id ∈ step.dependsOn)
      (reached : Reached steps direct other) : Reached steps direct step

theorem Reached.mono {p q : PlanStep → Prop} (implies : ∀ step ∈ steps, p step → q step)
    (member : step ∈ steps) (reached : Reached steps p step) : Reached steps q step := by
  induction reached with
  | direct holds => exact .direct (implies _ member holds)
  | depends there depends _ ih => exact .depends there depends (ih there)

/-- The loop marks the least set that a change reaches. -/
theorem mem_affectedSteps (rules : PlanRules steps) (fields : List AgreementField)
    (member : step ∈ steps) : step.id ∈ affectedSteps steps fields ↔
      Reached steps (planFieldsAffected · fields = true) step := by
  constructor
  · intro marked
    have least : ∀ x ∈ affectedSteps steps fields, ∀ step ∈ steps, step.id = x →
        Reached steps (planFieldsAffected · fields = true) step := by
      refine affectedLoop_least ?_ ?_
      · intro other there d depends reached step member same
        obtain rfl := List.inj_on_of_nodup_map rules.unique member there same
        obtain ⟨upstream, at_d, rfl⟩ := rules.present step there d depends
        exact .depends at_d depends (reached upstream at_d rfl)
      · intro x at_x step member same
        obtain ⟨other, chosen, rfl⟩ := List.mem_map.mp at_x
        obtain ⟨there, affected⟩ := List.mem_filter.mp chosen
        obtain rfl := List.inj_on_of_nodup_map rules.unique member there same
        exact .direct affected
    exact least step.id marked step member rfl
  · intro reached
    induction reached with
    | direct affected =>
      exact subset_affectedLoop (List.mem_map_of_mem (List.mem_filter.mpr ⟨member, affected⟩))
    | depends there depends _ ih =>
      exact affectedSteps_closed steps fields _ member _ depends (ih there)

/-! ### The writers -/

/-- A changed agreement reaches a step with everything that depends on it. -/
theorem supersedeStep_rewrites {affected : List Id} (closed : Closed steps affected) :
    Rewrite steps (supersedeStep affected reason) := by
  have cases : ∀ step, supersedeStep affected reason step = step ∨
      step.status ≠ .completed ∧ step.id ∈ affected ∧ supersedeStep affected reason step =
        { step with status := .needsReview, blocker := reason } := by
    intro step
    unfold supersedeStep
    split_ifs with reached
    · exact .inr ⟨reached.1, reached.2, rfl⟩
    · exact .inl rfl
  refine ⟨fun step => ?_, fun step => ?_, fun step member status => ?_, fun step status => ?_,
    fun step status => ?_, fun step status => ?_, fun step => ?_⟩
  · rcases cases step with same | ⟨_, _, same⟩ <;> rw [same]
  · rcases cases step with same | ⟨_, _, same⟩ <;> rw [same]
  · have before : step.status = .inProgress := by
      rcases cases step with same | ⟨_, _, same⟩ <;> rw [same] at status
      · exact status
      · cases status
    refine ⟨before, fun other there depends => ?_⟩
    -- The step itself was not reached, so nothing it stands on was.
    have out : step.id ∉ affected := by
      intro reached
      have : supersedeStep affected reason step =
          { step with status := .needsReview, blocker := reason } :=
        if_pos ⟨by rw [before]; exact nofun, reached⟩
      rw [this] at status
      cases status
    exact if_neg fun reached => out (closed step member other.id depends reached.2)
  · exact if_neg fun reached => reached.1 status
  · rcases cases step with same | ⟨_, _, same⟩ <;> rw [same] at status
    · exact status
    · cases status
  · rcases cases step with same | ⟨_, _, same⟩ <;> rw [same]
    · exact status
    · exact .inr rfl
  · rcases cases step with same | ⟨_, _, same⟩ <;> rw [same]

/-- The end of a run stops every step in progress. -/
theorem closeStep_rewrites {status : RunStatus} : Rewrite steps (closeStep status reason) := by
  have kept : ∀ step, step.status ≠ .pending → step.status ≠ .inProgress →
      closeStep status reason step = step := by
    intro step pending working
    refine if_neg ?_
    cases status <;> simp [unfinished, pending, working]
  have stopped : ∀ step, (closeStep status reason step).status ≠ .inProgress ∧
      ((closeStep status reason step).status = .completed → step.status = .completed) := by
    intro step
    unfold closeStep
    split_ifs with open_ ends
    · exact ⟨nofun, nofun⟩
    · exact ⟨nofun, nofun⟩
    · refine ⟨fun working => open_ ?_, id⟩
      cases status <;> simp [unfinished, working]
  refine ⟨fun step => ?_, fun step => ?_, fun step _ working => absurd working (stopped step).1,
    fun step completed => ?_, fun step => (stopped step).2, fun step settled => ?_, fun step => ?_⟩
  · unfold closeStep
    split_ifs <;> rfl
  · unfold closeStep
    split_ifs <;> rfl
  · exact kept step (by rw [completed]; exact nofun)
      (by rw [completed]; exact nofun)
  · rw [kept step]
    · exact settled
    · rintro pending
      rw [pending] at settled
      simp [PlanStepStatus.settled] at settled
    · rintro working
      rw [working] at settled
      simp [PlanStepStatus.settled] at settled
  · unfold closeStep
    split_ifs <;> rfl

/-- The steps of a version the store wrote itself. -/
theorem PlanNext.rewrites (next : PlanNext t (some plan) row) :
    validStoredConversationPlan row.plan = true ∧ keepsCompleted plan.steps row.plan.steps = true ∨
      ∃ f, Rewrite plan.steps f ∧ row.plan.steps = plan.steps.map f := by
  cases next with
  | update _ _ valid keeps => exact .inl ⟨valid, keeps⟩
  | supersede => exact .inr ⟨_, supersedeStep_rewrites (affectedSteps_closed _ _), rfl⟩
  | close closed =>
    unfold closedPlan at closed
    split at closed
    · cases closed
      exact .inr ⟨_, closeStep_rewrites, rfl⟩
    · cases closed

/-- Whoever writes the next version, it has what valid plans have and rewriting
keeps. -/
theorem PlanNext.keeps {P : List PlanStep → Prop}
    (valid : ∀ plan, validStoredConversationPlan plan = true → P plan.steps)
    (rewrites : ∀ steps f, P steps → Rewrite steps f → P (steps.map f))
    {old : Option Plan} (next : PlanNext t old row)
    (before : ∀ plan, old = some plan → P plan.steps) : P row.plan.steps := by
  cases old with
  | none =>
    cases next with
    | update _ _ checked _ => exact valid _ checked
  | some plan =>
    rcases next.rewrites with ⟨checked, -⟩ | ⟨f, rewrite, steps⟩
    · exact valid _ checked
    · rw [steps]
      exact rewrites _ f (before plan rfl) rewrite

/-- And it has every completed step as it was. -/
theorem PlanNext.completed (next : PlanNext t (some plan) row) (member : step ∈ plan.steps)
    (status : step.status = .completed) : step ∈ row.plan.steps := by
  rcases next.rewrites with ⟨-, keeps⟩ | ⟨f, rewrite, steps⟩
  · have kept := List.all_eq_true.mp keeps step member
    rw [status] at kept
    simp only [bne_self_eq_false, Bool.false_or, Bool.and_eq_true] at kept
    obtain ⟨found, there, same⟩ := List.any_eq_true.mp kept.2
    have equal := List.all_eq_true.mp kept.1 found (List.mem_filter.mpr ⟨there, same⟩)
    rwa [← eq_of_beq equal]
  · rw [steps]
    exact List.mem_map.mpr ⟨step, member, rewrite.completed step status⟩

/-! ### Every stored version -/

variable {tasks : Table Task.id} {plans : Table PlanRow.key}

namespace PlanHistory

variable {v : Nat}

section

variable (history : PlanHistory tasks plans)

include history

theorem version_pos (found : plans.get? (t, v) = some row) :
    1 ≤ v := by
  rcases history.next found with ⟨first, _⟩ | ⟨u, _, follows, _⟩ <;> omega

/-- Versions have no gaps below. -/
theorem below {u : Nat} (found : plans.get? (t, v) = some row)
    (positive : 1 ≤ u) (order : u ≤ v) : ∃ earlier, plans.get? (t, u) = some earlier := by
  induction v generalizing row with
  | zero => omega
  | succ v ih =>
    by_cases last : u = v + 1
    · exact ⟨row, last ▸ found⟩
    · rcases history.next found with ⟨first, _⟩ | ⟨v', prev, follows, before, _⟩
      · omega
      · obtain rfl : v = v' := by omega
        exact ih before (by omega)

/-- What valid plans have and rewriting keeps holds of every version, by
induction over the versions. -/
theorem every {P : List PlanStep → Prop}
    (valid : ∀ plan, validStoredConversationPlan plan = true → P plan.steps)
    (rewrites : ∀ steps f, P steps → Rewrite steps f → P (steps.map f))
    (found : plans.get? (t, v) = some row) : P row.plan.steps := by
  induction v generalizing row with
  | zero => exact absurd (history.version_pos found) (by omega)
  | succ u ih =>
    rcases history.next found with ⟨_, next⟩ | ⟨u', prev, follows, before, next⟩
    · exact next.keeps valid rewrites (fun _ none => nomatch none)
    · obtain rfl : u = u' := by omega
      refine next.keeps valid rewrites ?_
      rintro _ ⟨⟩
      exact ih before

theorem rules (found : plans.get? (t, v) = some row) : PlanRules row.plan.steps :=
  history.every (fun _ => PlanRules.of_valid) (fun _ _ => PlanRules.rewrite) found

/-- No step declares a field that `plan_update` does not know. -/
theorem declares (found : plans.get? (t, v) = some row) (member : step ∈ row.plan.steps)
    {field : AgreementField} (declared : field ∈ step.requirementFields) :
    storedPlanField field = true := by
  refine history.every (P := fun steps => ∀ step ∈ steps, ∀ field ∈ step.requirementFields,
    storedPlanField field = true) ?_ ?_ found step member field declared
  · intro plan valid step member field declared
    simp only [validStoredConversationPlan, Bool.and_eq_true] at valid
    have checked := List.all_eq_true.mp valid.1.1.1.1.2 step member
    simp only [validPlanStep, Bool.and_eq_true] at checked
    exact List.all_eq_true.mp checked.1.2 field declared
  · intro steps f known rewrite _ member field declared
    obtain ⟨step, there, rfl⟩ := List.mem_map.mp member
    exact known step there field (rewrite.fields step ▸ declared)

/-- A completed step is in every later version. -/
theorem completed {w : Nat} {later : PlanRow}
    (found : plans.get? (t, v) = some row) (found' : plans.get? (t, w) = some later) (order : v ≤ w)
    (member : step ∈ row.plan.steps) (status : step.status = .completed) :
    step ∈ later.plan.steps := by
  induction w, order using Nat.le_induction generalizing later with
  | base =>
    rw [found] at found'
    cases found'
    exact member
  | succ u order ih =>
    have positive := history.version_pos found
    rcases history.next found' with ⟨first, _⟩ | ⟨u', prev, follows, before, next⟩
    · omega
    · obtain rfl : u = u' := by omega
      exact next.completed (ih before) status

/-- A task that has its last version has versions `1` to that one. -/
theorem versions (current : Current tasks plans) {task : Task}
    (found : tasks.get? task.id = some task) (v : Nat) :
    (∃ row, plans.get? (task.id, v) = some row) ↔ 1 ≤ v ∧ v ≤ planVersion task.plan := by
  constructor
  · rintro ⟨row, stored⟩
    refine ⟨history.version_pos stored, ?_⟩
    by_contra beyond
    obtain ⟨next, taken⟩ := history.below stored (u := planVersion task.plan + 1) (by omega) (by omega)
    rw [current task.id task found] at taken
    cases taken
  · rintro ⟨positive, order⟩
    cases has : task.plan with
    | none =>
      rw [has] at order
      exact absurd order (by simp [planVersion]; omega)
    | some plan =>
      obtain ⟨client, stored⟩ := history.stored found has
      rw [has] at order
      exact history.below stored positive order

end

end PlanHistory

end DomainryAgent.Protocol
