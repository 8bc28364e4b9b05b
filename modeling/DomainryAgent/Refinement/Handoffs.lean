import DomainryAgent.Refinement.Dependencies

/-!
What a handoff is prepared from: the runs of every assignment of a delegation.

A preparation passes only when all of them have ended, worked for their
assignment and left no write open, and then it hands on the writes they made
(`prepareDelegationHandoff_hands`).  At most 128 runs are handed over, so the
limit of what is read of an assignment is never met.
-/

namespace DomainryAgent.Refinement

open Lib Protocol

variable {s : Db} {d : Delegation} {assignment : Assignment} {row : RunRow}

/-- A traversal passes when each of its items does. -/
theorem mapM_passes {α : Type} {items : List α} {f : α → Except Error Unit} {out : List Unit}
    (passed : items.mapM f = .ok out) : ∀ item ∈ items, f item = .ok () := by
  induction items generalizing out with
  | nil => exact fun _ none => nomatch none
  | cons first rest ih =>
    rw [List.mapM_cons] at passed
    obtain ⟨_, head, passed⟩ := except_bind_ok passed
    obtain ⟨_, tail, _⟩ := except_bind_ok passed
    intro item member
    rcases List.mem_cons.mp member with rfl | later
    · exact head
    · exact ih tail item later

/-- A run that leaves nothing open. -/
theorem runSettled_settles {before : Nat}
    (settled : runSettled s d assignment row before = .ok ()) :
    row.run.status.terminal = true ∧ before < 128 ∧
      (∃ b, row.run.background = some b ∧ b.delegationID = some d.id ∧
        b.taskID = assignment.taskID) ∧
      ∀ call ∈ s.tools.rows, call.runID = row.run.id → call.reusedFrom = none →
        unsettledWrite call = false := by
  obtain ⟨ended, settled⟩ := except_ite_ok settled
  obtain ⟨room, settled⟩ := except_ite_ok settled
  obtain ⟨worked, settled⟩ := except_ite_ok settled
  obtain ⟨closed, _⟩ := except_ite_ok settled
  refine ⟨by simpa using ended, by omega, ?_, fun call stored run own => ?_⟩
  · obtain ⟨b, background, works⟩ := (Option.any_eq_true _ _).mp (by simpa using worked)
    simp only [Bool.and_eq_true, beq_iff_eq] at works
    exact ⟨b, background, works.1, works.2⟩
  · by_contra unsettled
    rw [Bool.not_eq_false] at unsettled
    refine closed (List.any_eq_true.mpr ⟨call, stored, ?_⟩)
    simp [run, own, unsettled]

theorem mem_assignmentRuns : row ∈ assignmentRuns s assignment ↔ row ∈ s.runs.rows ∧
    row.run.conversationID = assignment.conversationID ∧
      conversationOwner row.authority = conversationOwner assignment.executor := by
  simp [assignmentRuns]

/-- When few runs are handed over, all of them are. -/
theorem mem_handoffRuns (few : (handoffRuns s d).length ≤ 128) :
    (assignment, row) ∈ handoffRuns s d ↔ AssignmentRun s.toCore d assignment row := by
  have read : ∀ a ∈ conversationAssignments s.toCore d,
      (assignmentRuns s a).take 129 = assignmentRuns s a := by
    intro a member
    apply List.take_of_length_le
    have within : (((assignmentRuns s a).take 129).map (a, ·)).length ≤
        (handoffRuns s d).length := by
      apply List.Sublist.length_le
      rw [handoffRuns, List.flatMap_def]
      exact List.sublist_flatten_of_mem (List.mem_map_of_mem member)
    rw [List.length_map, List.length_take] at within
    omega
  simp only [handoffRuns, List.mem_flatMap, List.mem_map, Prod.mk.injEq, AssignmentRun]
  constructor
  · rintro ⟨_, member, _, taken, rfl, rfl⟩
    exact ⟨member, mem_assignmentRuns.mp (List.mem_of_mem_take taken)⟩
  · rintro ⟨member, runs⟩
    refine ⟨assignment, member, row, ?_, rfl, rfl⟩
    rw [read assignment member]
    exact mem_assignmentRuns.mpr runs

theorem prepareDelegationHandoff_hands {handoff : Handoff}
    (prepared : prepareDelegationHandoff s d = .ok handoff) : HandedOver s.toCore d handoff := by
  obtain ⟨_, passed, made⟩ := except_bind_ok prepared
  cases made
  have settled : ∀ item index, (item, index) ∈ (handoffRuns s d).zipIdx →
      runSettled s d item.1 item.2 index = .ok () :=
    fun item index member => mapM_passes passed (item, index) member
  -- The run at position 128 would not have passed.
  have few : (handoffRuns s d).length ≤ 128 := by
    by_contra many
    obtain ⟨item, at_limit⟩ : ∃ item, (handoffRuns s d)[128]? = some item :=
      ⟨_, List.getElem?_eq_getElem (by omega)⟩
    have member := List.mk_mem_zipIdx_iff_getElem?.mpr at_limit
    have room := (runSettled_settles (settled item 128 member)).2.1
    omega
  have each : ∀ a row, AssignmentRun s.toCore d a row → ∃ index,
      runSettled s d a row index = .ok () := by
    intro a row runs
    obtain ⟨index, found⟩ := List.getElem?_of_mem ((mem_handoffRuns few).mpr runs)
    exact ⟨index, settled (a, row) index (List.mk_mem_zipIdx_iff_getElem?.mpr found)⟩
  refine ⟨fun a row runs => ?_, fun a row runs => ?_, fun a row call runs stored run own => ?_,
    fun effect => ?_⟩
  · obtain ⟨_, settled⟩ := each a row runs
    exact (runSettled_settles settled).1
  · obtain ⟨_, settled⟩ := each a row runs
    exact (runSettled_settles settled).2.2.1
  · obtain ⟨_, settled⟩ := each a row runs
    exact (runSettled_settles settled).2.2.2 call stored run own
  · simp only [List.mem_flatMap, runEffects, List.mem_filterMap, List.mem_insertionSort,
      List.mem_filter, decide_eq_true_eq, and_assoc, Prod.exists]
    constructor
    · rintro ⟨a, row, runs, call, stored, run, made⟩
      exact ⟨a, row, call, (mem_handoffRuns few).mp runs, stored, run, made⟩
    · rintro ⟨a, row, call, runs, stored, run, made⟩
      exact ⟨a, row, (mem_handoffRuns few).mpr runs, call, stored, run, made⟩

end DomainryAgent.Refinement
