import DomainryAgent.Collaboration

/-!
Whom a change of a delegation reaches.

A dependency freezes the fields of the upstream agreement it names, and is out of
date when their projection is another.  A change goes from there along the
dependencies of the goal; the sweep marks the least set that is closed under them,
and nothing else is touched.
-/

namespace DomainryAgent

open Lib Tx Table Protocol Refinement Relation

/-- A delegation that still takes part. -/
abbrev TakesPart (d : Delegation) : Prop := d.status ≠ .cancelled ∧ d.status ≠ .rejected

/-- What a change of `origin` marks: the dependents whose projection of it is out
of date, or all of them when its own dependencies changed or the subject that
executes it has left, and then whatever depends on those. -/
inductive Marked (delegations : Table Delegation.id) (origin : Delegation)
    (fields : List AgreementField) : Id → Prop
  | direct {d : Delegation} (found : delegations.get? d.id = some d) (takesPart : TakesPart d)
      {edge : Dependency} (member : edge ∈ d.dependencies)
      (upstream : edge.reference.delegationID = origin.id)
      (stale : origin.subjectExited = true ∨
        dependencyProjection origin.brief origin.structuredInput edge.reference.fields ≠
          some edge.values ∨ fields = [.dependencies]) : Marked delegations origin fields d.id
  | via {v : Id} {d : Delegation} (marked : Marked delegations origin fields v)
      (found : delegations.get? d.id = some d) (takesPart : TakesPart d)
      (depends : ∃ edge ∈ d.dependencies, edge.reference.delegationID = v) :
      Marked delegations origin fields d.id

section Propagation

variable {s t u : Db} {origin d : Delegation} {fields : List AgreementField} {a : Authority}
  {items rest : List Delegation} {n : Nat} {changed queue : List Id} {via v : Id}

theorem Marked.downstream (marked : Marked s.delegations origin fields v) :
    TransGen (DependsOn s.delegations) v origin.id := by
  induction marked with
  | direct found _ member upstream _ =>
    exact .single ((dependsOn_of_get? found).mpr ⟨_, member, upstream⟩)
  | via _ found _ depends ih => exact .head ((dependsOn_of_get? found).mpr depends) ih

/-- What depends on a delegation works for the same goal. -/
theorem goal_of_downstream (links : Links s.delegations)
    (stored : s.delegations.get? origin.id = some origin)
    (path : ReflTransGen (DependsOn s.delegations) v origin.id)
    (found : s.delegations.get? v = some d) : goalKey d = goalKey origin := by
  induction path using ReflTransGen.head_induction_on generalizing d with
  | refl =>
    cases stored.symm.trans found
    rfl
  | head edge _ ih =>
    obtain ⟨_, member, rfl⟩ := (dependsOn_of_get? found).mp edge
    obtain ⟨upstream, there, goal⟩ := links.inside _ d found _ member
    exact goal.symm.trans (ih there)

/-- Where the sweep is after `n` rounds. -/
structure Sweep (s : Db) (origin : Delegation) (fields : List AgreementField)
    (items : List Delegation) (n : Nat) (changed queue : List Id) (t : Db) : Prop where
  sane : Sane (fun _ => True) False t.toCore
  rounds : changed.length = queue.length + n
  distinct : changed.Nodup
  within : changed ⊆ origin.id :: items.map (·.id)
  source : origin.id ∈ changed
  queued : queue ⊆ changed
  kept : ∀ v, v ∉ changed ∨ v = origin.id → t.delegations.get? v = s.delegations.get? v
  marked : ∀ v ∈ changed, v ≠ origin.id → Marked s.delegations origin fields v ∧ ∃ via d,
    s.delegations.get? v = some d ∧ t.delegations.get? v = some (invalidated origin fields via d)
  closed : ∀ v ∈ changed, v ∉ queue → ∀ d ∈ items, TakesPart d →
    changeReaches origin fields v d = true → d.id ∈ changed

/-- Marking one more delegation that the change reaches through `via`. -/
theorem Sweep.mark (sweep : Sweep s origin fields items n changed queue t)
    (stored : s.delegations.get? d.id = some d) (member : d ∈ items) (fresh : d.id ∉ changed)
    (takesPart : TakesPart d) (before : via ∈ queue)
    (reaches : changeReaches origin fields via d = true)
    (moves : Moves (fun _ => True) t.toCore u.toCore)
    (saved : u.delegations = t.delegations.put (invalidated origin fields via d)) :
    Sweep s origin fields items n (d.id :: changed) (queue ++ [d.id]) u := by
  have found : t.delegations.get? d.id = some d := (sweep.kept d.id (.inl fresh)).trans stored
  have other : ∀ v, v ≠ d.id → u.delegations.get? v = t.delegations.get? v := by
    intro v apart
    rw [saved]
    exact get?_put_of_ne apart
  have marked : Marked s.delegations origin fields d.id := by
    obtain ⟨edge, inside, upstream, stale⟩ := changeReaches_iff.mp reaches
    by_cases direct : via = origin.id
    · exact .direct stored takesPart inside (upstream.trans direct) (stale direct)
    · exact .via (sweep.marked via (sweep.queued before) direct).1 stored takesPart
        ⟨edge, inside, upstream⟩
  refine
    { sane := sweep.sane.steps moves.steps, rounds := by simp [sweep.rounds]; omega
      distinct := List.nodup_cons.mpr ⟨fresh, sweep.distinct⟩
      within := List.cons_subset.mpr
        ⟨List.mem_cons_of_mem _ (List.mem_map_of_mem member), sweep.within⟩
      source := List.mem_cons_of_mem _ sweep.source
      queued := ?_, kept := fun v out => ?_, marked := fun v among apart => ?_
      closed := fun v among unqueued e item takes hit => ?_ }
  · simp [List.append_subset, sweep.queued]
  · have apart : v ≠ d.id := by
      rintro rfl
      rcases out with out | same
      · exact out List.mem_cons_self
      · exact fresh (same ▸ sweep.source)
    rw [other v apart]
    exact sweep.kept v (out.imp_left fun out among => out (List.mem_cons_of_mem _ among))
  · by_cases same : v = d.id
    · subst same
      refine ⟨marked, via, d, stored, ?_⟩
      rw [saved]
      exact get?_put_at found rfl
    · obtain ⟨here, via', e, before, after⟩ :=
        sweep.marked v ((List.mem_cons.mp among).resolve_left same) apart
      exact ⟨here, via', e, before, (other v same).trans after⟩
  · have apart : v ≠ d.id := by
      rintro rfl
      exact unqueued (by simp)
    exact List.mem_cons_of_mem _ (sweep.closed v ((List.mem_cons.mp among).resolve_left apart)
      (fun inside => unqueued (List.mem_append_left _ inside)) e item takes hit)

/-- One pass marks whatever the change reaches through `via`. -/
theorem propagateVia_sweeps (stored : ∀ d ∈ items, s.delegations.get? d.id = some d)
    (inside : rest ⊆ items) (sweep : Sweep s origin fields items n changed (via :: queue) t) :
    (propagateVia origin fields via a rest changed queue).Ensures t (fun out u =>
      Sweep s origin fields items n out.1 (via :: out.2) u ∧ changed ⊆ out.1 ∧
        ∀ d ∈ rest, TakesPart d → changeReaches origin fields via d = true → d.id ∈ out.1) := by
  induction rest generalizing t changed queue with
  | nil =>
    unfold propagateVia
    exact ensures_pure.mpr ⟨sweep, List.Subset.refl _, List.forall_mem_nil _⟩
  | cons d rest ih =>
    obtain ⟨member, later⟩ := List.cons_subset.mp inside
    unfold propagateVia
    refine ensures_ite.mpr ⟨fun skipped => ?_, fun chosen => ?_⟩
    · refine (ih later sweep).mono ?_
      rintro out u ⟨swept, grows, reached⟩
      refine ⟨swept, grows, List.forall_mem_cons.mpr ⟨fun takes hit => ?_, reached⟩⟩
      rcases skipped with among | cancelled | rejected | missed
      · exact grows among
      · exact absurd cancelled takes.1
      · exact absurd rejected takes.2
      · rw [missed] at hit
        cases hit
    · simp only [not_or, Bool.not_eq_false] at chosen
      obtain ⟨fresh, live, live', reaches⟩ := chosen
      have found := (sweep.kept d.id (.inl fresh)).trans (stored d member)
      refine ensures_bind.mpr ((invalidate_follows sweep.sane found
        ⟨trivial, fun _ => trivial, fun _ => trivial⟩).1.mono ?_)
      rintro _ u ⟨moves, -, saved⟩
      have marked := sweep.mark (stored d member) member fresh ⟨live, live'⟩ List.mem_cons_self
        reaches moves saved
      refine (ih later marked).mono ?_
      rintro out w ⟨swept, grows, reached⟩
      obtain ⟨here, grows⟩ := List.cons_subset.mp grows
      exact ⟨swept, grows, List.forall_mem_cons.mpr ⟨fun _ _ => here, reached⟩⟩

/-- The rounds the loop has are enough to come to the end of its queue. -/
theorem propagateLoop_sweeps {fuel : Nat}
    (stored : ∀ d ∈ items, s.delegations.get? d.id = some d) (enough : n + fuel = items.length + 1)
    (sweep : Sweep s origin fields items n changed queue t) :
    (propagateLoop origin fields a items fuel changed queue).Ensures t (fun _ u =>
      ∃ n changed, Sweep s origin fields items n changed [] u) := by
  induction fuel generalizing t n changed queue with
  | zero =>
    cases queue with
    | nil => exact ensures_pure.mpr ⟨n, changed, sweep⟩
    | cons via queue =>
      have few := (sweep.distinct.subperm sweep.within).length_le
      have rounds := sweep.rounds
      simp only [List.length_cons, List.length_map] at few rounds
      omega
  | succ fuel ih =>
    cases queue with
    | nil => exact ensures_pure.mpr ⟨n, changed, sweep⟩
    | cons via queue =>
      refine ensures_bind.mpr
        ((propagateVia_sweeps stored (List.Subset.refl _) sweep).mono ?_)
      rintro ⟨changed', queue'⟩ u ⟨swept, -, reached⟩
      refine ih (n := n + 1) (by omega) { swept with
        rounds := by rw [swept.rounds, List.length_cons, Nat.succ_add_eq_add_succ]
        queued := (List.cons_subset.mp swept.queued).2
        closed := fun v among unqueued d item takes hit => ?_ }
      by_cases through : v = via
      · exact reached d item takes (through ▸ hit)
      · exact swept.closed v among (by simp [through, unqueued]) d item takes hit

/-- A dependent of a goal's delegation is among the delegations of the goal. -/
theorem mem_goal (links : Links s.delegations)
    (stored : s.delegations.get? origin.id = some origin) (here : origin.InWorkspace a)
    (marked : Marked s.delegations origin fields d.id)
    (found : s.delegations.get? d.id = some d) :
    d ∈ dependencyGoalDelegations s origin.rootConversationID a := by
  have goal := goal_of_downstream links stored marked.downstream.to_reflTransGen found
  simp only [goalKey, LedgerKey.mk.injEq, here.1, here.2] at goal
  refine (List.mem_insertionSort _).mpr (List.mem_filter.mpr ⟨mem_of_get? found, ?_⟩)
  simp [goal]

/-- When the queue is empty, all that is to be marked is. -/
theorem Sweep.complete (links : Links s.delegations)
    (stored : s.delegations.get? origin.id = some origin) (here : origin.InWorkspace a)
    (sweep : Sweep s origin fields (dependencyGoalDelegations s origin.rootConversationID a) n
      changed [] t) (marked : Marked s.delegations origin fields v) : v ∈ changed := by
  induction marked with
  | direct found takesPart member upstream stale =>
    refine sweep.closed _ sweep.source List.not_mem_nil _
      (mem_goal links stored here (.direct found takesPart member upstream stale) found) takesPart ?_
    exact changeReaches_iff.mpr ⟨_, member, upstream, fun _ => stale⟩
  | via marked found takesPart depends ih =>
    refine sweep.closed _ ih List.not_mem_nil _
      (mem_goal links stored here (.via marked found takesPart depends) found) takesPart ?_
    obtain ⟨edge, member, upstream⟩ := depends
    refine changeReaches_iff.mpr ⟨edge, member, upstream, fun back => ?_⟩
    exact absurd (back ▸ marked.downstream) (links.acyclic _)

/-- The fields that some changes name for a source. -/
def NamedBy (changes : List RequirementChange) (source : Id) (field : AgreementField) : Prop :=
  ∃ change ∈ changes, change.sourceDelegationID = source ∧ field ∈ change.changedFields

/-- Merging keeps the changes of other sources and makes one of the rest. -/
theorem mergePending_eq (pending : List RequirementChange) (change : RequirementChange) :
    ∃ merged, mergePending pending change =
        pending.filter (·.sourceDelegationID ≠ change.sourceDelegationID) ++ [merged] ∧
      merged.sourceDelegationID = change.sourceDelegationID ∧
      ∀ field, field ∈ merged.changedFields ↔ field ∈ change.changedFields ∨
        NamedBy pending change.sourceDelegationID field := by
  refine ⟨_, rfl, rfl, fun field => ?_⟩
  dsimp only
  split
  · next none => simp_all [NamedBy]
  · simp [NamedBy, mergeRequirementFields, mem_sortedFields]

theorem namedBy_foldl {pending earlier : List RequirementChange} {source : Id}
    {field : AgreementField} : NamedBy (earlier.foldl mergePending pending) source field ↔
      NamedBy pending source field ∨ NamedBy earlier source field := by
  induction earlier generalizing pending with
  | nil => simp [NamedBy]
  | cons change earlier ih =>
    obtain ⟨merged, eq, own, names⟩ := mergePending_eq pending change
    rw [List.foldl_cons, ih, eq]
    grind [NamedBy]

/-- **Propagation.**  A change marks exactly the least set of delegations that has
the dependents of its source that are out of date, or all of them when its own
dependencies changed or its subject has left, and is closed under dependents,
without those that were cancelled or rejected.  A marked one has one pending
change of that source, with the fields of all its changes since the agreement was
last taken up; the others are as they were. -/
theorem propagation_exact (wf : WellFormed s) (links : Links s.delegations)
    (stored : s.delegations.get? origin.id = some origin) (here : origin.InWorkspace a) :
    (propagateRequirementChange origin fields a).Ensures s (fun _ t => ∀ id,
      (Marked s.delegations origin fields id → ∃ d via change, s.delegations.get? id = some d ∧
        t.delegations.get? id = some (invalidated origin fields via d) ∧
        (invalidated origin fields via d).pendingChanges.filter
          (·.sourceDelegationID = origin.id) = [change] ∧
        ∀ earlier, d.pendingChanges = earlier.foldl mergePending [] → ∀ field,
          field ∈ change.changedFields ↔ field ∈ fields ∨ NamedBy earlier origin.id field) ∧
      (¬Marked s.delegations origin fields id →
        t.delegations.get? id = s.delegations.get? id)) := by
  have start : Sweep s origin fields (dependencyGoalDelegations s origin.rootConversationID a) 0
      [origin.id] [origin.id] s :=
    { sane := ⟨wf.routed, wf.history, nofun⟩, rounds := rfl, distinct := List.nodup_singleton _
      within := by simp, source := List.mem_cons_self, queued := List.Subset.refl _
      kept := fun _ _ => rfl
      marked := fun v among apart => absurd (List.mem_singleton.mp among) apart
      closed := fun v among unqueued => absurd among unqueued }
  have rows : ∀ d ∈ dependencyGoalDelegations s origin.rootConversationID a,
      s.delegations.get? d.id = some d := fun d member =>
    get?_of_mem (List.mem_filter.mp ((List.mem_insertionSort _).mp member)).1
  simp only [propagateRequirementChange, wp]
  refine (propagateLoop_sweeps rows (Nat.zero_add _) start).mono ?_
  rintro _ t ⟨n, changed, sweep⟩ id
  refine ⟨fun marked => ?_, fun unmarked => sweep.kept id ?_⟩
  · have apart : id ≠ origin.id := by
      rintro rfl
      exact links.acyclic _ marked.downstream
    obtain ⟨-, via, d, before, after⟩ :=
      sweep.marked id (sweep.complete links stored here marked) apart
    obtain ⟨merged, eq, own, names⟩ := mergePending_eq d.pendingChanges
      { sourceDelegationID := origin.id, sourceBriefVersion := origin.brief.version
        sourceAgreementRevision := origin.agreementRevision, viaDelegationID := some via
        changedFields := fields }
    refine ⟨d, via, merged, before, after, ?_, fun earlier since field => ?_⟩
    · simp [invalidated, eq, own]
    · rw [names, since, namedBy_foldl]
      simp [NamedBy]
  · by_cases among : id ∈ changed
    · exact .inr (by_contra fun apart => unmarked (sweep.marked id among apart).1)
    · exact .inl among

theorem propagation_marks_dependent :
    ∃ origin ∈ (afterOps dependentDelegations).delegations.rows, ∃ t,
      propagateRequirementChange origin [.dependencies] sampleUser (afterOps dependentDelegations) =
        .ok ((), t) ∧ ∃ d, t.delegations.get? 5 = some d ∧ d.status = .needsUpdate := by
  have reached := reachable_afterOps dependentDelegations
  obtain ⟨origin, member, here, ok, d, listed, five, takesPart, edge, depends, upstream⟩ :
      ∃ origin ∈ (afterOps dependentDelegations).delegations.rows,
        (origin.owner.runtimeID = sampleUser.runtimeID ∧
          origin.owner.workspaceID = sampleUser.workspaceID) ∧
        (propagateRequirementChange origin [.dependencies] sampleUser
          (afterOps dependentDelegations)).isOk = true ∧
        ∃ d ∈ (afterOps dependentDelegations).delegations.rows, d.id = 5 ∧ TakesPart d ∧
          ∃ edge ∈ d.dependencies, edge.reference.delegationID = origin.id := by
    decide +kernel
  cases ran : propagateRequirementChange origin [.dependencies] sampleUser
      (afterOps dependentDelegations) with
  | error e =>
    rw [ran] at ok
    cases ok
  | ok out =>
    obtain ⟨_, _, _, _, after, _⟩ := (propagation_exact reached.wellFormed
      (links_of_reachable reached) (get?_of_mem member) here _ _ ran d.id).1
        (.direct (get?_of_mem listed) takesPart depends upstream (.inr (.inr rfl)))
    exact ⟨origin, member, out.2, ran, _, five ▸ after, rfl⟩

/-- A delegation whose own dependencies are set again marks a dependent that is
not out of date. -/
theorem dependency_change_marks_current :
    ∃ s, Reachable s ∧ ∃ origin ∈ s.delegations.rows, ∃ d ∈ s.delegations.rows,
      d.status = .needsUpdate ∧ d.dependencies ≠ [] ∧ ∀ edge ∈ d.dependencies,
        edge.reference.delegationID = origin.id ∧
        dependencyProjection origin.brief origin.structuredInput edge.reference.fields =
          some edge.values := by
  refine ⟨_, reachable_afterOps (dependentDelegations ++ [sampleUpdate (.setDependencies []) 1]), ?_⟩
  decide +kernel

end Propagation

end DomainryAgent
