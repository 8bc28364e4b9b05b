import DomainryAgent.AgreementSafety

/-!
What delegations of one goal owe each other, over every run of the store.

Dependencies never lead back to where they start, since the search made before
they are frozen refuses the requests that would close a cycle, and no others.  A
delivery stays accepted only as long as it is the delivery of the current
agreement.
-/

namespace DomainryAgent

open Lib Protocol Refinement Relation

variable {s : Db}

theorem links_of_reachable (reached : Reachable s) : Links s.delegations := by
  refine reached.invariant (P := fun c => Links c.delegations) (fun _ _ => .empty) ?_
  intro _ _ _ _ _ _ step _ _ inv
  exact step.links inv

theorem allCurrent_of_reachable (reached : Reachable s) : AllCurrent s.delegations := by
  refine reached.invariant (P := fun c => AllCurrent c.delegations)
    (fun _ _ => fun _ _ found => nomatch found) ?_
  intro _ _ _ _ _ _ step _ _ inv
  exact step.allCurrent inv

/-! ### Dependencies -/

/-- The dependency graph with the references of a request in the place of what
`id` depends on. -/
def Redirected (delegations : Table Delegation.id) (id : Id) (refs : List DependencyInput)
    (x y : Id) : Prop :=
  if x = id then ∃ ref ∈ refs, ref.delegationID = y else DependsOn delegations x y

/-- A request after which some delegation would depend on itself. -/
def ClosesCycle (delegations : Table Delegation.id) (id : Id) (refs : List DependencyInput) : Prop :=
  ∃ x, TransGen (Redirected delegations id refs) x x

theorem closesCycle_iff {delegations : Table Delegation.id} {id : Id} {refs : List DependencyInput}
    (acyclic : ∀ x, ¬ TransGen (DependsOn delegations) x x) :
    ClosesCycle delegations id refs ↔
      ∃ ref ∈ refs, ReflTransGen (DependsOn delegations) ref.delegationID id := by
  constructor
  · rintro ⟨x, cycle⟩
    by_contra none
    refine Search.acyclic_of_replaced (a := id) (fun y z edge => ?_) acyclic x cycle
    unfold Redirected at edge
    split at edge
    · next own =>
      obtain ⟨ref, member, rfl⟩ := edge
      exact .inr ⟨own, fun path => none ⟨ref, member, path⟩⟩
    · exact .inl edge
  · rintro ⟨ref, member, path⟩
    -- up to its end the way back does not use what `id` depends on
    have back : ReflTransGen (Redirected delegations id refs) ref.delegationID id := by
      generalize ref.delegationID = start at path ⊢
      induction path using ReflTransGen.head_induction_on with
      | refl => exact .refl
      | @head x y edge _ ih =>
        by_cases own : x = id
        · exact own ▸ .refl
        · exact .head (by rw [Redirected, if_neg own]; exact edge) ih
    have out : Redirected delegations id refs id ref.delegationID := by
      rw [Redirected, if_pos rfl]
      exact ⟨ref, member, rfl⟩
    exact ⟨id, .head' out back⟩

/-- **Acyclic dependencies.**  No delegation leads back to itself; a request that
would close a cycle freezes nothing, only such a request is refused as a cycle,
and the search for one ends before its bound does. -/
theorem dependencies_acyclic (reached : Reachable s) :
    (∀ id, ¬ TransGen (DependsOn s.delegations) id id) ∧
    ∀ (id root : Id) (refs : List DependencyInput) (a : Authority) (granted : List Id),
      (ClosesCycle s.delegations id refs →
        ∀ out, freezeTaskDependencies s id root refs a granted ≠ .ok out) ∧
      (freezeTaskDependencies s id root refs a granted = .error (conflict "dependency_cycle") →
        ClosesCycle s.delegations id refs) ∧
      ∀ target upstream fuel, s.delegations.get? target = some upstream → 1024 ≤ fuel →
        reachesDelegation s a granted id fuel upstream.dependencies [] =
          reachesDelegation s a granted id 1024 upstream.dependencies [] := by
  have links := links_of_reachable reached
  have counted := reached.wellFormed.counted
  refine ⟨links.acyclic, fun id root refs a granted => ⟨?_, ?_, ?_⟩⟩
  · intro closes out ok
    obtain ⟨ref, member, path⟩ := (closesCycle_iff links.acyclic).mp closes
    obtain ⟨_, _, frozen⟩ := freezeTaskDependencies_frozen ok
    exact (frozen ref member).forward path
  · intro refused
    obtain ⟨ref, member, path⟩ := reaches_of_cycle links counted refused
    exact (closesCycle_iff links.acyclic).mpr ⟨ref, member, path.to_reflTransGen⟩
  · intro target upstream fuel found enough
    rw [reachesDelegation_eq, reachesDelegation_eq]
    have narrow := (links.bounded counted (goalKey upstream)).narrow
    exact Search.search_fuel readDependencies_reads narrow (effort_le links found) enough

/-- A second delegation of the goal that depends on the first. -/
def dependentAdmission : Admission :=
  { sampleAdmission with
    delegationID := 5, conversationID := 6, taskID := 11, toAgentID := 7
    dependencies := [⟨3, 1, 1, [.goal]⟩] }

def dependentDelegations : List Op :=
  [.createConversation 1 none sampleUser, .createDelegation sampleAdmission sampleUser,
    .createDelegation dependentAdmission sampleUser]

/-- The first delegation may not depend on the second. -/
theorem dependent_closes_cycle :
    ClosesCycle (afterOps dependentDelegations).delegations 3 [⟨5, 1, 1, [.goal]⟩] ∧
      ¬ TransGen (DependsOn (afterOps dependentDelegations).delegations) 5 5 := by
  have safe := dependencies_acyclic (reachable_afterOps dependentDelegations)
  have refused : freezeTaskDependencies (afterOps dependentDelegations) 3 1 [⟨5, 1, 1, [.goal]⟩]
      sampleUser [] = .error (conflict "dependency_cycle") := by
    decide +kernel
  exact ⟨(safe.2 3 1 _ sampleUser []).2.1 refused, safe.1 5⟩

/-! ### Accepted deliveries -/

/-- **Accepted deliveries are current.**  A delivery is accepted only if it was
made for the current brief and agreement, no change is pending, it was verified
as ready and no disagreement blocks it; an operation that leaves one of these
broken has moved the delegation out of that status. -/
theorem accepted_deliveries_current (reached : Reachable s) :
    (∀ d ∈ s.delegations.rows, d.status = .acceptedDelivery → CurrentDelivery d) ∧
    ∀ op, ∀ d ∈ (s.step op).delegations.rows, ¬ CurrentDelivery d →
      d.status ≠ .acceptedDelivery := by
  have current : ∀ u, Reachable u → ∀ d ∈ u.delegations.rows, d.status = .acceptedDelivery →
      CurrentDelivery d := by
    intro u reached d member accepted
    exact allCurrent_of_reachable reached d.id d (Table.get?_of_mem member) accepted
  refine ⟨current s reached, fun op d member broken accepted => broken ?_⟩
  obtain ⟨now, limits, reached⟩ := reached
  exact current _ ⟨now, limits, reached.step op trivial⟩ d member accepted

/-- The run of a delegation ends, and what it delivers is accepted. -/
def acceptedDelegation : List Op :=
  launchedDelegation ++
    [.finish delegatedClaim "done" "" true,
      sampleUpdate (.deliver ⟨1, 1, 0⟩ (.judged true)) 3,
      sampleUpdate (.acceptDelivery (some ⟨⟨1, 1, 0⟩, .judged true⟩)) 4]

theorem accepted_delegation_current :
    ∃ d ∈ (afterOps acceptedDelegation).delegations.rows, d.status = .acceptedDelivery ∧
      CurrentDelivery d := by
  obtain ⟨d, member, status⟩ : ∃ d ∈ (afterOps acceptedDelegation).delegations.rows,
      d.status = .acceptedDelivery := by decide +kernel
  exact ⟨d, member, status,
    (accepted_deliveries_current (reachable_afterOps acceptedDelegation)).1 d member status⟩

end DomainryAgent
