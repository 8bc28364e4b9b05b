import DomainryAgent.Protocol.Dependencies
import DomainryAgent.Refinement.Runs

/-!
Freezing dependencies.  The walk of `reachesDelegation` is a breadth-first
search of the dependency graph, as far as the caller may view it; what passes it
is linked (`freezeTaskDependencies_linked`), and what it refuses as a cycle would
have closed one (`reaches_of_cycle`).
-/

namespace DomainryAgent.Refinement

open Lib Tx Protocol Relation

variable {s : Db} {id root : Id} {a : Authority} {granted : List Id}

/-! ### Who may view a delegation -/

theorem participantDelegation_found {manager : Bool} :
    (participantDelegation id a manager).Ensures s
      (fun d s' => s' = s ∧ s.delegations.get? id = some d ∧ d.InWorkspace a) := by
  unfold participantDelegation
  refine ensures_ite.mpr ⟨fun _ => ?_, fun _ => conversationDelegation_found⟩
  simp only [wp, ensures_conversationAuthority]
  exact fun _ d found workspace => ⟨trivial, found, workspace⟩

variable {d : Delegation} {refs : List DependencyInput} {out : List Dependency}

/-- A delegation the caller depends on is a stored one of the workspace. -/
theorem dependencyDelegation_found (visible : (dependencyDelegation id a granted).peek s = .ok d) :
    s.delegations.get? id = some d ∧ d.InWorkspace a := by
  have found : ∀ {s : Db}, (dependencyDelegation id a granted).Ensures s
      (fun d s' => s' = s ∧ s.delegations.get? id = some d ∧ d.InWorkspace a) := by
    intro s
    simp only [dependencyDelegation, wp]
    exact participantDelegation_found.mono fun _ _ found _ => found
  exact (found.peek (fun _ => found.mono fun _ _ found => found.1) visible).2

theorem delegationSubjects_throws :
    (delegationSubjects id a).Throws s (fun e => e.cls ≠ .conflict) := by
  simp only [delegationSubjects, wpe, wp, true_and]
  split
  · simp
  · simp [forbidden]

variable {e : Error} {α β : Type} {ref : DependencyInput} {seen : List Id}

/-- Not to see a delegation is no conflict. -/
theorem dependencyDelegation_throws (failed : (dependencyDelegation id a granted).peek s = .error e)
    (code : String) : e ≠ conflict code := by
  have throws : (dependencyDelegation id a granted).Throws s (fun e => e.cls ≠ .conflict) := by
    simp only [dependencyDelegation, wpe, wp]
    refine ⟨?_, Tx.ensures_true.mono fun _ _ _ => by simp [forbidden]⟩
    unfold participantDelegation
    refine throws_ite.mpr ⟨fun _ => ?_, fun _ => ?_⟩
    · simp [conversationAuthority, forbidden, notFound]
    · simp only [conversationDelegation, conversationAuthority, wpe, wp, true_and]
      refine ⟨fun _ => by simp [forbidden], fun _ => ?_⟩
      split
      · simp
      · simp [executionDelegation, delegationSubjects_throws, ownedConversationDelegation,
          (readOnly_delegationSubjects id a).ensures, conversationAuthority, forbidden, notFound]
  intro same
  exact throws_peek throws failed (congrArg Error.cls same)

/-! ### The walk as a search -/

/-- The out-edges of a delegation, as the caller reads them. -/
def readDependencies (s : Db) (a : Authority) (granted : List Id) (id : Id) :
    Except Error (List Id) :=
  ((dependencyDelegation id a granted).peek s).map
    (fun d => d.dependencies.map (·.reference.delegationID))

theorem readDependencies_reads (x : Id) (ds : List Id)
    (read : readDependencies s a granted x = .ok ds) :
    dependenciesOf s.delegations x = some ds := by
  unfold readDependencies at read
  cases visible : (dependencyDelegation x a granted).peek s with
  | error e => rw [visible] at read; cases read
  | ok d =>
    rw [visible] at read
    cases read
    rw [dependenciesOf, (dependencyDelegation_found visible).1]
    rfl

theorem readDependencies_fails (x : Id) (e : Error)
    (read : readDependencies s a granted x = .error e) : e ≠ conflict "dependency_cycle" := by
  unfold readDependencies at read
  cases visible : (dependencyDelegation x a granted).peek s with
  | error e => rw [visible] at read; cases read; exact dependencyDelegation_throws visible _
  | ok d => rw [visible] at read; cases read

theorem reachesDelegation_eq {fuel : Nat} {queue : List Dependency} {visited : List Id} :
    reachesDelegation s a granted id fuel queue visited =
      Search.search (readDependencies s a granted) (conflict "dependency_cycle") id 32 fuel
        (queue.map (·.reference.delegationID)) visited := by
  induction fuel generalizing queue visited with
  | zero => cases queue <;> rfl
  | succ fuel ih =>
    cases queue with
    | nil => rfl
    | cons edge rest =>
      simp only [reachesDelegation, Search.search, List.map_cons, ih, List.map_append]
      congr 1
      congr 1
      congr 1
      unfold readDependencies
      cases (dependencyDelegation edge.reference.delegationID a granted).peek s <;> rfl

/-! ### What is frozen -/

/-- A reference that may be depended on: to another delegation of the goal that
does not lead back. -/
structure Frozen (s : Db) (id root : Id) (a : Authority) (target : Id) : Prop where
  found : ∃ upstream, s.delegations.get? target = some upstream ∧
    goalKey upstream = ledgerKey root a
  forward : ¬ ReflTransGen (DependsOn s.delegations) target id

theorem freezeDependency_frozen {out : Dependency} (other : ref.delegationID ≠ id)
    (ok : freezeDependency s id root a granted ref = .ok out) :
    Frozen s id root a ref.delegationID ∧ out.reference.delegationID = ref.delegationID := by
  obtain ⟨upstream, visible, ok⟩ := except_bind_ok ok
  obtain ⟨found, workspace⟩ := dependencyDelegation_found visible
  obtain ⟨goal, ok⟩ := except_ite_ok ok
  obtain ⟨_, ok⟩ := except_ite_ok ok
  obtain ⟨_, ok⟩ := except_ite_ok ok
  split at ok
  · cases ok
  · obtain ⟨_, passed, ok⟩ := except_bind_ok ok
    cases ok
    rw [reachesDelegation_eq] at passed
    have forward := Search.forward_of_search readDependencies_reads passed
    have key : goalKey upstream = ledgerKey root a := by
      rw [goalKey_of_workspace workspace, not_not.mp goal]
    refine ⟨⟨⟨upstream, found, key⟩, fun path => ?_⟩, rfl⟩
    -- the first edge of a way back leads to where the walk started
    rcases ReflTransGen.cases_head path with here | ⟨next, edge, rest⟩
    · exact other here
    · obtain ⟨dep, member, rfl⟩ := (dependsOn_of_get? found).mp edge
      exact forward _ (List.mem_map_of_mem member) rest

theorem freezeReferences_frozen (ok : freezeReferences s id root a granted refs seen = .ok out) :
    out.map (·.reference.delegationID) = refs.map (·.delegationID) ∧
      ∀ ref ∈ refs, Frozen s id root a ref.delegationID := by
  induction refs generalizing seen out with
  | nil => cases ok; exact ⟨rfl, by simp⟩
  | cons ref rest ih =>
    obtain ⟨fresh, ok⟩ := except_ite_ok ok
    obtain ⟨first, frozen, ok⟩ := except_bind_ok ok
    obtain ⟨others, more, ok⟩ := except_bind_ok ok
    cases ok
    obtain ⟨this, target⟩ := freezeDependency_frozen (fun same => fresh (.inl same)) frozen
    obtain ⟨targets, those⟩ := ih more
    exact ⟨by simp only [List.map_cons, target, targets], List.forall_mem_cons.mpr ⟨this, those⟩⟩

/-- What a passed request freezes: its references, none of which leads back. -/
theorem freezeTaskDependencies_frozen
    (ok : freezeTaskDependencies s id root refs a granted = .ok out) :
    out.length ≤ 16 ∧ (∀ edge ∈ out, ∃ ref ∈ refs,
      edge.reference.delegationID = ref.delegationID) ∧
      ∀ ref ∈ refs, Frozen s id root a ref.delegationID := by
  obtain ⟨small, ok⟩ := except_ite_ok ok
  obtain ⟨frozen, passed, ok⟩ := except_bind_ok ok
  cases ok
  obtain ⟨targets, each⟩ := freezeReferences_frozen passed
  have lengths : frozen.length = refs.length := by
    simpa only [List.length_map] using congrArg List.length targets
  refine ⟨?_, fun edge member => ?_, each⟩
  · rw [List.length_insertionSort, lengths]
    exact Nat.not_lt.mp small
  · have inside := List.mem_map_of_mem (f := (·.reference.delegationID))
      ((List.mem_insertionSort _).mp member)
    rw [targets] at inside
    obtain ⟨ref, given, same⟩ := List.mem_map.mp inside
    exact ⟨ref, given, same.symm⟩

/-- Frozen dependencies link the delegation that gets them. -/
theorem freezeTaskDependencies_linked
    (ok : freezeTaskDependencies s d.id root refs a granted = .ok out)
    (dependencies : d.dependencies = out) (goal : goalKey d = ledgerKey root a) :
    Linked s.delegations d := by
  obtain ⟨few, given, frozen⟩ := freezeTaskDependencies_frozen ok
  subst dependencies
  refine ⟨few, fun edge member => ?_, fun edge member => ?_⟩
  · obtain ⟨ref, there, same⟩ := given edge member
    obtain ⟨upstream, found, key⟩ := (frozen ref there).found
    exact ⟨upstream, same ▸ found, key.trans goal.symm⟩
  · obtain ⟨ref, there, same⟩ := given edge member
    exact same ▸ (frozen ref there).forward

theorem resumeDependencyReferences_linked {next : Delegation}
    {given : Option (List DependencyInput)}
    (ok : resumeDependencyReferences s d given a granted = .ok out) (same : next.id = d.id)
    (dependencies : next.dependencies = out)
    (goal : goalKey next = ledgerKey d.rootConversationID a) : Linked s.delegations next := by
  unfold resumeDependencyReferences at ok
  split at ok
  · exact freezeTaskDependencies_linked (same ▸ ok) dependencies goal
  · obtain ⟨refs, _, ok⟩ := except_bind_ok ok
    exact freezeTaskDependencies_linked (same ▸ (except_ite_ok ok).2) dependencies goal

/-! ### What is refused as a cycle -/

theorem effort_le (links : Links s.delegations) {target : Id} {upstream : Delegation}
    (found : s.delegations.get? target = some upstream) :
    Search.effort 32 16 (upstream.dependencies.map (·.reference.delegationID)) [] ≤ 1024 := by
  have few := links.few target upstream found
  simp only [Search.effort, List.length_map, List.length_nil]
  omega

/-- A reference that is refused as a cycle leads back. -/
theorem freezeDependency_cycle (links : Links s.delegations)
    (counted : s.Counted)
    (refused : freezeDependency s id root a granted ref = .error (conflict "dependency_cycle")) :
    TransGen (DependsOn s.delegations) ref.delegationID id := by
  rcases except_bind_error refused with unseen | ⟨upstream, visible, refused⟩
  · exact absurd rfl (dependencyDelegation_throws unseen _)
  · obtain ⟨found, _⟩ := dependencyDelegation_found visible
    split at refused
    · simp [forbidden, conflict] at refused
    · split at refused
      · simp [conflict] at refused
      · split at refused
        · simp [conflict] at refused
        · split at refused
          · simp [badRequest, conflict] at refused
          · rcases except_bind_error refused with cycle | ⟨_, _, refused⟩
            · rw [reachesDelegation_eq] at cycle
              have inside : ∀ x ∈ upstream.dependencies.map (·.reference.delegationID),
                  x ∈ goalNodes s.delegations (goalKey upstream) := by
                intro x member
                obtain ⟨edge, there, rfl⟩ := List.mem_map.mp member
                obtain ⟨next, stored, goal⟩ := links.inside _ _ found edge there
                exact goal ▸ mem_goalNodes stored
              obtain ⟨x, member, path⟩ := Search.reaches_of_search readDependencies_reads
                readDependencies_fails (links.bounded counted _) cycle inside (by simp)
                List.nodup_nil (effort_le links found)
              obtain ⟨edge, there, rfl⟩ := List.mem_map.mp member
              exact .head' ((dependsOn_of_get? found).mpr ⟨edge, there, rfl⟩) path
            · cases refused

theorem freezeReferences_cycle (links : Links s.delegations)
    (counted : s.Counted)
    (refused : freezeReferences s id root a granted refs seen =
      .error (conflict "dependency_cycle")) :
    ∃ ref ∈ refs, TransGen (DependsOn s.delegations) ref.delegationID id := by
  induction refs generalizing seen with
  | nil => cases refused
  | cons ref rest ih =>
    simp only [freezeReferences] at refused
    split at refused
    · simp [badRequest, conflict] at refused
    · rcases except_bind_error refused with this | ⟨_, _, refused⟩
      · exact ⟨ref, List.mem_cons_self, freezeDependency_cycle links counted this⟩
      · rcases except_bind_error refused with those | ⟨_, _, refused⟩
        · obtain ⟨other, member, path⟩ := ih those
          exact ⟨other, List.mem_cons_of_mem _ member, path⟩
        · cases refused

/-- A request that is refused as a cycle would have closed one. -/
theorem reaches_of_cycle (links : Links s.delegations) (counted : s.Counted)
    (refused : freezeTaskDependencies s id root refs a granted =
      .error (conflict "dependency_cycle")) :
    ∃ ref ∈ refs, TransGen (DependsOn s.delegations) ref.delegationID id := by
  unfold freezeTaskDependencies at refused
  split at refused
  · simp [badRequest, conflict] at refused
  · rcases except_bind_error refused with cycle | ⟨_, _, refused⟩
    · exact freezeReferences_cycle links counted cycle
    · cases refused

end DomainryAgent.Refinement
