import DomainryAgent.Lib.Search
import DomainryAgent.Protocol.Ledgers

/-!
The dependency graph over delegations.

`Links` is what every step keeps of the graph: a delegation has at most 16
dependencies, all on delegations of its own goal, and following them never leads
back.  `Counted` ties the graph to the ledgers: the ledger of a goal has counted
its delegations and stops at 32, so a search of the graph that may visit 32
delegations sees all of it (`Links.bounded`).
-/

namespace DomainryAgent.Protocol

open Lib Table Relation

variable {allowed : Hazard → Prop} {s t : Core} {delegations grown : Table Delegation.id}
  {ledgers : Table WorkLedger.key} {d old new : Delegation}

/-! ### What a step does to the delegations -/

inductive DelegationsStep (s : Core) : Table Delegation.id → Prop
  | same : DelegationsStep s s.delegations
  | put {old new : Delegation} (found : s.delegations.get? old.id = some old)
      (same : SameDelegation old new) (links : Relinked s.delegations old new)
      (accepted : AcceptedCurrent old → AcceptedCurrent new) :
      DelegationsStep s (s.delegations.put new)
  | insert {d : Delegation} {grown : Table Delegation.id} (status : d.status = .accepted)
      (links : Linked s.delegations d) (inserted : s.delegations.insert? d = some grown)
      (present : d.subjectExited = false) : DelegationsStep s grown

/-- A delegation that starts or stops work accepts no delivery with that. -/
theorem AcceptedCurrent.of_accepted (status : d.status = .accepted) : AcceptedCurrent d :=
  .of_status (fun h => nomatch status.symm.trans h)

theorem AcceptedCurrent.of_dead (dead : d.status.live = false) : AcceptedCurrent d :=
  .of_status (fun h => by rw [h] at dead; cases dead)

theorem Step.delegationsStep (step : Step allowed s t) : DelegationsStep s t.delegations := by
  cases step with
  | move move =>
    cases move with
    | touchDelegation found same _ agreement _ accepted =>
      exact .put found same (.inl agreement.dependencies) accepted
    | _ => exact .same
  | amendDelegation found same _ _ stops _ links =>
    exact .put found same links (fun _ => .of_dead stops)
  | resumeDelegation found same _ _ _ _ _ _ _ _ _ _ _ _ _ status links
    | transferDelegation found same _ _ _ _ _ _ status links =>
    exact .put found same links (fun _ => .of_accepted status)
  | admitDelegation _ _ _ _ _ inserted _ status links _ _ _ _ _ _ _ present =>
    exact .insert status links inserted present
  | snapshot => exact .same

/-- The delegations whose subjects are all there. -/
def Present (delegations : Table Delegation.id) : Prop :=
  ∀ id d, delegations.get? id = some d → d.subjectExited = false

theorem Step.present (step : Step allowed s t) (inv : Present s.delegations) :
    Present t.delegations := by
  have change := step.delegationsStep
  generalize t.delegations = after at change ⊢
  intro id d there
  cases change with
  | same => exact inv id d there
  | put found same =>
    rcases get?_put_some there with ⟨_, rfl, _⟩ | ⟨_, there⟩
    · exact same.exited.trans (inv _ _ found)
    · exact inv id d there
  | insert _ _ inserted present =>
    rcases get?_insert?_some inserted there with ⟨_, rfl⟩ | ⟨_, there⟩
    · exact present
    · exact inv id d there

/-! ### The graph -/

structure Links (delegations : Table Delegation.id) : Prop where
  few : ∀ id d, delegations.get? id = some d → d.dependencies.length ≤ 16
  inside : ∀ id d, delegations.get? id = some d → ∀ edge ∈ d.dependencies, ∃ upstream,
    delegations.get? edge.reference.delegationID = some upstream ∧ goalKey upstream = goalKey d
  acyclic : ∀ id, ¬ TransGen (DependsOn delegations) id id

variable {id : Id}

variable {target x y : Id} {ledger : WorkLedger} {events : List WorkEvent}

theorem dependsOn_of_get? (found : delegations.get? id = some d) :
    DependsOn delegations id target ↔ ∃ edge ∈ d.dependencies,
      edge.reference.delegationID = target := by
  simp only [DependsOn, Dag.Edge, dependenciesOf, found, Option.map_some, Option.some.injEq,
    exists_eq_left', List.mem_map]

theorem exists_of_dependsOn (edge : DependsOn delegations id target) :
    ∃ d, delegations.get? id = some d := by
  obtain ⟨_, out, _⟩ := edge
  obtain ⟨d, found, _⟩ := Option.map_eq_some_iff.mp out
  exact ⟨d, found⟩

theorem Links.empty : Links .empty := by
  refine ⟨fun _ _ h => (nomatch h), fun _ _ h => (nomatch h), fun id cycle => ?_⟩
  obtain ⟨_, edge, _⟩ := TransGen.head'_iff.mp cycle
  obtain ⟨_, found⟩ := exists_of_dependsOn edge
  cases found

/-- What may be depended on is a matter of the delegation's id, its goal and the
dependencies themselves. -/
theorem Linked.congr (links : Linked delegations old) (id : new.id = old.id)
    (dependencies : new.dependencies = old.dependencies) (goal : goalKey new = goalKey old) :
    Linked delegations new := by
  refine ⟨dependencies ▸ links.few, fun edge member => ?_, fun edge member => ?_⟩
  · rw [goal]
    exact links.inside edge (dependencies ▸ member)
  · rw [id]
    exact links.forward edge (dependencies ▸ member)

theorem SameDelegation.goalKey (same : SameDelegation old new) : goalKey new = goalKey old := by
  simp only [Protocol.goalKey, same.owner, same.root]

/-- Dependencies that stay lead away from their delegation as new ones do: the
graph is acyclic. -/
theorem Links.linked (links : Links delegations) (found : delegations.get? old.id = some old)
    (same : SameDelegation old new) (relinked : Relinked delegations old new) :
    Linked delegations new := by
  rcases relinked with kept | linked
  · refine Linked.congr ⟨links.few _ _ found, links.inside _ _ found, ?_⟩ same.id kept same.goalKey
    intro edge member back
    exact links.acyclic old.id (.head' ((dependsOn_of_get? found).mpr ⟨edge, member, rfl⟩) back)
  · exact linked

/-- A delegation is written with dependencies it may have, for the goal it had. -/
theorem Links.write (links : Links delegations) (linked : Linked delegations new)
    (written : Written delegations new grown)
    (goal : ∀ old, delegations.get? new.id = some old → goalKey new = goalKey old) :
    Links grown := by
  refine ⟨fun id d there => ?_, fun id d there edge member => ?_, ?_⟩
  · rcases written.cases there with ⟨_, rfl⟩ | ⟨_, before⟩
    · exact linked.few
    · exact links.few id d before
  · have target : ∃ upstream, delegations.get? edge.reference.delegationID = some upstream ∧
        goalKey upstream = goalKey d := by
      rcases written.cases there with ⟨_, rfl⟩ | ⟨_, before⟩
      · exact linked.inside edge member
      · exact links.inside id d before edge member
    obtain ⟨upstream, found, same⟩ := target
    by_cases here : edge.reference.delegationID = new.id
    · rw [here] at found ⊢
      exact ⟨new, written.self, (goal upstream found).trans same⟩
    · exact ⟨upstream, (written.rest here).trans found, same⟩
  · refine Search.acyclic_of_replaced (a := new.id) (fun x y edge => ?_) links.acyclic
    obtain ⟨d, found⟩ := exists_of_dependsOn edge
    obtain ⟨dep, member, target⟩ := (dependsOn_of_get? found).mp edge
    rcases written.cases found with ⟨rfl, rfl⟩ | ⟨_, before⟩
    · exact .inr ⟨rfl, target ▸ linked.forward dep member⟩
    · exact .inl ((dependsOn_of_get? before).mpr ⟨dep, member, target⟩)

theorem Step.links (step : Step allowed s t) (links : Links s.delegations) :
    Links t.delegations := by
  have next := step.delegationsStep
  generalize t.delegations = after at next ⊢
  cases next with
  | same => exact links
  | put found same relinked _ =>
    refine links.write (links.linked found same relinked) (written_put found same.id) ?_
    intro _ here
    rw [same.id, found] at here
    cases here
    exact same.goalKey
  | insert _ linked inserted =>
    refine links.write linked (written_insert? inserted) ?_
    intro _ here
    rw [(get?_insert? inserted).1] at here
    cases here

/-! ### Accepted deliveries -/

/-- Every accepted delivery is current. -/
def AllCurrent (delegations : Table Delegation.id) : Prop :=
  ∀ id d, delegations.get? id = some d → AcceptedCurrent d

theorem Step.allCurrent (step : Step allowed s t) (current : AllCurrent s.delegations) :
    AllCurrent t.delegations := by
  have next := step.delegationsStep
  generalize t.delegations = after at next ⊢
  intro id d there
  cases next with
  | same => exact current id d there
  | put found _ _ accepted =>
    rcases get?_put_some there with ⟨_, rfl, _⟩ | ⟨_, before⟩
    · exact accepted (current _ _ found)
    · exact current id d before
  | insert status _ inserted =>
    rcases get?_insert?_some inserted there with ⟨_, rfl⟩ | ⟨_, before⟩
    · exact .of_accepted status
    · exact current id d before

/-! ### The delegations of a goal -/

/-- A goal with delegations has a ledger, and that has counted them. -/
structure Counted (delegations : Table Delegation.id) (ledgers : Table WorkLedger.key) : Prop where
  opened : ∀ id d, delegations.get? id = some d → ∃ ledger, ledgers.get? (goalKey d) = some ledger
  counts : ∀ key ledger, ledgers.get? key = some ledger →
    goalCount delegations key ≤ ledger.delegations
  few : ∀ key ledger, ledgers.get? key = some ledger → ledger.delegations ≤ 32

theorem Counted.empty : Counted .empty .empty :=
  ⟨fun _ _ h => (nomatch h), fun _ _ h => (nomatch h), fun _ _ h => (nomatch h)⟩

section

variable (counted : Counted delegations ledgers)

include counted

/-- A goal without a ledger has no delegation. -/
theorem Counted.none {key : LedgerKey}
    (missing : ledgers.get? key = none) : goalCount delegations key = 0 := by
  refine List.countP_eq_zero.mpr fun d member goal => ?_
  obtain ⟨ledger, there⟩ := counted.opened _ d (get?_of_mem member)
  rw [of_decide_eq_true goal, missing] at there
  cases there

theorem Counted.goal (key : LedgerKey) :
    goalCount delegations key ≤ 32 := by
  cases there : ledgers.get? key with
  | none => exact (counted.none there).le.trans (Nat.zero_le _)
  | some ledger => exact (counted.counts key ledger there).trans (counted.few key ledger there)

theorem Counted.put (found : delegations.get? old.id = some old) (same : SameDelegation old new) :
    Counted (delegations.put new) ledgers := by
  have here : delegations.get? new.id = some old := same.id ▸ found
  refine ⟨fun id d there => ?_, fun key ledger there => ?_, counted.few⟩
  · rcases get?_put_some there with ⟨_, rfl, _⟩ | ⟨_, before⟩
    · rw [same.goalKey]
      exact counted.opened _ _ here
    · exact counted.opened id d before
  · have fewer : goalCount (delegations.put new) key ≤ goalCount delegations key :=
      Table.countP_put_le here (by rw [same.goalKey]; exact id)
    exact fewer.trans (counted.counts key ledger there)

theorem Counted.insert (inserted : delegations.insert? d = some grown)
    (admitted : ∃ ledger, ledgers.get? (goalKey d) = some ledger ∧
      goalCount delegations (goalKey d) < ledger.delegations) : Counted grown ledgers := by
  obtain ⟨own, there, room⟩ := admitted
  refine ⟨fun id e found => ?_, fun key ledger found => ?_, counted.few⟩
  · rcases get?_insert?_some inserted found with ⟨_, rfl⟩ | ⟨_, before⟩
    · exact ⟨own, there⟩
    · exact counted.opened id e before
  · have grows := Table.countP_insert? (goalKey · = key) inserted
    by_cases goal : goalKey d = key
    · subst goal
      rw [there] at found
      cases found
      simp only [decide_true, Bool.toNat_true] at grows
      exact grows.le.trans room
    · simp only [goal, decide_false, Bool.toNat_false, Nat.add_zero] at grows
      exact grows.le.trans (counted.counts key ledger found)

omit counted in
theorem prune_delegations :
    (pruneConversationWorkReservations s ledger).delegations = ledger.delegations := by
  refine prune_induction (P := fun l => l.delegations = ledger.delegations)
    (fun l item _ same => ?_) rfl
  rw [dropReservation_eq]
  split <;> exact same

omit counted in
/-- Work on a ledger lowers its count of delegations never, and raises it to 32
at most. -/
theorem LedgerWork.counts {old new : WorkLedger} (work : LedgerWork allowed s old new events) :
    old.delegations ≤ new.delegations ∧ (old.delegations ≤ 32 → new.delegations ≤ 32) := by
  have pruned := @prune_delegations s old
  cases work with
  | join _ grows few => exact ⟨grows, fun _ => few⟩
  | reserve => exact ⟨pruned.ge, fun few => pruned.le.trans few⟩
  | start | complete | unreserved => exact ⟨le_rfl, id⟩
  | release =>
    rw [dropReservation_eq]
    split <;> exact ⟨le_rfl, id⟩

theorem Counted.opens {grown : Table WorkLedger.key}
    (inserted : ledgers.insert? ledger = some grown)
    (few : ledger.delegations ≤ 32 ∨
      ∃ d, delegations.get? d.id = some d ∧ goalKey d = ledger.key) :
    Counted delegations grown := by
  obtain ⟨missing, _⟩ := get?_insert? inserted
  have small : ledger.delegations ≤ 32 := by
    rcases few with small | ⟨d, there, goal⟩
    · exact small
    · obtain ⟨other, found⟩ := counted.opened _ d there
      rw [goal, missing] at found
      cases found
  refine ⟨fun id d there => ?_, fun key other found => ?_, fun key other found => ?_⟩
  · obtain ⟨other, found⟩ := counted.opened id d there
    exact ⟨other, get?_insert?_of_some inserted found⟩
  · rcases get?_insert?_some inserted found with ⟨rfl, rfl⟩ | ⟨_, before⟩
    · exact (counted.none missing).le.trans (Nat.zero_le _)
    · exact counted.counts key other before
  · rcases get?_insert?_some inserted found with ⟨_, rfl⟩ | ⟨_, before⟩
    · exact small
    · exact counted.few key other before

theorem Counted.works {old new : WorkLedger}
    (found : ledgers.get? old.key = some old) (work : LedgerWork allowed s old new events) :
    Counted delegations (ledgers.put new) := by
  have here : ledgers.get? new.key = some old := work.key ▸ found
  obtain ⟨grows, few⟩ := work.counts
  refine ⟨fun id d there => ?_, fun key other there => ?_, fun key other there => ?_⟩
  · obtain ⟨other, before⟩ := counted.opened id d there
    exact exists_get?_put before
  · rcases get?_put_some there with ⟨rfl, rfl, _⟩ | ⟨_, before⟩
    · exact (counted.counts _ old here).trans grows
    · exact counted.counts key other before
  · rcases get?_put_some there with ⟨_, rfl, _⟩ | ⟨_, before⟩
    · exact few (counted.few _ old here)
    · exact counted.few key other before

end

theorem Step.counted (step : Step allowed s t) (counted : Counted s.delegations s.ledgers) :
    Counted t.delegations t.ledgers := by
  cases step with
  | move move =>
    cases move with
    | touchDelegation found same => exact counted.put found same
    | openLedger _ _ _ inserted few => exact counted.opens inserted (few.imp_left And.right)
    | ledger found work => exact counted.works found work
    | _ => exact counted
  | amendDelegation found same | resumeDelegation found same | transferDelegation found same =>
    exact counted.put found same
  | admitDelegation _ _ _ _ _ inserted _ _ _ admitted => exact counted.insert inserted admitted
  | snapshot => exact counted

theorem Steps.counted (steps : Steps allowed s t) (counted : Counted s.delegations s.ledgers) :
    Counted t.delegations t.ledgers := by
  induction steps with
  | refl => exact counted
  | tail _ step ih => exact step.counted ih

/-! ### A search that sees the whole goal -/

/-- The ids of a goal's delegations. -/
def goalNodes (delegations : Table Delegation.id) (key : LedgerKey) : List Id :=
  (delegations.rows.filter (goalKey · = key)).map (·.id)

theorem mem_goalNodes (found : delegations.get? id = some d) :
    id ∈ goalNodes delegations (goalKey d) := by
  refine List.mem_map.mpr ⟨d, List.mem_filter.mpr ⟨mem_of_get? found, ?_⟩,
    key_of_get? found⟩
  exact decide_eq_true rfl

/-- Within a goal the graph is small enough to be searched to its end. -/
theorem Links.bounded (links : Links delegations) (counted : Counted delegations ledgers)
    (key : LedgerKey) :
    Search.Bounded (dependenciesOf delegations) (goalNodes delegations key) 32 16 := by
  refine ⟨?_, fun id member target edge => ?_, fun id ds out => ?_⟩
  · have count := counted.goal key
    rw [goalCount, List.countP_eq_length_filter] at count
    rw [goalNodes, List.length_map]
    exact count
  · obtain ⟨d, inside, rfl⟩ := List.mem_map.mp member
    obtain ⟨row, goal⟩ := List.mem_filter.mp inside
    have found := get?_of_mem row
    obtain ⟨dep, there, rfl⟩ := (dependsOn_of_get? found).mp edge
    obtain ⟨upstream, stored, same⟩ := links.inside _ d found dep there
    have key_eq : goalKey upstream = key := same.trans (of_decide_eq_true goal)
    exact key_eq ▸ mem_goalNodes stored
  · obtain ⟨d, found, rfl⟩ := Option.map_eq_some_iff.mp out
    rw [List.length_map]
    exact links.few id d found

end Protocol

abbrev Core.Counted (s : Core) : Prop := Protocol.Counted s.delegations s.ledgers

end DomainryAgent
