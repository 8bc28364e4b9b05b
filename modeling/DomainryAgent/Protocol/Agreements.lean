import DomainryAgent.Protocol.Leases
import DomainryAgent.Protocol.Routing

/-!
Agreements: a revision names one agreement, and a delegation only ever goes on
to later ones.

`AgreementHistory` is what the conflict-ignoring insert of the history rests
on: the revisions of a delegation are exactly `1` to its current one, so the
entry of a new revision is never dropped, and the entry of an old one never
written again.
-/

namespace DomainryAgent.Protocol

open Lib Table

variable {allowed : Hazard → Prop} {s t : Core}

/-! ### Recording an entry -/

variable {k : Id × Nat}

section Record

variable {agreements : Table AgreementRevision.key} {entry other : AgreementRevision}

/-- Whatever is recorded, an entry stays. -/
theorem record_keeps (found : agreements.get? k = some other) :
    (record agreements entry).get? k = some other := by
  unfold record
  cases inserted : agreements.insert? entry with
  | none => exact found
  | some grown => exact get?_insert?_of_some inserted found

theorem get?_record (free : agreements.get? entry.key = none) (k : Id × Nat) :
    (record agreements entry).get? k = if k = entry.key then some entry else agreements.get? k := by
  unfold record
  cases inserted : agreements.insert? entry with
  | none =>
    obtain ⟨taken, found⟩ := insert?_eq_none_iff.mp inserted
    rw [free] at found
    cases found
  | some grown => exact (get?_insert? inserted).2 k

end Record

/-! ### The history of a delegation's agreements -/

/-- An entry that says what a task was given. -/
structure Gives (entry : AgreementRevision) (task : Task) : Prop where
  brief : entry.brief = task.brief
  input : entry.structuredInput = task.structuredInput

structure AgreementHistory (tasks : Table Task.id) (delegations : Table Delegation.id)
    (agreements : Table AgreementRevision.key) : Prop where
  revisions : ∀ {id d}, delegations.get? id = some d → ∀ v,
    (∃ entry, agreements.get? (id, v) = some entry) ↔ 1 ≤ v ∧ v ≤ d.agreementRevision
  owned : ∀ {id v entry}, agreements.get? (id, v) = some entry → ∃ d, delegations.get? id = some d
  current : ∀ {id d}, delegations.get? id = some d →
    ∃ entry, agreements.get? (id, d.agreementRevision) = some entry ∧ Records entry d
  carried : ∀ {id d task}, delegations.get? id = some d → tasks.get? d.taskID = some task →
    ∃ entry, agreements.get? (id, task.agreementRevision) = some entry ∧ Gives entry task

variable {old new d : Delegation} {id : Id}

namespace AgreementHistory

variable {tasks : Table Task.id} {delegations : Table Delegation.id}
  {agreements : Table AgreementRevision.key}

theorem empty : AgreementHistory .empty .empty .empty where
  revisions found := by simp at found
  owned found := by simp at found
  current found := by simp at found
  carried found := by simp at found

/-- Writing a task that still carries what the entry of its revision gives. -/
theorem put_task {old new : Task} (inv : AgreementHistory tasks delegations agreements)
    (id : new.id = old.id)
    (gives : ∀ d, delegations.get? d.id = some d → d.taskID = old.id →
      ∃ entry, agreements.get? (d.id, new.agreementRevision) = some entry ∧ Gives entry new) :
    AgreementHistory (tasks.put new) delegations agreements := by
  refine { inv with carried := ?_ }
  intro d_id d task there named
  rcases get?_put_some named with ⟨same, rfl, _⟩ | ⟨_, named⟩
  · have key : d.id = d_id := key_of_get? there
    subst key
    exact gives d there (same.trans id)
  · exact inv.carried there named

/-- Writing a task with the terms it had. -/
theorem keep_terms {old new : Task} (inv : AgreementHistory tasks delegations agreements)
    (found : tasks.get? old.id = some old) (id : new.id = old.id) (terms : SameTerms old new) :
    AgreementHistory (tasks.put new) delegations agreements := by
  refine inv.put_task id fun d there names => ?_
  obtain ⟨entry, recorded, gives⟩ := inv.carried there (names ▸ found)
  rw [terms.revision]
  exact ⟨entry, recorded, gives.brief.trans terms.brief.symm, gives.input.trans terms.input.symm⟩

variable {runs : Table RunRow.key} {task : Task} {tasks' : Table Task.id}

section

variable (inv : AgreementHistory tasks delegations agreements)

include inv

/-- A new task is no delegation's yet. -/
theorem insert_task {grown : Table Task.id} (routed : Routed runs tasks delegations)
    (inserted : tasks.insert? task = some grown) : AgreementHistory grown delegations agreements := by
  refine { inv with carried := ?_ }
  intro id d other there named
  obtain ⟨current, assigned, _⟩ := routed.assigned there
  have kept := get?_insert?_of_some inserted assigned
  rw [named] at kept
  cases kept
  exact inv.carried there assigned

/-- A delegation under the agreement and with the assignment it had. -/
theorem put_delegation (found : delegations.get? old.id = some old) (same : SameDelegation old new)
    (assignment : SameAssignment old new) (agreement : SameAgreement old new) :
    AgreementHistory tasks (delegations.put new) agreements := by
  constructor
  · intro id d there
    rcases get?_put_some there with ⟨rfl, rfl, _⟩ | ⟨_, there⟩
    · rw [agreement.revision, same.id]
      exact inv.revisions found
    · exact inv.revisions there
  · intro id v entry there
    obtain ⟨d, at_id⟩ := inv.owned there
    exact exists_get?_put at_id
  · intro id d there
    rcases get?_put_some there with ⟨rfl, rfl, _⟩ | ⟨_, there⟩
    · obtain ⟨entry, recorded, records⟩ := inv.current found
      rw [agreement.revision, same.id]
      exact ⟨entry, recorded, records.delegation.trans same.id.symm,
        records.revision.trans agreement.revision.symm, records.brief.trans agreement.brief.symm,
        records.input.trans agreement.input.symm,
        records.inputSource.trans agreement.inputSource.symm,
        records.dependencies.trans agreement.dependencies.symm⟩
    · exact inv.current there
  · intro id d task there named
    rcases get?_put_some there with ⟨rfl, rfl, _⟩ | ⟨_, there⟩
    · rw [same.id]
      exact inv.carried found (assignment.task ▸ named)
    · exact inv.carried there named

/-- The entry of a delegation's new revision is recorded with it, all before it
being there. -/
theorem enter {entry : AgreementRevision} {delegations' : Table Delegation.id}
    (written : Written delegations new delegations') (records : Records entry new)
    (positive : 1 ≤ new.agreementRevision)
    (before : ∀ v, (∃ entry, agreements.get? (new.id, v) = some entry) ↔
      1 ≤ v ∧ v < new.agreementRevision)
    (others : ∀ d, delegations.get? d.id = some d → d.id ≠ new.id →
      tasks'.get? d.taskID = tasks.get? d.taskID)
    (own : ∀ task, tasks'.get? new.taskID = some task →
      (∃ entry, agreements.get? (new.id, task.agreementRevision) = some entry ∧ Gives entry task) ∨
        task.agreementRevision = new.agreementRevision ∧ task.brief = new.brief ∧
          task.structuredInput = new.structuredInput) :
    AgreementHistory tasks' delegations' (record agreements entry) := by
  have key : entry.key = (new.id, new.agreementRevision) :=
    Prod.ext records.delegation records.revision
  have free : agreements.get? entry.key = none := by
    by_contra taken
    obtain ⟨other, at_key⟩ := Option.ne_none_iff_exists'.mp taken
    rw [key] at at_key
    have bounds := (before _).mp ⟨other, at_key⟩
    omega
  have lookup := get?_record free
  rw [key] at lookup
  have recorded : (record agreements entry).get? (new.id, new.agreementRevision) = some entry := by
    rw [lookup, if_pos rfl]
  constructor
  · intro id d there v
    rw [lookup]
    rcases written.cases there with ⟨rfl, rfl⟩ | ⟨other, there⟩
    · by_cases here : v = d.agreementRevision
      · subst here
        simpa using positive
      · rw [if_neg (by simpa using here), before]
        omega
    · rw [if_neg (fun h => other (Prod.mk.inj h).1)]
      exact inv.revisions there v
  · intro id v other there
    by_cases here : id = new.id
    · exact ⟨new, here ▸ written.self⟩
    · rw [lookup, if_neg (fun h => here (Prod.mk.inj h).1)] at there
      obtain ⟨d, at_id⟩ := inv.owned there
      exact ⟨d, (written.rest here).trans at_id⟩
  · intro id d there
    rcases written.cases there with ⟨rfl, rfl⟩ | ⟨_, there⟩
    · exact ⟨entry, recorded, records⟩
    · obtain ⟨current, at_current, holds⟩ := inv.current there
      exact ⟨current, record_keeps at_current, holds⟩
  · intro id d task there named
    rcases written.cases there with ⟨rfl, rfl⟩ | ⟨other, there⟩
    · rcases own task named with ⟨given, at_given, gives⟩ | ⟨at_new, brief, input⟩
      · exact ⟨given, record_keeps at_given, gives⟩
      · rw [at_new]
        exact ⟨entry, recorded, records.brief.trans brief.symm, records.input.trans input.symm⟩
    · have key : d.id = id := key_of_get? there
      subst key
      rw [others d there other] at named
      obtain ⟨given, at_given, gives⟩ := inv.carried there named
      exact ⟨given, record_keeps at_given, gives⟩

/-- A delegation goes on to the next revision; its task keeps what it carries or
is given the new agreement. -/
theorem raise {entry : AgreementRevision} (found : delegations.get? old.id = some old)
    (same : new.id = old.id) (revision : new.agreementRevision = old.agreementRevision + 1)
    (records : Records entry new)
    (others : ∀ d, delegations.get? d.id = some d → d.id ≠ old.id →
      tasks'.get? d.taskID = tasks.get? d.taskID)
    (own : ∀ task, tasks'.get? new.taskID = some task →
      tasks.get? old.taskID = some task ∨
        task.agreementRevision = new.agreementRevision ∧ task.brief = new.brief ∧
          task.structuredInput = new.structuredInput) :
    AgreementHistory tasks' (delegations.put new) (record agreements entry) := by
  refine inv.enter (written_put found same) records (by omega) (fun v => ?_) (same ▸ others)
    fun task named => (own task named).imp_left fun before => ?_
  · rw [same, revision, inv.revisions found, Nat.lt_succ_iff]
  · rw [same]
    exact inv.carried found before

/-- A new delegation comes with its first agreement and a task for it. -/
theorem admission {entry : AgreementRevision} {delegations' : Table Delegation.id}
    (routed : Routed runs tasks delegations)
    (first : d.agreementRevision = 1) (work : TaskFor d task) (records : Records entry d)
    (insertedTask : tasks.insert? task = some tasks')
    (inserted : delegations.insert? d = some delegations') :
    AgreementHistory tasks' delegations' (record agreements entry) := by
  refine inv.enter (written_insert? inserted) records first.ge (fun v => ?_) (fun e there _ => ?_)
    fun its named => .inr ?_
  · refine ⟨fun ⟨_, taken⟩ => ?_, fun bounds => by omega⟩
    obtain ⟨_, there⟩ := inv.owned taken
    rw [(get?_insert? inserted).1] at there
    cases there
  · obtain ⟨_, assigned, _⟩ := routed.assigned there
    rw [assigned]
    exact get?_insert?_of_some insertedTask assigned
  · have own := get?_insert?_self insertedTask
    rw [← work.id, named] at own
    cases own
    exact ⟨work.revision, work.brief, work.input⟩

end

end AgreementHistory

theorem Move.agreementHistory (move : Move allowed s t)
    (routed : s.Routed)
    (inv : AgreementHistory s.tasks s.delegations s.agreements) :
    AgreementHistory t.tasks t.delegations t.agreements := by
  cases move with
  | closeTask _ _ _ _ _ named | reopenTask _ _ _ _ _ named =>
    exact inv.keep_terms (get?_key named) rfl ⟨rfl, rfl, rfl⟩
  | @launch task next row b grown found same _ _ _ revision input brief =>
    rcases brief with kept | ⟨d, there, names, belongs, live, given⟩
    · exact inv.keep_terms found same.id ⟨revision, kept, input⟩
    · -- A live delegation's task carries its current revision.
      refine inv.put_task same.id fun e at_e names' => ?_
      have same_id : e.id = d.id := by
        by_contra other
        exact routed.taskID_ne at_e there other (names'.trans names.symm)
      rw [same_id, there] at at_e
      cases at_e
      obtain ⟨task', assigned, _, _, carries⟩ := routed.assigned there
      rw [names, found] at assigned
      cases assigned
      obtain ⟨entry, recorded, records⟩ := inv.current there
      obtain ⟨entry', recorded', gives⟩ := inv.carried there (names ▸ found)
      rw [carries live, recorded] at recorded'
      cases recorded'
      rw [revision, carries live]
      exact ⟨entry, recorded, records.brief.trans given.symm, gives.input.trans input.symm⟩
  | newTask _ _ _ _ _ inserted => exact inv.insert_task routed inserted
  | @editTask old new _ _ found edit _ =>
    refine inv.put_task edit.same.id fun d there names => ?_
    obtain ⟨task, assigned, belongs, _⟩ := routed.assigned there
    rw [names, found] at assigned
    cases assigned
    have terms := edit.terms (by rw [belongs]; exact Option.some_ne_none _)
    obtain ⟨entry, recorded, gives⟩ := inv.carried there (names ▸ found)
    rw [terms.revision]
    exact ⟨entry, recorded, gives.brief.trans terms.brief.symm,
      gives.input.trans terms.input.symm⟩
  | submit found | repoint _ found _ | planTask found _ _ =>
    exact inv.keep_terms found rfl ⟨rfl, rfl, rfl⟩
  | touchDelegation found same assignment agreement _ =>
    exact inv.put_delegation found same assignment agreement
  | tick | openConversation | touchConversation | run | openRun | endRun | reopenRun
    | reopenRunning | steps | tools | messages | send | input | openLedger | ledger => exact inv

theorem Step.agreementHistory (step : Step allowed s t)
    (routed : s.Routed)
    (inv : AgreementHistory s.tasks s.delegations s.agreements) :
    AgreementHistory t.tasks t.delegations t.agreements := by
  cases step with
  | move move => exact move.agreementHistory routed inv
  | amendDelegation found same assignment revision _ records =>
    refine inv.raise found same.id revision records (fun _ _ _ => rfl) fun task named => ?_
    exact .inl (assignment.task ▸ named)
  | @resumeDelegation old new task next history found same assignment agreement named _ sameTask _
      current _ _ revision brief input =>
    have its : next.id = task.id := sameTask.id
    rcases agreement with ⟨unchanged, rfl⟩ | ⟨raised, entry, records, rfl⟩
    · -- Under the same agreement the task is given the entry there is.
      have saved := inv.put_delegation found same assignment unchanged
      refine saved.put_task its fun d there names => ?_
      have mine : d = new := by
        rcases get?_put_some there with ⟨_, rfl, _⟩ | ⟨other, there⟩
        · rfl
        · refine absurd ?_ (routed.taskID_ne there found (same.id ▸ other))
          rw [names, ← its, ← current, assignment.task]
      subst mine
      obtain ⟨entry, recorded, records⟩ := saved.current there
      rw [revision]
      exact ⟨entry, recorded, records.brief.trans brief.symm, records.input.trans input.symm⟩
    · refine inv.raise found same.id raised records (fun d there other => ?_) fun other there => ?_
      · refine get?_put_of_ne fun same_task => ?_
        refine routed.taskID_ne there found other ?_
        rw [same_task, ← current, assignment.task]
      · rcases get?_put_some there with ⟨_, rfl, _⟩ | ⟨elsewhere, _⟩
        · exact .inr ⟨revision, brief, input⟩
        · exact absurd current elsewhere
  | admitDelegation first work _ records insertedTask inserted =>
    exact inv.admission routed first work records insertedTask inserted
  | @transferDelegation old new task _ _ found same revision work _ records insertedTask =>
    refine inv.raise found same.id revision records (fun d there _ => ?_) fun other there => ?_
    · obtain ⟨its, assigned, _⟩ := routed.assigned there
      rw [assigned]
      exact get?_insert?_of_some insertedTask assigned
    · have its := get?_insert?_self insertedTask
      rw [← work.id, there] at its
      cases its
      exact .inr ⟨work.revision, work.brief, work.input⟩
  | @snapshot d entry found records =>
    obtain ⟨stored, recorded, _⟩ := inv.current found
    have taken : s.agreements.get? entry.key = some stored := by
      rw [AgreementRevision.key, records.delegation, records.revision]
      exact recorded
    -- An entry under a key that is taken is dropped.
    have same : record s.agreements entry = s.agreements := by
      rw [record, insert?_eq_none_iff.mpr ⟨stored, taken⟩]
      rfl
    show AgreementHistory s.tasks s.delegations (record s.agreements entry)
    rw [same]
    exact inv

/-- A recorded agreement never changes. -/
theorem Step.agreements_kept (step : Step allowed s t) {entry : AgreementRevision}
    (found : s.agreements.get? k = some entry) : t.agreements.get? k = some entry := by
  cases step with
  | move move => rw [move.agreements]; exact found
  | amendDelegation | admitDelegation | transferDelegation | snapshot => exact record_keeps found
  | resumeDelegation _ _ _ agreement =>
    rcases agreement with ⟨_, rfl⟩ | ⟨_, _, _, rfl⟩
    · exact found
    · exact record_keeps found

/-! ### The order of agreements -/

/-- How a delegation goes on: it stays under its root, its revision never falls,
and at the same revision it has the same brief and the same task. -/
structure AgreementOrder (old new : Delegation) : Prop where
  root : new.rootConversationID = old.rootConversationID
  revision : old.agreementRevision ≤ new.agreementRevision
  same : new.agreementRevision = old.agreementRevision →
    new.brief = old.brief ∧ new.taskID = old.taskID

theorem AgreementOrder.refl (d : Delegation) : AgreementOrder d d :=
  ⟨rfl, le_rfl, fun _ => ⟨rfl, rfl⟩⟩

theorem AgreementOrder.trans {x y z : Delegation} (first : AgreementOrder x y)
    (second : AgreementOrder y z) : AgreementOrder x z := by
  refine ⟨second.root.trans first.root, first.revision.trans second.revision, fun same => ?_⟩
  have lower := first.revision
  have upper := second.revision
  obtain ⟨brief, task⟩ := first.same (by omega)
  obtain ⟨brief', task'⟩ := second.same (by omega)
  exact ⟨brief'.trans brief, task'.trans task⟩

theorem AgreementOrder.raise (same : SameDelegation old new)
    (revision : new.agreementRevision = old.agreementRevision + 1) : AgreementOrder old new :=
  ⟨same.root, by omega, fun same => by omega⟩

/-- Writing one delegation in order. -/
theorem agreementOrder_put {delegations : Table Delegation.id}
    (found : delegations.get? old.id = some old) (same : new.id = old.id)
    (order : AgreementOrder old new) (there : delegations.get? id = some d) :
    ∃ d', (delegations.put new).get? id = some d' ∧ AgreementOrder d d' :=
  exists_put found same there (.refl d) fun here _ => here ▸ order

theorem Step.agreementOrder (step : Step allowed s t) (there : s.delegations.get? id = some d) :
    ∃ d', t.delegations.get? id = some d' ∧ AgreementOrder d d' := by
  cases step with
  | move move =>
    cases move with
    | touchDelegation found same assignment agreement _ =>
      exact agreementOrder_put found same.id
        ⟨same.root, agreement.revision.ge, fun _ => ⟨agreement.brief, assignment.task⟩⟩ there
    | _ => exact ⟨d, there, .refl d⟩
  | amendDelegation found same _ revision | transferDelegation found same revision =>
    exact agreementOrder_put found same.id (.raise same revision) there
  | resumeDelegation found same assignment agreement =>
    refine agreementOrder_put found same.id ?_ there
    rcases agreement with ⟨unchanged, _⟩ | ⟨raised, _⟩
    · exact ⟨same.root, unchanged.revision.ge, fun _ => ⟨unchanged.brief, assignment.task⟩⟩
    · exact .raise same raised
  | admitDelegation _ _ _ _ _ inserted =>
    exact ⟨d, get?_insert?_of_some inserted there, .refl d⟩
  | snapshot => exact ⟨d, there, .refl d⟩

theorem Steps.agreementOrder (steps : Steps allowed s t) (there : s.delegations.get? id = some d) :
    ∃ d', t.delegations.get? id = some d' ∧ AgreementOrder d d' := by
  induction steps with
  | refl => exact ⟨d, there, .refl d⟩
  | tail _ step ih =>
    obtain ⟨mid, found, order⟩ := ih
    obtain ⟨d', found', order'⟩ := step.agreementOrder found
    exact ⟨d', found', order.trans order'⟩

/-- A run launched under an agreement its delegation has left behind. -/
def LeftBehind (s : Core) (r : Id) : Prop :=
  ∃ row b id d, s.runs.get? r = some row ∧ row.run.background = some b ∧
    b.delegationID = some id ∧ s.delegations.get? id = some d ∧
    max 1 b.agreementRevision < d.agreementRevision

/-- It stays so. -/
theorem Step.leftBehind (step : Step allowed s t) {r : Id} (left : LeftBehind s r) :
    LeftBehind t r := by
  obtain ⟨row, b, id, d, there, background, belongs, found, older⟩ := left
  obtain ⟨d', found', order⟩ := step.agreementOrder found
  obtain ⟨row', there', background'⟩ :=
    step.runs.keeps (P := fun row => row.run.background = some b)
      (fun _ _ same _ before => same.background.trans before) there background
  have newer := order.revision
  exact ⟨row', b, id, d', there', background', belongs, found', by omega⟩

/-- The claim check never accepts a claim on such a run. -/
theorem LeftBehind.refused {claim : Claim} (left : LeftBehind s claim.runID) (row : RunRow) :
    ¬Accepted s claim row := by
  intro accepted
  obtain ⟨row', b, id, d, there, background, belongs, found, older⟩ := left
  rw [accepted.found] at there
  cases there
  have delegated : row.run.delegated = some (id, b) := by
    unfold Run.delegated
    rw [background, Option.bind_some, belongs, Option.map_some]
  obtain ⟨d', found', _, _, _, revision, _⟩ := accepted.current id b delegated
  rw [found] at found'
  cases found'
  omega

end DomainryAgent.Protocol
