import DomainryAgent.Refinement.Control
import DomainryAgent.Refinement.Handoffs

/-!
The operations on delegations follow the protocol.  A change of an agreement
raises its revision, and its history entry belongs to the same step; the
control of the task and the propagation are moves beside that step.
-/

namespace DomainryAgent.Refinement

open Lib Tx Table Protocol

variable {allowed : Hazard → Prop} {clean : Prop} {s : Db}

/-- A transaction that may also change an agreement. -/
abbrev Changes {α : Type} (allowed : Hazard → Prop) (m : StoreTx α) (s : Db) : Prop :=
  m.Ensures s (fun _ s' => Steps allowed s.toCore s'.toCore)

theorem agreementEntry_records (d : Delegation) (changed : AgreementChange) (reason : String) :
    Records (agreementEntry d changed reason) d := ⟨rfl, rfl, rfl, rfl, rfl, rfl⟩

/-! ### Creation -/

variable {a : Authority} {id : Id} {input : Admission} {d : Delegation} {value : Disagreement}
  {report : DeliveryVerification} {update : DelegationUpdate} {change : DisagreementChange}
  {source : Option RunReference} {out : Amendment} {start : Core} {fields : List AgreementField}
  {action : DelegationAction} {entry : AgreementRevision} {c : Control}

variable {root : Id} {execution : Authority} {dependencies : List Dependency} {delivery : Delivery}
  {evaluation : Evaluation} {review : Option DeliveryReview} {summaries : List DisagreementSummary}
  {summary issue : DisagreementSummary} {next : Delegation} {delegations : Table Delegation.id}

/-- The ledger of the goal counts the delegation before it is stored. -/
theorem admitConversationWorkBudget_admits (admits : allowed .admits)
    {requested : Option WorkBudget} (counted : s.Counted) :
    (admitConversationWorkBudget root requested a).Ensures s (fun _ s' => ∃ ledgers,
      Moves allowed s.toCore { s.toCore with ledgers := ledgers } ∧
        Admitted { s.toCore with ledgers := ledgers } (ledgerKey root a) ∧
        s' = { s with ledgers := ledgers }) := by
  simp only [admitConversationWorkBudget, wp]
  split
  · next ledger found =>
    simp only [admitToLedger, wp, saveConversationWorkLedger]
    intro _ _ room
    have counts := counted.counts _ _ found
    have here : s.ledgers.get? ledger.key = some ledger := get?_key found
    have key : ledger.key = ledgerKey root a := key_of_get? found
    refine ⟨_, .single (.ledger here (.join _ ?_ room admits) (.inl ⟨_, rfl⟩)), ?_, rfl⟩
    · split <;> omega
    · rw [← key] at counts ⊢
      refine ⟨{ ledger with delegations := _ }, get?_put_self here, ?_⟩
      dsimp only
      split <;> omega
  · next missing =>
    simp only [admitNewLedger, wp, insertConversationWorkLedger, ensures_insertRow]
    intro _ grown inserted
    have none := counted.none missing
    refine ⟨grown, .single (.openLedger rfl rfl rfl inserted
      (.inl ⟨admits, by show 1 ≤ 32; omega⟩)), ⟨_, get?_insert?_self inserted, ?_⟩, rfl⟩
    dsimp only [openLedger]
    omega

theorem saveDelegationSubjects_core {source : Authority} :
    (saveDelegationSubjects id source execution).Ensures s
      (fun _ s' => s'.toCore = s.toCore) := by
  rw [saveDelegationSubjects, ensures_onlyIf, ensures_insertRow]
  exact ⟨fun _ _ _ => rfl, fun _ => rfl⟩

theorem readOnly_checkAdmissionSource (source : Conversation) (a : Authority) :
    (checkAdmissionSource source a).ReadOnly := by
  intro s
  unfold checkAdmissionSource
  split
  · simp
  · simp

theorem readOnly_checkAdmissionRun (source : Conversation) (runID : Option Id) (a : Authority) :
    (checkAdmissionRun source runID a).ReadOnly := by
  intro s
  unfold checkAdmissionRun
  split
  · simp
  · simp

theorem admitDelegation_changes (admits : allowed .admits)
    (counted : s.Counted) : Changes allowed (admitDelegation input a) s := by
  simp only [admitDelegation, wp, ensures_getConversation,
    (readOnly_checkAdmissionSource _ _).ensures, (readOnly_checkAdmissionRun _ _ _).ensures,
    ensures_checkConversationQueueCapacity]
  intro _ _ _ _ _ _ _ _ _ passed root _
  have room := queueRoom_of_check passed
  refine (admitConversationWorkBudget_admits admits counted).mono ?_
  rintro workBudget _ ⟨ledgers, moves, admitted, rfl⟩ references _ dependencies frozen
  have links : Linked s.delegations (admittedDelegation input root workBudget dependencies a) :=
    freezeTaskDependencies_linked (s := { s with ledgers := ledgers }) frozen rfl rfl
  simp only [recordAdmission, wp, insertConversation, ensures_insertRow, ensures_insertTask]
  intro conversations opened tasks insertedTask delegations inserted
  refine saveDelegationSubjects_core.mono ?_
  intro _ t core
  simp only [saveAgreementRevision, wp, insertAssignment, ensures_insertRow]
  intro assignments insertedRow _ _
  have before : t.assignments = s.assignments :=
    (congrArg Core.assignments core).trans rfl
  rw [before] at insertedRow
  show Steps allowed s.toCore { t.toCore with
    agreements := record t.toCore.agreements _, assignments := assignments }
  rw [core]
  have hosted : Hosted conversations input.conversationID input.executor :=
    ⟨_, get?_insert?_self opened, rfl⟩
  refine moves.steps.trans (.head (.move (.openConversation rfl opened)) ?_)
  exact .single (.admitDelegation
    (s := { s.toCore with ledgers := ledgers, conversations := conversations }) rfl
    ⟨rfl, rfl, rfl, rfl, rfl, rfl, rfl, rfl, rfl, rfl, by exact rfl⟩ rfl
    (agreementEntry_records _ _ _) insertedTask inserted room rfl links admitted
    ⟨rfl, rfl, rfl, rfl⟩ insertedRow rfl admits hosted rfl rfl)

theorem createConversationDelegation_changes (admits : allowed .admits)
    (counted : s.Counted) :
    Changes allowed (createConversationDelegation input a) s := by
  simp only [createConversationDelegation, wp, ensures_conversationAuthority]
  intro _ _
  split
  · rw [ensures_demand]
    exact fun _ => .refl
  · exact admitDelegation_changes admits counted

/-! ### Transfer -/

theorem transferDelegationSubjects_core {source executor : Authority} :
    (transferDelegationSubjects d source execution executor).Ensures s
      (fun _ s' => s'.toCore = s.toCore) := by
  simp only [transferDelegationSubjects, wp, (readOnly_delegationSubjects _ _).ensures]
  intro found _
  split
  · exact saveDelegationSubjects_core
  · simp

theorem saveDisagreements_write {values : List Disagreement} :
    (forEach values saveDisagreement).Ensures s (fun _ s' => ∃ disagreements,
      s' = { s with disagreements := disagreements }) :=
  ensures_forEach (R := fun s s' => ∃ disagreements, s' = { s with disagreements := disagreements })
    (fun s => ⟨s.disagreements, rfl⟩)
    (by rintro _ _ _ ⟨_, rfl⟩ ⟨disagreements, rfl⟩; exact ⟨disagreements, rfl⟩)
    (fun _ _ _ => by simp only [saveDisagreement, wp]; exact fun _ => ⟨_, rfl⟩) s

theorem transferDisagreementResponsibilities_writes {toAgentID : Id} :
    (transferDisagreementResponsibilities d toAgentID a).Ensures s (fun _ s' => ∃ disagreements,
      s' = { s with disagreements := disagreements }) := by
  simp only [transferDisagreementResponsibilities, wp]
  exact fun _ _ => saveDisagreements_write

theorem recordTransfer_changes {input : Transfer} {number : Nat} {budget : TaskBudget}
    {subjects : Authority × Authority} (found : s.delegations.get? d.id = some d)
    (room : QueueRoom s.toCore input.executor)
    (remaining : budget = conversationDelegationRemainingBudget s.toCore d)
    (handed : HandedOver s.toCore d input.handoff)
    (links : ∀ disagreements, Linked s.delegations
      (transferredDelegation d input number dependencies disagreements)) :
    Changes allowed (recordTransfer d input number dependencies budget subjects a) s := by
  simp only [recordTransfer, wp, insertConversation, ensures_insertRow, ensures_insertTask]
  intro conversations opened tasks insertedTask
  refine transferDisagreementResponsibilities_writes.mono ?_
  rintro disagreements _ ⟨_, rfl⟩
  simp only [ensures_saveConversationDelegation, insertAssignment, ensures_insertRow]
  intro _ _ _ _ assignments insertedRow
  refine supersedePeerMessages_tells.mono ?_
  rintro _ _ ⟨before, told, rfl⟩
  refine transferDelegationSubjects_core.mono ?_
  intro _ t core
  simp only [saveAgreementRevision, wp]
  refine supersedePeerMessages_tells.mono ?_
  rintro _ _ ⟨after, told', rfl⟩
  have messages : t.peerMessages = before := congrArg Core.peerMessages core
  replace told' : Told t.peerMessages after := told'
  show Steps allowed s.toCore
    { t.toCore with agreements := record t.toCore.agreements _, peerMessages := after }
  rw [messages] at told'
  rw [core]
  let out := transferredDelegation d input number dependencies disagreements
  let reassigned : Core :=
    { s.toCore with
      conversations := conversations, tasks := tasks, delegations := s.delegations.put out
      agreements := record s.agreements (agreementEntry out .assignment input.reason)
      assignments := assignments }
  have same : SameDelegation d out := ⟨rfl, rfl, rfl, rfl, rfl, rfl⟩
  have hosted : Hosted conversations input.conversationID input.executor :=
    ⟨_, get?_insert?_self opened, rfl⟩
  have transfers : Step allowed { s.toCore with conversations := conversations } reassigned :=
    .transferDelegation (s := { s.toCore with conversations := conversations }) found same rfl
      ⟨rfl, rfl, rfl, rfl, rfl, rfl, rfl, rfl, rfl, rfl, by exact rfl⟩ rfl
      (agreementEntry_records _ _ _) insertedTask room rfl (.inr (links disagreements))
      ⟨rfl, rfl, rfl, rfl⟩ insertedRow remaining hosted
      ⟨handed.ended, handed.worked, handed.settled, handed.effects⟩ rfl
  have tells : Told s.peerMessages after := Relation.ReflTransGen.trans told told'
  refine .head (.move (.openConversation rfl opened)) (.head transfers ?_)
  exact (Told.moves (s := reassigned) tells).steps

theorem transferConversationDelegation_changes {input : Transfer} :
    Changes allowed (transferConversationDelegation id input a) s := by
  simp only [transferConversationDelegation, ensures_bind, ensures_demand]
  intro _
  refine participantDelegation_found.mono ?_
  rintro d _ ⟨rfl, found, workspace⟩
  simp only [(readOnly_delegationAuthorities _ _).ensures, wp, ensures_taskRow,
    ensures_checkConversationQueueCapacity]
  intro _ _ _ _ _ _ _ _ _ _ _ _ _ handoff prepared same dependencies frozen _ passed
  subst same
  refine recordTransfer_changes (get?_key found) (queueRoom_of_check passed) rfl
    (prepareDelegationHandoff_hands prepared) fun _ => ?_
  exact resumeDependencyReferences_linked frozen rfl rfl (goalKey_of_workspace workspace)

/-- An update of a delegation that only counts its revision. -/
theorem republished_moves (found : s.delegations.get? d.id = some d) (revision : Nat) :
    Moves allowed s.toCore { s.toCore with
      delegations := s.delegations.put { d with revision := revision } } := by
  refine .single (.touchDelegation found ⟨rfl, rfl, rfl, rfl, rfl, rfl⟩ ⟨rfl, rfl⟩
    ⟨rfl, rfl, rfl, rfl, rfl⟩ (fun live => .inl live) fun current accepted => ?_)
  obtain ⟨delivery, settled, agreed⟩ := current accepted
  exact ⟨delivery, settled, agreed⟩

theorem republishDelivery_follows {input : DeliveryPublication} :
    Follows allowed (republishDelivery id input a) s := by
  simp only [republishDelivery, wp, ensures_conversationDelegation,
    (readOnly_delegationSubjects _ _).ensures, ensures_saveConversationDelegation,
    ensures_insertRow]
  intro d visible _ _ _ _ _ _ _ _ _ _ _ _ _ _ _
  exact republished_moves (get?_key (get?_of_conversationDelegation visible)) _

theorem publishDelegation_follows {expectedRevision : Nat} :
    Follows allowed (publishDelegation id expectedRevision a) s := by
  simp only [publishDelegation, wp, ensures_conversationDelegation,
    ensures_saveConversationDelegation]
  intro d visible _ _ _ _ _
  exact republished_moves (get?_key (get?_of_conversationDelegation visible)) _

/-! ### Updates -/

/-- What an update makes of a delegation: it keeps the agreement and at most
goes on executing, stops the task, changes the agreement, or takes the work up
again. -/
inductive Amended (d : Delegation) (action : DelegationAction) (out : Amendment) : Prop
  | quiet (control : action.control = none) (changed : out.changed = false)
      (agreement : SameAgreement d out.delegation)
      (live : out.delegation.status.live = true → d.status.live = true)
      (accepted : AcceptedCurrent d → AcceptedCurrent out.delegation)
  | stop {c : Control} (control : action.control = some c) (stops : c ≠ .resume)
      (changed : out.changed = false) (agreement : SameAgreement d out.delegation)
      (dead : out.delegation.status.live = false)
  | change {c : Control} (amends : action.amends = true) (control : action.control = some c)
      (stops : c ≠ .resume) (changed : out.changed = true) (dead : out.delegation.status.live = false)
  | resume (control : action.control = some .resume)
      (agreement : out.changed = false → SameAgreement d out.delegation)
      (status : out.delegation.status = .accepted)

/-- What every amendment keeps, and how it links the delegation. -/
structure Kept (delegations : Table Delegation.id) (d out : Delegation) : Prop where
  same : SameDelegation d out
  assignment : SameAssignment d out
  revision : out.agreementRevision = d.agreementRevision
  links : Relinked delegations d out

/-! #### Deliveries -/

/-- A delivery that may be accepted is one for the current agreement. -/
theorem acceptableDelivery_spec (acceptable : acceptableDelivery d = true) :
    d.status = .delivered ∧ d.pendingChanges = [] ∧ ∃ delivery, d.delivery = some delivery ∧
      delivery.briefVersion = d.brief.version ∧
      delivery.agreementRevision = d.agreementRevision := by
  simp only [acceptableDelivery, Bool.and_eq_true, decide_eq_true_eq, List.isEmpty_iff,
    Option.any_eq_true, beq_iff_eq] at acceptable
  obtain ⟨⟨status, settled⟩, delivery, there, brief, revision⟩ := acceptable
  exact ⟨status, settled, delivery, there, brief, revision⟩

/-- A review is of the delivery there is. -/
theorem reviewedDelivery_spec (ok : reviewedDelivery d update review = .ok report) :
    acceptableDelivery d = true ∧ ∃ delivery, d.delivery = some delivery ∧
      report.deliveryDigest = delivery ∧ (report.ready = true →
        ∀ issue ∈ d.disagreements, disagreementBlocks issue d (some delivery) = false) := by
  obtain ⟨acceptable, reviewed⟩ := except_ite_ok (except_ite_ok ok).2
  split at reviewed
  · next there =>
    obtain ⟨_, verified⟩ := except_ite_ok reviewed
    obtain ⟨ready, _, verified⟩ := except_bind_ok verified
    cases verified
    refine ⟨Bool.not_eq_false _ ▸ acceptable, _, there, rfl, fun holds issue member => ?_⟩
    simp only [Bool.and_eq_true, Bool.not_eq_true', List.any_eq_false] at holds
    exact Bool.eq_false_iff.mpr (holds.2 issue member)
  · cases reviewed

/-! #### Disagreements -/

theorem mem_replaceF
    (member : issue ∈ summaries.replaceF (fun v => if v.id = id then some summary else none)) :
    issue = summary ∨ issue ∈ summaries := by
  induction summaries with
  | nil => cases member
  | cons first rest ih =>
    rw [List.replaceF] at member
    split at member
    · rcases List.mem_cons.mp member with rfl | member
      · exact .inr List.mem_cons_self
      · exact (ih member).imp_right (List.mem_cons_of_mem _)
    · next found =>
      rcases List.mem_cons.mp member with rfl | member
      · split at found
        · exact .inl (Option.some.inj found).symm
        · cases found
      · exact .inr (List.mem_cons_of_mem _ member)

theorem mem_storeSummary (member : issue ∈ storeSummary summaries change summary) :
    issue = summary ∨ issue ∈ summaries := by
  cases change with
  | raise => simpa [storeSummary, or_comm] using member
  | addClaim | decide => exact mem_replaceF member

/-- A disagreement leaves an accepted delivery only where it does not block
it. -/
theorem applyDisagreement_current (ok : applyDisagreement s d change source a = .ok (next, value))
    (current : AcceptedCurrent d) : AcceptedCurrent next := by
  obtain ⟨_, ok⟩ := except_ite_ok ok
  obtain ⟨_, _, ok⟩ := except_bind_ok ok
  obtain ⟨value', _, ok⟩ := except_bind_ok ok
  cases ok
  intro accepted
  dsimp only at accepted
  split at accepted
  · cases accepted
  · next free =>
    obtain ⟨delivery, settled, agreed⟩ := current accepted
    refine ⟨delivery, settled, fun issue member => ?_⟩
    rcases mem_storeSummary member with rfl | member
    · exact Bool.eq_false_iff.mpr fun blocks => free ⟨accepted, blocks⟩
    · exact agreed issue member

/-- Beside that, it changes the summaries alone. -/
theorem applyDisagreement_kept (ok : applyDisagreement s d change source a = .ok (next, value)) :
    ∃ disagreements status, next = { d with disagreements := disagreements, status := status } ∧
      (status.live = true → d.status.live = true) := by
  obtain ⟨_, ok⟩ := except_ite_ok ok
  obtain ⟨_, _, ok⟩ := except_bind_ok ok
  obtain ⟨value', _, ok⟩ := except_bind_ok ok
  cases ok
  refine ⟨_, _, rfl, ?_⟩
  split
  · next accepted =>
    intro _
    rw [accepted.1]
    rfl
  · exact id

/-! #### The switch -/

theorem deliverTo_amends (ok : deliverTo s d delivery evaluation source a = .ok out) :
    Kept s.delegations d out.delegation ∧ Amended d (.deliver delivery evaluation) out := by
  obtain ⟨executing, ok⟩ := except_ite_ok ok
  obtain ⟨_, ok⟩ := except_ite_ok ok
  obtain ⟨_, _, ok⟩ := except_bind_ok ok
  obtain ⟨_, _, ok⟩ := except_bind_ok ok
  cases ok
  refine ⟨⟨⟨rfl, rfl, rfl, rfl, rfl, rfl⟩, ⟨rfl, rfl⟩, rfl, .inl rfl⟩,
    .quiet rfl rfl ⟨rfl, rfl, rfl, rfl, rfl⟩ (fun _ => ?_) (fun _ => .of_status nofun)⟩
  rcases not_not.mp executing with status | status | status <;> rw [status] <;> rfl

theorem resumeWith_amends {refs : Option (List DependencyInput)} {granted : List Id}
    (workspace : d.InWorkspace a) (ok : resumeWith s d refs a granted = .ok out) :
    Kept s.delegations d out.delegation ∧ Amended d (.resume refs) out := by
  obtain ⟨_, ok⟩ := except_ite_ok ok
  obtain ⟨dependencies, frozen, ok⟩ := except_bind_ok ok
  dsimp only at ok
  split at ok
  · cases ok
    exact ⟨⟨⟨rfl, rfl, rfl, rfl, rfl, rfl⟩, ⟨rfl, rfl⟩, rfl, .inl rfl⟩,
      .resume rfl (fun _ => ⟨rfl, rfl, rfl, rfl, rfl⟩) rfl⟩
  · cases ok
    refine ⟨⟨⟨rfl, rfl, rfl, rfl, rfl, rfl⟩, ⟨rfl, rfl⟩, rfl, .inr ?_⟩, .resume rfl nofun rfl⟩
    exact resumeDependencyReferences_linked frozen rfl rfl (goalKey_of_workspace workspace)

theorem amend_amends (workspace : d.InWorkspace a) (ok : amend s d update a = .ok out) :
    Kept s.delegations d out.delegation ∧ Amended d update.action out := by
  unfold amend at ok
  generalize update.action = action at ok ⊢
  cases action with
  | disagreement change =>
    obtain ⟨⟨next, value⟩, applied, ok⟩ := except_bind_ok ok
    cases ok
    obtain ⟨disagreements, status, rfl, live⟩ := applyDisagreement_kept applied
    exact ⟨⟨⟨rfl, rfl, rfl, rfl, rfl, rfl⟩, ⟨rfl, rfl⟩, rfl, .inl rfl⟩,
      .quiet rfl rfl ⟨rfl, rfl, rfl, rfl, rfl⟩ live (applyDisagreement_current applied)⟩
  | reviewDelivery review =>
    obtain ⟨report, reviewed, ok⟩ := except_bind_ok ok
    cases ok
    obtain ⟨status, _⟩ := acceptableDelivery_spec (reviewedDelivery_spec reviewed).1
    refine ⟨⟨⟨rfl, rfl, rfl, rfl, rfl, rfl⟩, ⟨rfl, rfl⟩, rfl, .inl rfl⟩,
      .quiet rfl rfl ⟨rfl, rfl, rfl, rfl, rfl⟩ id fun _ => .of_status fun accepted => ?_⟩
    exact nomatch status.symm.trans accepted
  | acceptDelivery review =>
    obtain ⟨report, reviewed, ok⟩ := except_bind_ok ok
    obtain ⟨_, acceptance, ok⟩ := except_bind_ok ok
    cases ok
    have ready : report.ready = true := Bool.not_eq_false _ ▸ (except_ite_ok acceptance).1
    obtain ⟨acceptable, delivery, there, digest, agreed⟩ := reviewedDelivery_spec reviewed
    obtain ⟨status, settled, _, there', brief, revision⟩ := acceptableDelivery_spec acceptable
    cases there.symm.trans there'
    refine ⟨⟨⟨rfl, rfl, rfl, rfl, rfl, rfl⟩, ⟨rfl, rfl⟩, rfl, .inl rfl⟩,
      .quiet rfl rfl ⟨rfl, rfl, rfl, rfl, rfl⟩ (fun _ => by rw [status]; rfl) fun _ _ => ?_⟩
    refine ⟨⟨delivery, report, there, brief, revision, rfl, digest, ready⟩, settled, ?_⟩
    exact fun issue member => there ▸ agreed ready issue member
  | deliver delivery evaluation => exact deliverTo_amends ok
  | requestChanges | pause | cancel | reject =>
    cases ok
    exact ⟨⟨⟨rfl, rfl, rfl, rfl, rfl, rfl⟩, ⟨rfl, rfl⟩, rfl, .inl rfl⟩,
      .stop rfl nofun rfl ⟨rfl, rfl, rfl, rfl, rfl⟩ rfl⟩
  | updateBrief brief =>
    obtain ⟨_, ok⟩ := except_ite_ok ok
    cases (except_ite_ok ok).2
    exact ⟨⟨⟨rfl, rfl, rfl, rfl, rfl, rfl⟩, ⟨rfl, rfl⟩, rfl, .inl rfl⟩, .change rfl rfl nofun rfl rfl⟩
  | updateInput input =>
    cases (except_ite_ok ok).2
    exact ⟨⟨⟨rfl, rfl, rfl, rfl, rfl, rfl⟩, ⟨rfl, rfl⟩, rfl, .inl rfl⟩, .change rfl rfl nofun rfl rfl⟩
  | setDependencies refs =>
    obtain ⟨dependencies, frozen, ok⟩ := except_bind_ok ok
    cases ok
    refine ⟨⟨⟨rfl, rfl, rfl, rfl, rfl, rfl⟩, ⟨rfl, rfl⟩, rfl, .inr ?_⟩,
      .change rfl rfl nofun rfl rfl⟩
    exact freezeTaskDependencies_linked frozen rfl (goalKey_of_workspace workspace)
  | resume refs => exact resumeWith_amends workspace ok

theorem updatedDelegation_unchanged (update : DelegationUpdate) (changed : out.changed = false) :
    updatedDelegation out update =
      { out.delegation with decision := update.reason, revision := out.delegation.revision + 1 } := by
  simp [updatedDelegation, changed]

/-- The record an update saves is the amended one, under the next revision of
the agreement if that changed. -/
theorem updatedDelegation_kept (update : DelegationUpdate)
    (kept : Kept delegations d out.delegation) : SameDelegation d (updatedDelegation out update) ∧
      SameAssignment d (updatedDelegation out update) ∧
      (updatedDelegation out update).status = out.delegation.status ∧
      (out.changed = true →
        (updatedDelegation out update).agreementRevision = d.agreementRevision + 1) := by
  obtain ⟨⟨id, owner, root, work, budget, exited⟩, ⟨task, conversation⟩, revision, _⟩ := kept
  unfold updatedDelegation
  dsimp only
  split
  · exact ⟨⟨id, owner, root, work, budget, exited⟩, ⟨task, conversation⟩, rfl,
      fun _ => by rw [← revision]⟩
  · next unchanged =>
    exact ⟨⟨id, owner, root, work, budget, exited⟩, ⟨task, conversation⟩, rfl,
      fun changed => absurd changed unchanged⟩

theorem updatedDelegation_links (update : DelegationUpdate)
    (kept : Kept delegations d out.delegation) :
    Relinked delegations d (updatedDelegation out update) := by
  have dependencies : (updatedDelegation out update).dependencies = out.delegation.dependencies := by
    unfold updatedDelegation
    dsimp only
    split <;> rfl
  obtain ⟨same, _⟩ := updatedDelegation_kept update kept
  refine kept.links.imp dependencies.trans fun linked => ?_
  exact linked.congr (same.id.trans kept.same.id.symm) dependencies
    (same.goalKey.trans kept.same.goalKey.symm)

theorem announceChange_tells : Tells (announceChange d fields action a) s := by
  unfold announceChange
  split
  · exact ensures_pure.mpr ⟨s.peerMessages, .refl, rfl⟩
  · exact requirementChangeNotices_tells

theorem announceRejection_tells : Tells (announceRejection d action a) s := by
  unfold announceRejection
  split
  · exact insertConversationPeerNotice_tells
  · exact ensures_pure.mpr ⟨s.peerMessages, .refl, rfl⟩

/-- What follows the change of an agreement, once that is recorded. -/
theorem announceAgreement_follows {out : Delegation}
    (recorded : entry = agreementEntry out (.requirements fields) update.reason)
    (sane : Sane allowed clean start) (found : start.delegations.get? d.id = some d)
    (same : SameDelegation d out)
    (before : Steps allowed start { s.toCore with agreements := record s.agreements entry })
    (confined : Confined d.taskID d.id start
      { s.toCore with agreements := record s.agreements entry })
    (stale : StopsBelow allowed start d.id) :
    (announceAgreement out fields update a).Runs s
      (fun _ t => Steps allowed start t.toCore) (Fine clean) := by
  subst recorded
  simp only [announceAgreement, runs_bind, runs_sound sound_supersedePeerMessages]
  refine supersedePeerMessages_tells.mono ?_
  rintro _ _ ⟨messages, told, rfl⟩
  simp only [saveAgreementRevision, runs_sound throws_write, wp]
  have superseded : Steps allowed start _ := before.trans (Told.moves (s := { s.toCore with
    agreements := record s.agreements (agreementEntry out (.requirements fields) update.reason) })
    told).steps
  refine Runs.mono (propagateRequirementChange_follows (same.id ▸ stale) (sane.steps superseded)
    fun e there other => ?_) ?_
  · -- It reaches every other delegation of its goal as it was before the operation.
    replace other : e.id ≠ d.id := same.id ▸ other
    have apart := confined.messages messages
    have earlier : start.delegations.get? e.id = some e :=
      (apart.delegations e.id other).symm.trans there
    have untouched : Untouched start start e := ⟨earlier, earlier, rfl, fun _ _ _ _ _ run => run⟩
    exact untouched.after sane.routed apart other (sane.routed.taskID_ne earlier found other)
  · intro _ t after
    rw [runs_sound sound_announceChange]
    refine announceChange_tells.mono ?_
    rintro _ _ ⟨last, told', rfl⟩
    exact (superseded.trans after.steps).trans (Told.moves told').steps

/-- The task of a delegation belongs to it. -/
theorem assigned_belongs {s : Core} {out : Delegation}
    (routed : s.Routed) (found : s.delegations.get? d.id = some d)
    (same : SameDelegation d out) (assignment : SameAssignment d out) :
    ∀ task, s.tasks.get? out.taskID = some task → task.delegationID = some out.id := by
  intro task named
  obtain ⟨task', named', belongs, _⟩ := routed.assigned found
  rw [assignment.task, named'] at named
  cases named
  rw [same.id]
  exact belongs

theorem sameAgreement_updated (update : DelegationUpdate) (changed : out.changed = false)
    (agreement : SameAgreement d out.delegation) :
    SameAgreement d (updatedDelegation out update) := by
  rw [updatedDelegation_unchanged update changed]
  exact ⟨agreement.revision, agreement.brief, agreement.input, agreement.inputSource,
    agreement.dependencies⟩

/-- Enacting a saved amendment follows the protocol from before it was saved. -/
abbrev Enacts (allowed : Hazard → Prop) (clean : Prop) (out : Amendment) (update : DelegationUpdate)
    (a : Authority) (s : Db) : Prop :=
  (enactAmendment out update a).Runs
    { s with delegations := s.delegations.put (updatedDelegation out update) }
    (fun _ t => Steps allowed s.toCore t.toCore) (Fine clean)

theorem requeuedTask_same (d : Delegation) (task : Task) (budget : TaskBudget) :
    SameTask task (requeuedTask d task budget) ∧
      (requeuedTask d task budget).plan = task.plan ∧
      (requeuedTask d task budget).completion = task.completion ∧
      RunsKept task (requeuedTask d task budget) := by
  obtain ⟨runs, eq, kept⟩ := appendConversationTaskPreviousRun_eq task
  unfold requeuedTask
  rw [eq]
  exact ⟨⟨rfl, rfl, rfl, rfl, rfl, rfl⟩, rfl, rfl, kept _ rfl rfl⟩

/-- Work that is taken up again is queued under the agreement it has. -/
theorem resume_controls (allowed : Hazard → Prop) (found : s.delegations.get? d.id = some d)
    (kept : Kept s.delegations d out.delegation)
    (agreement : out.changed = false → SameAgreement d out.delegation)
    (accepted : out.delegation.status = .accepted)
    (records : Records entry (updatedDelegation out update)) :
    (controlDelegationTask (updatedDelegation out update) .resume a).Runs
      { s with delegations := s.delegations.put (updatedDelegation out update) }
      (fun _ t => (out.changed = false → Step allowed s.toCore t.toCore) ∧
        (out.changed = true →
          Step allowed s.toCore { t.toCore with agreements := record t.agreements entry } ∧
          Confined d.taskID d.id s.toCore
            { t.toCore with agreements := record t.agreements entry })) (Fine clean) := by
  obtain ⟨same, assignment, status, raised⟩ := updatedDelegation_kept update kept
  refine controlDelegationTask_requeues.mono ?_
  rintro _ _ ⟨task, named, ended, room, rfl⟩
  have named : s.tasks.get? (updatedDelegation out update).taskID = some task := named
  have key : task.id = (updatedDelegation out update).taskID := key_of_get? named
  obtain ⟨sameTask, plan, completion, runs⟩ :=
    requeuedTask_same (updatedDelegation out update) task
      (conversationDelegationRemainingBudget s.toCore (updatedDelegation out update))
  have resume : ∀ agreements,
      (SameAgreement d (updatedDelegation out update) ∧ agreements = s.agreements ∨
        (updatedDelegation out update).agreementRevision = d.agreementRevision + 1 ∧
          ∃ entry, Records entry (updatedDelegation out update) ∧
            agreements = record s.agreements entry) →
      Step allowed s.toCore { s.toCore with
        delegations := s.delegations.put (updatedDelegation out update)
        tasks := s.tasks.put (requeuedTask (updatedDelegation out update) task
          (conversationDelegationRemainingBudget s.toCore (updatedDelegation out update)))
        agreements := agreements } := by
    intro agreements terms
    refine .resumeDelegation found same assignment terms (get?_key named) ended sameTask plan
      (key.symm.trans sameTask.id.symm) rfl rfl rfl rfl rfl room (status.trans accepted)
      (updatedDelegation_links update kept) runs completion rfl ?_
    change conversationDelegationRemainingBudget s.toCore _ = _
    simp only [conversationDelegationRemainingBudget, conversationAssignments, same.id, same.budget]
  refine ⟨fun unchanged => ?_, fun changed => ⟨?_, ?_⟩⟩
  · exact resume _ (.inl ⟨sameAgreement_updated update unchanged (agreement unchanged), rfl⟩)
  · exact resume _ (.inr ⟨raised changed, entry, records, rfl⟩)
  · refine ⟨fun t' other => get?_put_of_ne ?_, fun _ _ there _ => there,
      fun id' other => get?_put_of_ne (same.id ▸ other)⟩
    exact fun it => other (it.trans (sameTask.id.trans (key.trans assignment.task)))

/-- Delegations whose task an action controls: its own and, if the agreement can
change, those downstream. -/
def Controls (delegations : Table Delegation.id) (id : Id) (action : DelegationAction) (e : Id) :
    Prop :=
  e = id ∧ action.control ≠ none ∨ action.amends = true ∧ Downstream delegations id e

/-- Every task under the control of an action may be stopped. -/
abbrev StopsUnder (allowed : Hazard → Prop) (s : Core) (id : Id) (action : DelegationAction) : Prop :=
  ∀ e, s.delegations.get? e.id = some e → Controls s.delegations id action e.id →
    Stops allowed s e.taskID

theorem amends_of_control (control : action.control = some .resume) : action.amends = true := by
  cases action <;> first | rfl | cases control

theorem recordDelivery_writes : (recordDelivery d update).Ensures s (fun _ s' => ∃ records,
      s' = { s with deliveryRecords := records }) := by
  unfold recordDelivery
  split
  · exact ensures_pure.mpr ⟨s.deliveryRecords, rfl⟩
  · simp only [saveDeliveryRecord, wp]
    exact fun _ _ _ _ _ => ⟨_, rfl⟩

theorem readOnly_disagreementRecipient (d : Delegation) (summary : DisagreementSummary)
    (a : Authority) : (disagreementRecipient d summary a).ReadOnly := by
  intro s
  unfold disagreementRecipient
  refine ensures_ite.mpr ⟨fun _ => ?_, fun _ => ensures_pure.mpr rfl⟩
  simp

theorem disagreementNotice_tells : Tells (disagreementNotice d source a value) s := by
  simp only [disagreementNotice, wp]
  refine (forEach_tells fun _ _ _ => supersedeMessage_tells).mono ?_
  rintro _ _ ⟨superseded, told, rfl⟩
  simp only [(readOnly_disagreementRecipient _ _ _).ensures, ensures_onlyIf]
  intro _ _
  refine ⟨fun _ => ?_, fun _ => ⟨superseded, told, rfl⟩⟩
  refine insertConversationPeerNotice_tells.mono ?_
  rintro _ _ ⟨messages, told', rfl⟩
  exact ⟨messages, told.trans told', rfl⟩

theorem readOnly_checkDelegationActor (d : Delegation) (update : DelegationUpdate) (a : Authority) :
    (checkDelegationActor d update a).ReadOnly := by
  intro s
  simp only [checkDelegationActor, wp, ensures_onlyIf]
  intro _
  exact ⟨fun _ _ _ _ => trivial, fun _ _ => trivial⟩

variable (sane : Sane allowed clean s.toCore)

include sane

section

variable (found : s.delegations.get? d.id = some d) (kept : Kept s.delegations d out.delegation)

include found kept

/-- An update that leaves the agreement leaves the work or stops it. -/
theorem stop_changes (stale : Stops allowed s.toCore d.taskID)
    (control : update.action.control = some c) (stops : c ≠ .resume) (changed : out.changed = false)
    (agreement : SameAgreement d out.delegation) (dead : out.delegation.status.live = false) :
    Enacts allowed clean out update a s := by
  obtain ⟨same, assignment, status, _⟩ := updatedDelegation_kept update kept
  have belongs := assigned_belongs sane.routed found same assignment
  have touch : Moves allowed s.toCore { s.toCore with
      delegations := s.delegations.put (updatedDelegation out update) } :=
    .single (.touchDelegation found same assignment (sameAgreement_updated update changed agreement)
      (fun live => by rw [status, dead] at live; cases live) fun _ => .of_dead (status ▸ dead))
  simp only [Enacts, enactAmendment, controlAction, control, runs_bind, changed, runs_onlyIf]
  refine Runs.mono (controlDelegationTask_stops (sane.steps touch.steps) belongs stops
    (assignment.task ▸ stale)) ?_
  rintro _ t ⟨moves, _⟩
  exact ⟨by simp, fun _ => touch.steps.trans moves.steps⟩

/-- A changed agreement stops the work under the old one. -/
theorem change_controls (stale : Stops allowed s.toCore d.taskID)
    (stops : c ≠ .resume) (changed : out.changed = true) (dead : out.delegation.status.live = false)
    (records : Records entry (updatedDelegation out update)) :
    (controlDelegationTask (updatedDelegation out update) c a).Runs
      { s with delegations := s.delegations.put (updatedDelegation out update) }
      (fun _ t =>
        Steps allowed s.toCore { t.toCore with agreements := record t.agreements entry } ∧
        Confined d.taskID d.id s.toCore { t.toCore with agreements := record t.agreements entry })
      (Fine clean) := by
  obtain ⟨same, assignment, status, raised⟩ := updatedDelegation_kept update kept
  have belongs := assigned_belongs sane.routed found same assignment
  have stopped : (updatedDelegation out update).status.live = false := status ▸ dead
  have amend : Step allowed s.toCore { s.toCore with
      delegations := s.delegations.put (updatedDelegation out update)
      agreements := record s.agreements entry } :=
    .amendDelegation found same assignment (raised changed) stopped records
      (updatedDelegation_links update kept)
  have saved := sane.steps (.single amend)
  refine Runs.mono (controlDelegationTask_stops ⟨saved.routed, saved.history, saved.current⟩
    belongs stops (assignment.task ▸ stale)) ?_
  rintro _ t ⟨moves, confined⟩
  have along := moves.beside (record s.agreements entry)
  have there : t.agreements = s.agreements := moves.agreements
  refine ⟨.head amend (there ▸ along.steps), ?_⟩
  rw [assignment.task, same.id] at confined
  have put : Confined d.taskID d.id s.toCore { s.toCore with
      delegations := s.delegations.put (updatedDelegation out update) } :=
    ⟨fun _ _ => rfl, fun _ _ there _ => there, fun _ other => get?_put_of_ne (same.id ▸ other)⟩
  have both := put.trans confined.toConfined
  exact ⟨both.tasks, both.runs, both.delegations⟩

/-- And then it reaches the delegations that depend on it. -/
theorem change_changes (stale : StopsBelow allowed s.toCore d.id)
    (control : update.action.control = some c) (stops : c ≠ .resume) (changed : out.changed = true)
    (dead : out.delegation.status.live = false) : Enacts allowed clean out update a s := by
  obtain ⟨same, _⟩ := updatedDelegation_kept update kept
  simp only [Enacts, enactAmendment, controlAction, control, runs_bind, changed, runs_onlyIf]
  refine (change_controls sane found kept (stale d found .origin) stops changed dead
    (agreementEntry_records _ (.requirements out.fields) update.reason)).mono ?_
  rintro _ t ⟨before, confined⟩
  refine ⟨fun _ => ?_, fun unchanged => absurd trivial unchanged⟩
  exact announceAgreement_follows rfl sane found same before confined stale

theorem resume_changes (stale : StopsBelow allowed s.toCore d.id)
    (control : update.action.control = some .resume)
    (agreement : out.changed = false → SameAgreement d out.delegation)
    (accepted : out.delegation.status = .accepted) : Enacts allowed clean out update a s := by
  obtain ⟨same, _⟩ := updatedDelegation_kept update kept
  simp only [Enacts, enactAmendment, controlAction, control, runs_bind, runs_onlyIf]
  refine (resume_controls allowed found kept agreement accepted
    (agreementEntry_records _ (.requirements out.fields) update.reason)).mono ?_
  rintro _ t ⟨unchanged, changes⟩
  refine ⟨fun changed => ?_, fun same => .single (unchanged (Bool.not_eq_true _ ▸ same))⟩
  obtain ⟨step, confined⟩ := changes changed
  exact announceAgreement_follows rfl sane found same (.single step) confined stale

theorem enactAmendment_changes (amended : Amended d update.action out)
    (stale : StopsUnder allowed s.toCore d.id update.action) :
    Enacts allowed clean out update a s := by
  cases amended with
  | quiet control changed agreement live accepted =>
    obtain ⟨same, assignment, status, _⟩ := updatedDelegation_kept update kept
    simp only [Enacts, enactAmendment, controlAction, control, runs_bind, runs_sound throws_pure,
      wp, changed, runs_onlyIf]
    refine ⟨by simp, fun _ => .single (.move (.touchDelegation found same assignment
      (sameAgreement_updated update changed agreement) (fun executes => .inl (live ?_))
      fun current => ?_))⟩
    · rw [← status]
      exact executes
    · rw [updatedDelegation_unchanged update changed]
      intro status
      obtain ⟨delivery, settled, agreed⟩ := accepted current status
      exact ⟨delivery, settled, agreed⟩
  | stop control stops changed agreement dead =>
    have own := stale d found (.inl ⟨rfl, by rw [control]; exact Option.some_ne_none _⟩)
    exact stop_changes sane found kept own control stops changed agreement dead
  | change amends control stops changed dead =>
    exact change_changes sane found kept
      (fun e there below => stale e there (.inr ⟨amends, below⟩)) control stops changed dead
  | resume control agreement accepted =>
    exact resume_changes sane found kept
      (fun e there below => stale e there (.inr ⟨amends_of_control control, below⟩)) control
      agreement accepted

theorem applyAmendment_changes (amended : Amended d update.action out)
    (stale : StopsUnder allowed s.toCore d.id update.action) :
    (applyAmendment out update a).Runs s (fun _ t => Steps allowed s.toCore t.toCore)
      (Fine clean) := by
  -- What it stores beside its delegation, the messages apart, is no part of the protocol.
  simp only [applyAmendment, runs_bind, runs_sound sound_saveConversationDelegation,
    runs_sound sound_announceRejection, runs_sound sound_recordDelivery]
  rw [runs_sound (throws_forEach (fun _ _ _ => by simp [saveDisagreement]) s)]
  refine saveDisagreements_write.mono ?_
  rintro _ _ ⟨disagreements, rfl⟩
  rw [runs_sound (throws_forEach (fun _ _ _ => sound_disagreementNotice) _)]
  refine (forEach_tells fun _ _ _ => disagreementNotice_tells).mono ?_
  rintro _ _ ⟨messages, told, rfl⟩
  rw [ensures_saveConversationDelegation]
  intro _ _ _ _
  refine recordDelivery_writes.mono ?_
  rintro _ _ ⟨records, rfl⟩
  have enacts : Enacts allowed clean out update a
      { s with disagreements := disagreements, deliveryRecords := records
               peerMessages := messages } :=
    enactAmendment_changes ⟨sane.routed, sane.history, sane.current⟩ found kept amended stale
  refine enacts.mono ?_
  intro _ t enacted
  refine announceRejection_tells.mono ?_
  rintro _ _ ⟨last, told', rfl⟩
  exact ((Told.moves told).steps.trans enacted).trans (Told.moves told').steps

end

theorem updateConversationDelegation_changes (stale : StopsUnder allowed s.toCore id update.action) :
    (updateConversationDelegation id update a).Runs s (fun _ t => Steps allowed s.toCore t.toCore)
      (Fine clean) := by
  simp only [updateConversationDelegation, runs_bind, runs_sound sound_participantDelegation]
  refine participantDelegation_found.mono ?_
  rintro d s ⟨rfl, found, workspace⟩
  simp only [runs_sound sound_checkDelegationActor, (readOnly_checkDelegationActor _ _ _).ensures,
    runs_sound (sound_demand (notTaken_conflict _)), runs_sound throws_write,
    runs_sound sound_amend, wp, saveAgreementRevision]
  intro _ _ _ _ out amended
  obtain ⟨kept, amended⟩ := amend_amends workspace amended
  have here := get?_key found
  have names : d.id = id := key_of_get? found
  have entered : Step allowed s.toCore _ := .snapshot here (agreementEntry_records d
    (.requirements []) "Initial recorded agreement")
  refine Runs.mono (applyAmendment_changes (sane.steps (.single entered)) here kept amended
    (names ▸ stale)) ?_
  exact fun _ _ => .head entered

end DomainryAgent.Refinement
