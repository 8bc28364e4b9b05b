import DomainryAgent.Protocol.Plans
import DomainryAgent.Refinement.Execution

/-!
No operation fails over a plan version that is taken.

`Sound m s` says that `m`, started in `s`, never aborts with the duplicate key of
the plan table.  Statements that insert no plan are sound everywhere; the writers
of plans are sound for a task that has its last version (`Current`).  A control
is so as long as the cancellation inside it closes no plan: `Sane` is what it
starts from, and its errors are `Fine`.
-/

namespace DomainryAgent.Refinement

open Lib Tx Table Protocol

/-- Any error but the duplicate key of the plan table. -/
def NotTaken (e : Error) : Prop := e ≠ duplicate "_agent_conversation_task_plans"

/-- No failure over a stored plan version. -/
abbrev Sound {α : Type} (m : StoreTx α) (s : Db) : Prop := m.Throws s NotTaken

/-- A check that does not fail so. -/
def Refuses {α : Type} (x : Except Error α) : Prop := ∀ e, x = .error e → NotTaken e

variable {s : Db}

@[simp] theorem notTaken_badRequest (code : String) : NotTaken (badRequest code) :=
  nofun
@[simp] theorem notTaken_forbidden (code : String) : NotTaken (forbidden code) :=
  nofun
@[simp] theorem notTaken_notFound (code : String) : NotTaken (notFound code) :=
  nofun
@[simp] theorem notTaken_conflict (code : String) : NotTaken (conflict code) :=
  nofun
@[simp] theorem notTaken_rateLimited (code : String) : NotTaken (rateLimited code) :=
  nofun

theorem notTaken_duplicate {table : String} (other : table ≠ "_agent_conversation_task_plans") :
    NotTaken (duplicate table) := by
  intro same
  exact other (Error.mk.inj same).2

section Refuses

variable {α β : Type}

@[simp] theorem refuses_ok {a : α} : Refuses (.ok a : Except Error α) := fun _ failed => nomatch failed

@[simp] theorem refuses_error {e : Error} : Refuses (.error e : Except Error α) ↔ NotTaken e :=
  ⟨fun h => h e rfl, fun h _ failed => by cases failed; exact h⟩

@[simp] theorem refuses_bind {x : Except Error α} {f : α → Except Error β} :
    Refuses (x >>= f) ↔ Refuses x ∧ ∀ a, x = .ok a → Refuses (f a) := by
  cases x with
  | ok a => exact ⟨fun h => ⟨refuses_ok, fun _ is => by cases is; exact h⟩, fun h => h.2 a rfl⟩
  | error e => exact ⟨fun h => ⟨refuses_error.mpr (h e rfl), fun _ is => nomatch is⟩,
      fun h _ failed => by cases failed; exact h.1 e rfl⟩

@[simp] theorem refuses_map {x : Except Error α} {f : α → β} :
    Refuses (x.map f) ↔ Refuses x := by
  cases x with
  | ok a => exact ⟨fun _ => refuses_ok, fun _ => refuses_ok⟩
  | error e => exact refuses_error.trans refuses_error.symm

@[simp] theorem refuses_ite {p : Prop} [Decidable p] {x y : Except Error α} :
    Refuses (if p then x else y) ↔ (p → Refuses x) ∧ (¬p → Refuses y) := by
  by_cases holds : p <;> simp [holds]

@[simp] theorem refuses_fmap {x : Except Error α} {f : α → β} :
    Refuses (f <$> x) ↔ Refuses x := refuses_map

theorem refuses_mapM {items : List α} {f : α → Except Error β} (each : ∀ a, Refuses (f a)) :
    Refuses (items.mapM f) := by
  induction items with
  | nil => exact refuses_ok
  | cons a rest ih => simp [List.mapM_cons, each a, ih]

theorem refuses_peek {m : StoreTx α} (sound : Sound m s) : Refuses (m.peek s) :=
  fun _ failed => throws_peek sound failed

end Refuses

/-! ### Statements that insert no plan -/

variable {a : Authority} {id : Id} {task : Task} {d origin : Delegation}
  {fields : List AgreementField} {claim : Claim} {row : RunRow} {run : Run} {content : String}
  {start : Core} {source : Option RunReference} {value : Disagreement} {granted : List Id}
  {update : DelegationUpdate}

@[simp] theorem sound_conversationAuthority : Sound (conversationAuthority a) s := by
  simp [conversationAuthority]

@[simp] theorem sound_getConversation : Sound (getConversation id a) s := by
  simp [getConversation]

variable {c : Conversation} {expected fuel : Nat} {runID via root : Id} {v old : RunRow}
  {plan prepared : Plan} {reported : Bool} {control : Control} {items : List Delegation}
  {changed queue : List Id} {out : Delegation} {action : DelegationAction}
  {refs : List DependencyInput} {delivery : Delivery} {evaluation : Evaluation}

@[simp] theorem sound_saveConversation : Sound (saveConversation c expected a) s := by
  simp [saveConversation]

@[simp] theorem sound_insertMessage {m : Message} : Sound (insertMessage m) s := by
  simp [insertMessage, insertRow, notTaken_duplicate]

@[simp] theorem sound_runRow : Sound (runRow id runID a) s := by
  simp [runRow]

@[simp] theorem sound_saveRun : Sound (saveRun v old) s := by
  simp [saveRun]

@[simp] theorem sound_event {kind : EventKind} : Sound (event v kind) s := by
  simp [event, insertRow, notTaken_duplicate]

@[simp] theorem sound_taskRow : Sound (taskRow id a) s := by
  simp [taskRow]

@[simp] theorem sound_saveTask {expected : TaskStatus} : Sound (saveTask task expected) s := by
  simp [saveTask]

@[simp] theorem sound_saveConversationDelegation :
    Sound (saveConversationDelegation d expected a) s := by
  simp [saveConversationDelegation]

@[simp] theorem sound_delegationSubjects : Sound (delegationSubjects id a) s := by
  simp only [delegationSubjects, wpe, wp, true_and]
  split <;> simp

@[simp] theorem sound_ownedConversationDelegation : Sound (ownedConversationDelegation id a) s := by
  simp [ownedConversationDelegation]

@[simp] theorem sound_conversationDelegation : Sound (conversationDelegation id a) s := by
  simp only [conversationDelegation, wpe, wp, true_and, ensures_conversationAuthority,
    sound_conversationAuthority]
  intro _
  split
  · simp
  · simp [executionDelegation]

@[simp] theorem sound_delegationAuthorities : Sound (delegationAuthorities d a) s := by
  simp only [delegationAuthorities, wpe, sound_delegationSubjects, true_and]
  intro found t _
  split
  · simp
  · simp only [taskAuthorities, wpe, sound_taskRow, ensures_taskRow, notTaken_forbidden, wp,
      implies_true, true_and]
    intro _ _ _ _
    split <;> simp

@[simp] theorem sound_delegationMessageAuthority {conversationID : Id} :
    Sound (delegationMessageAuthority d conversationID a) s := by
  simp [delegationMessageAuthority, (readOnly_delegationAuthorities _ _).ensures,
    throws_ite]

@[simp] theorem sound_insertConversationPeerNotice {notice : Notice} {canonical : Option Delegation} :
    Sound (insertConversationPeerNotice notice a canonical) s := by
  simp [insertConversationPeerNotice, insertNotice]

@[simp] theorem sound_supersedeMessage {id : PeerMessageID} : Sound (supersedeMessage id) s := by
  simp [supersedeMessage]

@[simp] theorem sound_supersedePeerMessages : Sound (supersedePeerMessages d a) s := by
  simp only [supersedePeerMessages, wpe, wp, true_and]
  exact throws_forEach (fun _ _ _ => sound_supersedeMessage) s

@[simp] theorem sound_requirementChangeNotices {reachedID : Option Id} :
    Sound (requirementChangeNotices origin d reachedID fields a) s := by
  simp [requirementChangeNotices]

@[simp] theorem sound_claimed : Sound (claimed claim) s := by
  simp only [claimed, wpe, sound_runRow, ensures_runRow, wp, notTaken_conflict, true_and,
    implies_true]
  intro row _ _ _ _
  split <;> simp

@[simp] theorem sound_checkConversationQueueCapacity :
    Sound (checkConversationQueueCapacity a) s := by
  simp only [checkConversationQueueCapacity, wpe, wp, true_and]
  cases s.limits <;> simp

@[simp] theorem sound_closeRunInteraction {status : InteractionStatus} :
    Sound (closeRunInteraction row status) s := by
  unfold closeRunInteraction
  split
  · simp
  · split
    · simp
    · simp

@[simp] theorem sound_interruptCalls {calls : List ToolExecution} :
    Sound (interruptCalls calls row) s := by
  induction calls generalizing s row with
  | nil => simp [interruptCalls]
  | cons call rest ih => simp [interruptCalls, writeTool, ih]

@[simp] theorem sound_interruptConversationWrites : Sound (interruptConversationWrites row) s := by
  simp [interruptConversationWrites]

@[simp] theorem sound_finishConversationDelegation :
    Sound (finishConversationDelegation task run a) s := by
  unfold finishConversationDelegation
  split
  · simp
  · simp [throws_onlyIf, announceOutcome]

/-! ### Writing the next version -/

variable {allowed : Hazard → Prop}

/-- A copy of a task whose next plan version is free. -/
structure NextFree (plans : Table PlanRow.key) (task : Task) : Prop where
  owner : ∀ plan, task.plan = some plan → plan.taskID = task.id
  free : plans.get? (task.id, planVersion task.plan + 1) = none

/-- What the store keeps unless a control writes back an old copy. -/
structure Ordered (s : Core) : Prop where
  routed : s.Routed
  history : s.PlanHistory
  current : Current s.tasks s.plans

/-- What the control of a delegation starts from: the plans are in order if it
is `clean`, and then it writes back no old copy. -/
structure Sane (allowed : Hazard → Prop) (clean : Prop) (s : Core) : Prop where
  routed : s.Routed
  history : s.PlanHistory
  current : clean → ¬allowed .staleTask ∧ Current s.tasks s.plans

/-- Where it is clean, it does not fail over a stored version. -/
def Fine (clean : Prop) (e : Error) : Prop := clean → NotTaken e

theorem runs_sound {α : Type} {m : StoreTx α} {clean : Prop} {Q : α → Db → Prop} (sound : Sound m s) :
    m.Runs s Q (Fine clean) ↔ m.Ensures s Q :=
  and_iff_left fun e failed _ => sound e failed

theorem sound_demand {p : Prop} [Decidable p] {e : Error} (fine : NotTaken e) :
    Sound (demand p e) s := throws_demand.mpr fun _ => fine

theorem Sane.steps {clean : Prop} {s t : Core} (sane : Sane allowed clean s)
    (steps : Steps allowed s t) : Sane allowed clean t := by
  induction steps with
  | refl => exact sane
  | tail _ step ih =>
    refine ⟨step.routed ih.routed, step.planHistory ih.history, fun h => ?_⟩
    obtain ⟨kept, current⟩ := ih.current h
    exact ⟨kept, step.current kept ih.history current⟩

theorem Sane.ordered {clean : Prop} {s : Core} (sane : Sane allowed clean s) (h : clean) :
    Ordered s := ⟨sane.routed, sane.history, (sane.current h).2⟩

theorem Ordered.nextFree {s : Core} (ordered : Ordered s) {t : Id}
    (found : s.tasks.get? t = some task) : NextFree s.plans task := by
  have here := get?_key found
  constructor
  · intro plan has
    obtain ⟨client, stored⟩ := ordered.history.stored here has
    have key : PlanRow.key ⟨plan, client⟩ = (task.id, plan.version) := key_of_get? stored
    exact (Prod.mk.inj key).1
  · exact ordered.current task.id task here

theorem sound_insertConversationTaskPlan {client : PlanClient}
    (free : s.plans.get? (plan.taskID, plan.version) = none) :
    Sound (insertConversationTaskPlan client plan) s := by
  have inserted : s.plans.insert? ⟨plan, client⟩ ≠ none := by
    intro taken
    obtain ⟨row, found⟩ := insert?_eq_none_iff.mp taken
    rw [free] at found
    cases found
  simp only [insertConversationTaskPlan, insertRow, wpe, wp, implies_true, and_true, true_and]
  exact fun taken => absurd taken inserted

/-- Whoever writes the version after a task's last one finds it free. -/
theorem sound_next {row : PlanRow} (has : task.plan = some plan) (last : NextFree s.plans task)
    (next : PlanNext task.id (some plan) row) :
    Sound (insertConversationTaskPlan row.client row.plan) s := by
  apply sound_insertConversationTaskPlan
  have task_id : row.plan.taskID = task.id := by
    refine next.taskID ?_
    rintro _ ⟨⟩
    exact last.owner plan has
  have version : row.plan.version = planVersion task.plan + 1 := by
    rw [has]
    exact next.version
  rw [task_id, version]
  exact last.free

theorem sound_closeConversationTaskPlan (last : NextFree s.plans task) :
    Sound (closeConversationTaskPlan task run) s := by
  unfold closeConversationTaskPlan
  split
  · simp
  · next plan has =>
    split
    · simp
    · next next closed =>
      have sound := sound_next has last (.close closed)
      simp [sound]

theorem sound_supersedeConversationTaskPlan {revision : Nat} {reason : String}
    (last : NextFree s.plans task) :
    Sound (supersedeConversationTaskPlan task revision fields reason) s := by
  unfold supersedeConversationTaskPlan
  split
  · simp
  · next plan has =>
    have next : PlanNext task.id (some plan) ⟨supersededPlan plan revision fields reason, .system⟩ :=
      .supersede
    have sound := sound_next has last next
    simp [sound]

/-- The completion of a task is kept in another table. -/
@[simp] theorem sound_finishConversationTaskCompletion :
    Sound (finishConversationTaskCompletion task run content) s := by
  unfold finishConversationTaskCompletion
  split
  · simp
  · split
    · simp
    · simp [insertTaskCompletion, insertRow, notTaken_duplicate]

theorem sound_finishConversationTask
    (last : ∀ t task, s.tasks.get? t = some task → NextFree s.plans task) :
    Sound (finishConversationTask run a content reported) s := by
  unfold finishConversationTask
  split
  · simp
  · simp only [wpe, sound_taskRow, ensures_taskRow, notTaken_conflict, wp,
      sound_finishConversationTaskCompletion, implies_true, true_and]
    intro task found _ _ _
    have next := last _ task found
    refine finishConversationTaskCompletion_writes.mono ?_
    rintro _ _ ⟨_, _, _, _, rfl, rfl⟩
    exact ⟨sound_closeConversationTaskPlan ⟨next.owner, next.free⟩, by simp⟩

/-! ### Ending a run -/

theorem sound_cancelRun (ordered : Ordered s.toCore) : Sound (cancelRun c old a) s := by
  unfold cancelRun
  refine throws_ite.mpr ⟨fun _ => by simp, fun _ => ?_⟩
  simp only [wpe, sound_interruptConversationWrites, sound_closeRunInteraction, throws_onlyIf,
    sound_saveConversation, sound_event, sound_saveRun, ensures_true, true_and, and_true,
    implies_true]
  refine interruptConversationWrites_interrupts.mono ?_
  rintro v s₁ ⟨tools, _, core₁, _⟩
  refine closeRunInteraction_noted.mono ?_
  rintro v' s₂ ⟨core₂, _⟩
  refine onlyIf_saveConversation.mono ?_
  rintro _ s₃ ⟨conversations, _, _, core₃⟩
  rw [ensures_event]
  intro events _
  refine sound_finishConversationTask ?_
  have tasks : s₃.tasks = s.tasks := by rw [core₃, core₂, core₁]
  have plans : s₃.plans = s.plans := by rw [core₃, core₂, core₁]
  show ∀ t task, s₃.tasks.get? t = some task → NextFree s₃.plans task
  rw [tasks, plans]
  exact fun _ _ found => ordered.nextFree found

theorem sound_cancel (ordered : Ordered s.toCore) : Sound (transitionRun id runID a false) s := by
  simp only [transitionRun, wpe, sound_getConversation, sound_runRow, ensures_getConversation,
    ensures_runRow, true_and]
  intro _ _ _ _ old _ _ _
  exact sound_cancelRun ordered

theorem sound_finish {code : String} (ordered : Ordered s.toCore) :
    Sound (finish claim content code reported) s := by
  simp only [finish, wpe, sound_claimed, ensures_claimed, sound_getConversation,
    ensures_getConversation, notTaken_conflict, wp, throws_onlyIf, sound_insertMessage,
    sound_saveConversation, sound_event, sound_saveRun, ensures_true, implies_true, and_true,
    true_and]
  intro old _ _ c _ _ _ _
  refine onlyIf_insertMessage.mono ?_
  intro _ s₁ core₁
  rw [ensures_saveConversation]
  intro _ _ _ _
  rw [ensures_event]
  intro _ _
  refine sound_finishConversationTask ?_
  show ∀ t task, s₁.tasks.get? t = some task → NextFree s₁.plans task
  rw [core₁]
  exact fun _ _ found => ordered.nextFree found

/-! ### Updating a plan -/

theorem sound_checkPlanUpdate {update : PlanUpdate} :
    Refuses (checkPlanUpdate prepared update task run) := by
  simp [checkPlanUpdate]

theorem sound_updatePlan {update : PlanUpdate} (ordered : Ordered s.toCore) :
    Sound (updatePlan claim update prepared) s := by
  simp only [updatePlan, wpe, sound_runRow, ensures_runRow, notTaken_conflict, wp, sound_taskRow,
    ensures_taskRow, sound_saveTask, ensures_true, implies_true, and_true, true_and]
  intro row _ _ _ background _ _ task found _
  refine ⟨sound_checkPlanUpdate, fun _ checked => ?_⟩
  obtain ⟨_, next⟩ := checkPlanUpdate_next checked
  have last := ordered.nextFree found
  apply sound_insertConversationTaskPlan
  have key := ordered.history.next_key (get?_key found) next
  rw [show (prepared.taskID, prepared.version) = _ from key]
  exact last.free

theorem sound_finishExecutionToolReceipt {number : Nat} {callID : Id} {result : ToolResult} :
    Sound (finishExecutionToolReceipt claim number callID result row) s := by
  simp only [finishExecutionToolReceipt, wpe, wp, notTaken_notFound, implies_true, true_and]
  intro record _
  refine throws_ite.mpr ⟨fun _ => by simp, fun _ => ?_⟩
  have resolves : ∀ t, Sound (resolveReconciliation (receivedCall record result) row) t := by
    intro t
    unfold resolveReconciliation
    exact throws_ite.mpr ⟨fun _ => sound_closeRunInteraction, fun _ => by simp⟩
  simp [resolves, writeTool]

/-- A local tool fails over what its effect fails over. -/
theorem sound_applyLocalTool {request : ToolRequest} {kind : ToolKind} {apply : StoreTx ToolResult}
    (sound : Sound apply s) : Sound (applyLocalTool request kind apply) s := by
  simp only [applyLocalTool, wpe, sound_conversationAuthority, ensures_conversationAuthority,
    sound_claimed, ensures_claimed, wp, notTaken_conflict, notTaken_forbidden, implies_true,
    true_and]
  intro _ _ _ record _ _ _
  refine throws_ite.mpr ⟨fun _ => by simp, fun _ => ?_⟩
  have records : ∀ outcome, Refuses outcome → ∀ t, Sound (recordLocalOutcome request outcome) t := by
    intro outcome refuses t
    have refused : ∀ e, localResult outcome = .error e → NotTaken e := by
      intro e failed
      cases outcome with
      | ok result => cases failed
      | error cause =>
        simp only [localResult] at failed
        split at failed
        · cases failed
        · cases failed
        · cases failed
        · exact refuses e failed
    simp only [recordLocalOutcome, wpe, wp, sound_claimed, ensures_claimed, true_and]
    exact ⟨refused, fun _ _ _ _ => sound_finishExecutionToolReceipt⟩
  simp only [wpe, throws_attempt, true_and]
  refine ensures_attempt.mpr ⟨fun result t _ => records _ refuses_ok t, fun e failed => ?_⟩
  exact records _ (refuses_error.mpr (sound e failed)) s

theorem sound_updateConversationTaskAgreement {taskID : Id} {input : TaskAgreementUpdate}
    (ordered : Ordered s.toCore) : Sound (updateConversationTaskAgreement taskID input a) s := by
  simp only [updateConversationTaskAgreement, wpe, sound_conversationAuthority,
    ensures_conversationAuthority, wp, notTaken_badRequest, implies_true, true_and]
  intro _ _
  split
  · simp
  · simp only [wpe, sound_taskRow, ensures_taskRow, wp, notTaken_conflict, implies_true, true_and]
    intro task found _ _ _ _ _
    have last := ordered.nextFree found
    obtain ⟨id, plan, _⟩ := amendedTask_same task input.brief
    refine ⟨sound_supersedeConversationTaskPlan ⟨?_, ?_⟩, ?_⟩
    · rw [id, plan]
      exact last.owner
    · rw [id, plan]
      exact last.free
    · simp [insertRow, notTaken_duplicate]

/-! ### Controlling a task -/

@[simp] theorem sound_overwriteTask : Sound (overwriteTask task) s := by
  simp [overwriteTask]

theorem sound_cancelExecution (ordered : Ordered s.toCore) : Sound (cancelExecution d task) s := by
  unfold cancelExecution
  split
  · simp
  · exact throws_onlyIf.mpr fun _ => sound_cancel ordered

/-! ### Amending a delegation -/

@[simp] theorem sound_announceChange : Sound (announceChange d fields action a) s := by
  unfold announceChange
  split <;> simp

@[simp] theorem sound_announceRejection : Sound (announceRejection d action a) s := by
  unfold announceRejection
  split <;> simp

@[simp] theorem sound_disagreementNotice : Sound (disagreementNotice d source a value) s := by
  simp only [disagreementNotice, wpe, wp, true_and]
  refine ⟨throws_forEach (fun _ _ _ => sound_supersedeMessage) s, fun _ t _ => ⟨?_, ?_⟩⟩
  · unfold disagreementRecipient
    exact throws_ite.mpr ⟨fun _ => by simp, fun _ => by simp⟩
  · simp [throws_onlyIf]

@[simp] theorem sound_participantDelegation {manager : Bool} :
    Sound (participantDelegation id a manager) s := by
  unfold participantDelegation
  exact throws_ite.mpr ⟨fun _ => by simp, fun _ => sound_conversationDelegation⟩

@[simp] theorem refuses_dependencyDelegation :
    Refuses ((dependencyDelegation id a granted).peek s) := refuses_peek (by simp [dependencyDelegation])

@[simp] theorem refuses_reachesDelegation {queue : List Dependency} {visited : List Id} :
    Refuses (reachesDelegation s a granted id fuel queue visited) := by
  induction fuel generalizing queue visited with
  | zero => cases queue <;> simp [reachesDelegation]
  | succ fuel ih => cases queue <;> simp [reachesDelegation, ih]

theorem refuses_freezeReferences {seen : List Id} :
    Refuses (freezeReferences s id root a granted refs seen) := by
  induction refs generalizing seen with
  | nil => simp [freezeReferences]
  | cons ref rest ih =>
    have frozen : Refuses (freezeDependency s id root a granted ref) := by
      simp only [freezeDependency, refuses_bind, refuses_ite, refuses_dependencyDelegation, true_and]
      intro upstream _
      split <;> simp
    simp [freezeReferences, frozen, ih]

@[simp] theorem refuses_freezeTaskDependencies :
    Refuses (freezeTaskDependencies s id root refs a granted) := by
  simp [freezeTaskDependencies, refuses_freezeReferences]

theorem refuses_resumeDependencyReferences {given : Option (List DependencyInput)} :
    Refuses (resumeDependencyReferences s d given a granted) := by
  unfold resumeDependencyReferences
  split
  · simp
  · have each : ∀ edge, Refuses (refreshedReference s a granted edge) := fun edge => by
      simp [refreshedReference]
    simp [refuses_mapM each]

theorem refuses_prepareDelegationHandoff : Refuses (prepareDelegationHandoff s d) := by
  have each : ∀ item : (Assignment × RunRow) × Nat,
      Refuses (runSettled s d item.1.1 item.1.2 item.2) := fun item => by simp [runSettled]
  simp [prepareDelegationHandoff, refuses_mapM each]

@[simp] theorem refuses_verifyDelegationDelivery {review : Option Delivery} :
    Refuses (verifyDelegationDelivery d delivery review evaluation) := by
  cases evaluation <;> simp [verifyDelegationDelivery, Evaluation.ready]

theorem refuses_deliverTo : Refuses (deliverTo s d delivery evaluation source a) := by
  have checked : Refuses (checkDeliverySource s d source a) := by
    unfold checkDeliverySource
    split
    · simp
    · simp [refuses_peek]
  simp [deliverTo, checked]

@[simp] theorem refuses_reviewedDelivery {review : Option DeliveryReview} :
    Refuses (reviewedDelivery d update review) := by
  simp only [reviewedDelivery, refuses_ite]
  split <;> simp

@[simp] theorem refuses_claimedDisagreement {claims : List DisagreementClaim} :
    Refuses (claimedDisagreement s d value claims a) := by
  simp [claimedDisagreement]

@[simp] theorem refuses_currentDisagreement {expectedRevision : Nat} :
    Refuses (currentDisagreement s d id expectedRevision a) := by
  unfold currentDisagreement
  split
  · simp
  · have read : Refuses (readDisagreement s d.id id expectedRevision a) := by
      unfold readDisagreement
      split <;> simp
    simp [read]

theorem refuses_applyDisagreement {change : DisagreementChange} :
    Refuses (applyDisagreement s d change source a) := by
  have acts : Refuses (disagreementActor s d change source a) := by
    unfold disagreementActor
    split <;> simp [refuses_peek]
  cases change <;> simp [applyDisagreement, changedDisagreement, decidedDisagreement, acts]

theorem sound_amend : Sound (check (amend · d update a)) s := by
  refine throws_check.mpr (show Refuses (amend s d update a) from ?_)
  unfold amend
  split <;> simp [refuses_applyDisagreement, checkAcceptance, refuses_prepareDelegationHandoff,
    refuses_deliverTo, resumeWith, refuses_resumeDependencyReferences]

@[simp] theorem sound_checkDelegationActor : Sound (checkDelegationActor d update a) s := by
  have executes : Refuses ((executionDelegation d.id a).peek s) :=
    refuses_peek (by simp [executionDelegation, ownedConversationDelegation])
  simp only [checkDelegationActor, wpe, notTaken_forbidden, wp, ensures_true, implies_true,
    true_and, and_true]
  exact fun _ => throws_onlyIf.mpr fun _ => throws_check.mpr (refuses_map.mpr executes)

theorem sound_recordDelivery : Sound (recordDelivery d update) s := by
  unfold recordDelivery
  split
  · simp
  · simp [saveDeliveryRecord]

end DomainryAgent.Refinement
