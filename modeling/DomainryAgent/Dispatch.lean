import DomainryAgent.Announcements
import DomainryAgent.TaskAcceptance

/-!
Dispatch over all workspaces of a runtime.

A call looks at the pending messages, or at the queued tasks, of the whole
runtime, oldest first, and launches the first that can be launched.  What cannot
be launched now is passed over, but what fails ends the call for everybody: a
full queue, an identity that does not resolve, a clash of ids.  `soundMessage`
and `soundTask` say exactly what a record needs so that it does not fail.
-/

namespace DomainryAgent

open Lib Tx Table Protocol Refinement

variable {s : Db}

/-! ### Sound records -/

/-- The queue of a user and of the workspace has room. -/
def queueRoom (s : Db) (a : Authority) : Bool :=
  s.limits.all fun limits =>
    (conversationExecutionCapacity s.toCore a).userQueued < limits.maxQueuedPerUser ∧
      (conversationExecutionCapacity s.toCore a).workspaceQueued < limits.maxQueuedPerWorkspace

/-- Nothing is stored under the ids of a run that is to start in a conversation. -/
def freeForRun (s : Db) (runID : Id) (c : Conversation) (a : Authority) (client : ClientMessage) :
    Bool :=
  (s.messages.get? (c.id, c.lastSeq + 1)).isNone && (s.events.get? (runID, 1)).isNone &&
  (s.runs.get? runID).isNone && s.runs.rows.all fun row =>
    ¬(row.run.conversationID = c.id ∧ conversationOwner row.authority = conversationOwner a ∧
      row.run.clientMessageID = client)

/-- A run of an identity, if one is named. -/
def runIsThere (s : Db) (conversationID : Id) (runID : Option Id) (a : Authority) : Bool :=
  runID.all fun r => (s.runs.get? r).any fun row =>
    row.run.conversationID = conversationID ∧
      conversationOwner row.authority = conversationOwner a

/-- A conversation that is passed over for now. -/
def passedOver (s : Db) (c : Conversation) (a : Authority) (m : PeerMessage) : Bool :=
  c.archived || c.activeRunID.isSome || conversationBusy s c a || peerRunStarted s c a m.id

/-- An executor that has no steps or calls left. -/
def exhausted (s : Db) (d : Delegation) : Bool :=
  (conversationDelegationRemainingBudget s.toCore d).maxSteps < 1 ||
    (conversationDelegationRemainingBudget s.toCore d).maxToolCalls < 1

/-- The run of a message can be created: no id clashes, and an executor that is to
be woken and can go on has its own task. -/
def soundWake (s : Db) (runID : Id) (m : PeerMessage) (d : Delegation) (c : Conversation)
    (a : Authority) : Bool :=
  if c.id ≠ d.conversationID then freeForRun s runID c a (.peer m.id)
  else !d.status.wakes || (s.tasks.get? d.taskID).any fun task =>
    conversationOwner task.authority = conversationOwner a &&
      (exhausted s d || (task.authority = a && freeForRun s runID c a (.peer m.id)))

/-- The recipient of a message has a conversation that is passed over, or its
queue has room and its run can be created. -/
def soundRecipient (s : Db) (runID : Id) (m : PeerMessage) (d : Delegation) (a : Authority) : Bool :=
  a.known && (s.conversations.get? m.conversationID).any fun c =>
    c.owner = conversationOwner a && (passedOver s c a m ||
      (queueRoom s a && soundWake s runID m d c a))

/-- A message that is ready is of this runtime, and its recipient resolves and is
sound. -/
def soundDelivery (s : Db) (runtimeID runID : Id) (m : PeerMessage) (d : Delegation) : Bool :=
  m.authority.runtimeID = runtimeID &&
    ((delegationMessageAuthority d m.conversationID m.authority).peek s).toOption.any fun a =>
      conversationOwner a = conversationOwner m.authority && soundRecipient s runID m d a

/-- A message that does not fail: it was superseded, or its identity reads its
delegation, and if nobody has left that and it is about the agreement there is,
then the run it waits for is there, and has not ended or the delivery is sound. -/
def soundMessage (s : Db) (runtimeID runID : Id) (m : PeerMessage) : Bool :=
  m.superseded ||
  ((conversationDelegation m.delegationID m.authority).peek s).toOption.any fun d =>
    (d.subjectExited = true ∨ ¬m.Current d) ||
    match m.afterRunID with
    | none => soundDelivery s runtimeID runID m d
    | some r => (s.runs.get? r).any fun row =>
        row.run.conversationID = m.conversationID &&
          conversationOwner row.authority = conversationOwner m.authority &&
          (!row.run.status.terminal || soundDelivery s runtimeID runID m d)

/-- Where a task goes is busy, or the run that asked for it is there and no id
clashes. -/
def soundLaunch (s : Db) (runID : Id) (task : Task) (source : Authority) (c : Conversation) : Bool :=
  c.activeRunID.isSome || (runIsThere s task.sourceConversationID task.sourceRunID source &&
    freeForRun s runID c task.authority (launchClient task))

/-- A delegated task that is to be launched is the assignment it says. -/
def soundAssignment (s : Db) (runID : Id) (task : Task) (source : Authority) (d : Delegation) : Bool :=
  ¬(d.status = .accepted ∧ d.taskID = task.id) ||
  (task.agent.map (·.id) = some d.toAgentID && task.brief.version = d.brief.version &&
    task.executionConversationID = some d.conversationID &&
    (s.conversations.get? d.conversationID).any fun c =>
      c.owner = conversationOwner task.authority && soundLaunch s runID task source c)

/-- A queued task that does not fail: it is not to be launched at all, or its
source identity resolves and has no such conversation, or where it goes is sound. -/
def soundTask (s : Db) (runID : Id) (task : Task) : Bool :=
  !task.launchable ||
  ((launchSource task).peek s).toOption.any fun source =>
    ((s.conversations.get? task.sourceConversationID).filter
        (·.owner = conversationOwner source)).all fun c =>
      match task.delegationID with
      | none => soundLaunch s runID task source c
      | some id => ((conversationDelegation id task.authority).peek s).toOption.any
          (soundAssignment s runID task source)

/-! ### What does not fail -/

theorem succeeds_isSome {β : Type} {x : StoreTx (Option β)} :
    x.Succeeds s (fun out _ => out.isSome = true) ↔ ∃ r t, x s = .ok (some r, t) := by
  constructor
  · rintro ⟨_ | r, t, ran, some⟩
    · cases some
    · exact ⟨r, t, ran⟩
  · rintro ⟨r, t, ran⟩
    exact ⟨some r, t, ran, rfl⟩

variable {runID : Id} {c : Conversation} {a : Authority} {v : RunRow} {d : Delegation} {task : Task}
  {m : PeerMessage}

theorem succeeds_insertRow {ν κ : Type} [DecidableEq κ] {key : ν → κ} {table : Db → Table key}
    {store : Table key → Db → Db} {name : String} {row : ν} {Q : Unit → Db → Prop} :
    (insertRow table store name row).Succeeds s Q ↔
      ∃ grown, (table s).insert? row = some grown ∧ Q () (store grown s) := by
  simp only [insertRow, wps]

theorem exists_insert?_iff {ν κ : Type} [DecidableEq κ] {key : ν → κ} {t : Table key} {row : ν}
    : (∃ grown, t.insert? row = some grown) ↔ t.get? (key row) = none := by
  rw [← Option.isSome_iff_exists, ← Option.ne_none_iff_isSome, ne_eq,
    insert?_eq_none_iff, ← Option.isSome_iff_exists, Option.not_isSome_iff_eq_none]

theorem any_toOption_iff {ε α : Type} {x : Except ε α} {p : α → Bool} :
    x.toOption.any p = true ↔ ∃ a, x = .ok a ∧ p a = true := by
  cases x <;> simp [Except.toOption]

theorem freeForRun_iff {client : ClientMessage} : freeForRun s runID c a client = true ↔
    s.messages.get? (c.id, c.lastSeq + 1) = none ∧ s.events.get? (runID, 1) = none ∧
      (∀ row ∈ s.runs.rows, ¬(row.run.conversationID = c.id ∧
        conversationOwner row.authority = conversationOwner a ∧
        row.run.clientMessageID = client)) ∧ s.runs.get? runID = none := by
  simp only [freeForRun, Bool.and_eq_true, Option.isNone_iff_eq_none, List.all_eq_true,
    decide_eq_true_eq, and_assoc]
  refine and_congr_right fun _ => and_congr_right fun _ => and_comm

/-- A run can be created in a conversation that was read exactly when its ids are
free. -/
theorem succeeds_startPeerRun (held : s.conversations.get? c.id = some c)
    (owner : c.owner = conversationOwner v.authority) (here : v.run.conversationID = c.id)
    (fresh : v.eventSeq = 0) : (startPeerRun c v).Succeeds s (fun _ _ => True) ↔
      freeForRun s v.run.id c v.authority v.run.clientMessageID = true := by
  simp only [startPeerRun, saveConversation, insertMessage, event, insertRun, wps,
    succeeds_insertRow, held, Option.some.injEq, exists_eq_left', owner, fresh, and_true,
    true_and, exists_and_right, exists_insert?_iff, freeForRun_iff, here]

theorem queueRoom_iff (known : a.known = true) {Q : Unit → Db → Prop} :
    (checkConversationQueueCapacity a).Succeeds s Q ↔ queueRoom s a = true ∧ Q () s := by
  simp only [checkConversationQueueCapacity, wps, queueRoom]
  cases s.limits with
  | none => simp [wps]
  | some limits => simp [wps, conversationAuthority, known, and_assoc]

theorem succeeds_getConversation {id : Id} {Q : Conversation → Db → Prop} :
    (getConversation id a).Succeeds s Q ↔ a.known = true ∧
      ∃ c, s.conversations.get? id = some c ∧ c.owner = conversationOwner a ∧ Q c s := by
  simp only [getConversation, conversationAuthority, wps]

theorem succeeds_wakeTask (held : s.conversations.get? c.id = some c)
    (owner : c.owner = conversationOwner v.authority) (here : v.run.conversationID = c.id)
    (fresh : v.eventSeq = 0) (found : s.delegations.get? d.id = some d)
    (mine : d.owner = conversationOwner (delegationRecordAuthority d v.authority))
    (named : s.tasks.get? task.id = some task) {budget : TaskBudget} :
    (wakeTask d task c v budget).Succeeds s (fun _ _ => True) ↔ task.authority = v.authority ∧
      freeForRun s v.run.id c v.authority v.run.clientMessageID = true := by
  have mine' : d.owner = conversationOwner (delegationRecordAuthority
      { d with status := .running, revision := d.revision + 1 } v.authority) := mine
  simp only [wakeTask, saveTask, saveConversationDelegation, wps, named, found, Option.some.injEq,
    exists_eq_left', ← mine', true_and]
  exact and_congr_right fun _ => succeeds_startPeerRun held owner here fresh

theorem succeeds_wakeRecipient (held : s.conversations.get? c.id = some c)
    (owner : c.owner = conversationOwner a) (found : s.delegations.get? d.id = some d)
    (mine : d.owner = conversationOwner (delegationRecordAuthority d a)) {now : Time} :
    (wakeRecipient d c (peerRun m runID c a now)).Succeeds s (fun _ _ => True) ↔
      soundWake s runID m d c a = true := by
  unfold wakeRecipient soundWake
  rw [succeeds_ite]
  split
  · exact succeeds_startPeerRun held owner rfl rfl
  cases wakes : d.status.wakes with
  | false => simp [wps]
  | true =>
    simp only [taskRow, wps, Bool.true_eq_false, if_false, Bool.not_true, Bool.false_or,
      Option.any_eq_true, Bool.and_eq_true, decide_eq_true_eq]
    refine exists_congr fun task => and_congr_right fun named => and_congr_right fun _ => ?_
    simp only [exhausted, Bool.or_eq_true, decide_eq_true_eq]
    split
    · next spent => exact iff_of_true trivial (.inl spent)
    · next left =>
      rw [or_iff_right left, Bool.and_eq_true, decide_eq_true_eq]
      exact succeeds_wakeTask (v := peerRun m runID c a now) held owner rfl rfl found mine
        (get?_key named)

theorem succeeds_launchRecipient (found : s.delegations.get? d.id = some d)
    (mine : d.owner = conversationOwner (delegationRecordAuthority d a)) :
    (launchRecipient m runID d a).Succeeds s (fun _ _ => True) ↔
      soundRecipient s runID m d a = true := by
  simp only [launchRecipient, wps, succeeds_getConversation, soundRecipient, Bool.and_eq_true,
    Option.any_eq_true, decide_eq_true_eq]
  refine and_congr_right fun known => exists_congr fun c => and_congr_right fun at_m =>
    and_congr_right fun owner => ?_
  have skips : c.archived = true ∨ c.activeRunID ≠ none ∨ conversationBusy s c a = true ∨
      peerRunStarted s c a m.id = true ↔ passedOver s c a m = true := by
    simp [passedOver, Option.isSome_iff_ne_none, or_assoc]
  rw [Bool.or_eq_true, ← skips]
  split
  · next passed => simp [passed]
  · next stays =>
    rw [or_iff_right stays, Bool.and_eq_true, queueRoom_iff known,
      succeeds_wakeRecipient (get?_key at_m) owner found mine]

/-- The record authority of a delegation of the workspace owns it. -/
theorem Delegation.InWorkspace.owner_eq (workspace : d.InWorkspace a) :
    d.owner = conversationOwner (delegationRecordAuthority d a) := by
  unfold conversationOwner delegationRecordAuthority
  rw [← workspace.1, ← workspace.2]

variable {runtimeID : Id} {source : Authority}

/-- A message that is ready is launched or passed over exactly when its delivery is
sound. -/
theorem succeeds_delivery
    (visible : (conversationDelegation m.delegationID m.authority).peek s = .ok d) :
    (do
      demand (m.authority.runtimeID = runtimeID) (forbidden "runtime_denied")
      let d ← conversationDelegation m.delegationID m.authority
      let a ← delegationMessageAuthority d m.conversationID m.authority
      demand (conversationOwner a = conversationOwner m.authority)
        (forbidden "execution_subject_mismatch")
      launchRecipient m runID d a).Succeeds s (fun _ _ => True) ↔
      soundDelivery s runtimeID runID m d = true := by
  have found := get?_key (get?_of_conversationDelegation visible)
  simp only [wps, (readOnly_conversationDelegation _ _).succeeds, visible, Except.ok.injEq,
    exists_eq_left', (readOnly_delegationMessageAuthority _ _ _).succeeds, soundDelivery,
    Bool.and_eq_true, decide_eq_true_eq, any_toOption_iff]
  refine and_congr_right fun _ => exists_congr fun a => and_congr_right fun _ =>
    and_congr_right fun same => succeeds_launchRecipient found ?_
  obtain ⟨runtime, workspace⟩ := inWorkspace_of_conversationDelegation visible
  exact Delegation.InWorkspace.owner_eq ⟨runtime.trans (congrArg OwnerKey.runtimeID same).symm,
    workspace.trans (congrArg OwnerKey.workspaceID same).symm⟩

/-- What comes after the check that a message is ready is reached only by a current
message, behind the run it waits for. -/
theorem succeeds_peerMessageReady {Q : Bool → Db → Prop} (skips : Q false s)
    (delivers : ∀ d, (conversationDelegation m.delegationID m.authority).peek s = .ok d →
      (Q true s ↔ soundDelivery s runtimeID runID m d = true)) :
    (peerMessageReady m m.authority).Succeeds s Q ↔ soundMessage s runtimeID runID m = true := by
  simp only [peerMessageReady, soundMessage]
  cases m.superseded with
  | true => simp [wps, skips]
  | false =>
    simp only [wps, Bool.false_eq_true, if_false, (readOnly_conversationDelegation _ _).succeeds,
      any_toOption_iff, Bool.false_or, Bool.or_eq_true, decide_eq_true_eq]
    refine exists_congr fun d => and_congr_right fun visible => ?_
    by_cases stale : d.subjectExited = true ∨ ¬m.Current d
    · simp [stale, skips]
    · rw [if_neg stale, or_iff_right stale]
      cases m.afterRunID with
      | none => exact succeeds_pure.trans (delivers d visible)
      | some r =>
        simp only [runRow, wps, Option.any_eq_true, Bool.and_eq_true, decide_eq_true_eq,
          Bool.or_eq_true, Bool.not_eq_true']
        refine exists_congr fun row => and_congr_right fun _ => and_congr_right fun _ => ?_
        cases row.run.status.terminal with
        | false => exact iff_of_true skips (.inl rfl)
        | true => simpa using delivers d visible

/-- A message is launched or passed over exactly when it is sound. -/
theorem succeeds_launchPeerCandidate :
    (launchPeerCandidate runtimeID runID m).Succeeds s (fun _ _ => True) ↔
      soundMessage s runtimeID runID m = true :=
  succeeds_bind.trans (succeeds_peerMessageReady (succeeds_pure.mpr trivial)
    fun _ visible => succeeds_delivery visible)

theorem succeeds_checkSourceRun {Q : Unit → Db → Prop} {conversationID : Id} {runID : Option Id} :
    (checkSourceRun conversationID runID a).Succeeds s Q ↔
      runIsThere s conversationID runID a = true ∧ Q () s := by
  cases runID with
  | none => simp [checkSourceRun, runIsThere, wps]
  | some r =>
    simp only [checkSourceRun, runIsThere, runRow, wps, Option.all_some, Option.any_eq_true,
      decide_eq_true_eq, ← exists_and_right, and_assoc]

/-- What a delegation of the workspace needs to be started is nothing; what follows
looks at other tables. -/
theorem succeeds_launchDelegation {d : Option Delegation} {Q : Unit → Db → Prop} {P : Prop}
    (assigned : ∀ e, d = some e → s.delegations.get? e.id = some e ∧
      e.owner = conversationOwner (delegationRecordAuthority e a))
    (rest : ∀ delegations, Q () { s with delegations := delegations } ↔ P) :
    (launchDelegation d a).Succeeds s Q ↔ P := by
  cases d with
  | none => exact succeeds_pure.trans (rest s.delegations)
  | some e =>
    obtain ⟨there, mine⟩ := assigned e rfl
    have mine' : e.owner = conversationOwner (delegationRecordAuthority
      { e with status := .running, revision := e.revision + 1 } a) := mine
    simp only [launchDelegation, saveConversationDelegation, wps, there, Option.some.injEq,
      exists_eq_left', ← mine', true_and, rest]

/-- A task is launched where it goes, or waits there, exactly when that is sound. -/
theorem succeeds_launchTask {d : Option Delegation}
    (resolved : (launchSource task).peek s = .ok source) (held : s.conversations.get? c.id = some c)
    (owner : c.owner = conversationOwner task.authority)
    (assigned : ∀ e, d = some e → s.delegations.get? e.id = some e ∧
      e.owner = conversationOwner (delegationRecordAuthority e task.authority))
    (named : s.tasks.get? task.id = some task) (queued : task.status = .queued) :
    (if c.activeRunID ≠ none then True
      else (launchTask task c d runID).Succeeds s (fun _ _ => True)) ↔
      soundLaunch s runID task source c = true := by
  simp only [soundLaunch, Bool.or_eq_true, Option.isSome_iff_ne_none, Bool.and_eq_true]
  split
  · next busy => exact iff_of_true trivial (.inl busy)
  rw [or_iff_right ‹_›]
  simp only [launchTask, saveConversation, insertMessage, event, insertRun, saveTask, wps,
    (readOnly_launchSource task).succeeds, resolved, Except.ok.injEq, exists_eq_left',
    succeeds_checkSourceRun]
  refine and_congr_right fun _ => succeeds_launchDelegation assigned fun delegations => ?_
  simp only [succeeds_insertRow, held, Option.some.injEq, exists_eq_left', owner, true_and,
    exists_and_right, exists_insert?_iff, freeForRun_iff]
  refine and_congr_right fun _ => and_congr_right fun _ => and_congr_right fun _ => ?_
  exact and_iff_left ⟨task, named, queued, trivial⟩

/-- A queued task is launched or passed over exactly when it is sound. -/
theorem succeeds_launchCandidate (named : s.tasks.get? task.id = some task)
    (queued : task.status = .queued) :
    (launchCandidate runID task).Succeeds s (fun _ _ => True) ↔ soundTask s runID task = true := by
  unfold launchCandidate soundTask
  rw [succeeds_ite]
  cases launchable : task.launchable with
  | false => simp [wps]
  | true =>
    have known : task.authority.known = true := (Bool.and_eq_true_iff.mp launchable).1
    simp only [launchTarget, wps, (readOnly_launchSource task).succeeds, Bool.true_eq_false, if_false,
      Bool.not_true, Bool.false_or, any_toOption_iff]
    refine exists_congr fun source => and_congr_right fun resolved => ?_
    cases found : (s.conversations.get? task.sourceConversationID).filter
        (·.owner = conversationOwner source) with
    | none => simp [wps]
    | some c =>
      obtain ⟨held, mine⟩ := Option.filter_eq_some_iff.mp found
      rw [Option.all_some]
      cases belongs : task.delegationID with
      | none =>
        have own : source = task.authority := by
          simpa [launchSource, belongs, peek, pure] using resolved.symm
        subst own
        simp only [wps]
        exact succeeds_launchTask resolved (get?_key held) (of_decide_eq_true mine) (by simp) named
          queued
      | some id =>
        simp only [wps, (readOnly_conversationDelegation _ _).succeeds, any_toOption_iff]
        refine exists_congr fun d => and_congr_right fun visible => ?_
        have assigned := get?_key (get?_of_conversationDelegation visible)
        have owned := (inWorkspace_of_conversationDelegation visible).owner_eq
        rw [soundAssignment, Bool.or_eq_true, decide_eq_true_eq, not_and_or]
        split
        · next stale => exact iff_of_true trivial (.inl stale)
        · next current =>
          rw [or_iff_right current]
          simp only [succeeds_getConversation, known, true_and, Bool.and_eq_true, decide_eq_true_eq,
            Option.any_eq_true, and_assoc]
          refine and_congr_right fun _ => and_congr_right fun _ => and_congr_right fun _ =>
            exists_congr fun c => and_congr_right fun there => and_congr_right fun owner => ?_
          refine succeeds_launchTask resolved (get?_key there) owner ?_ named queued
          rintro _ ⟨⟩
          exact ⟨assigned, owned⟩

/-! ### The result -/

/-- A message, or a task, that would be launched alone gets some run launched
exactly when what is older than the first of that kind in the runtime is sound. -/
theorem dispatch_reaches_launchable_work (s : Db) (runtimeID runID : Id) :
    (∀ older m newer, peerCandidates s runtimeID = older ++ m :: newer →
      (∀ x ∈ older, ¬∃ r t, launchPeerCandidate runtimeID runID x s = .ok (some r, t)) →
      (∃ r t, launchPeerCandidate runtimeID runID m s = .ok (some r, t)) →
      ((∃ r t, launchConversationPeerMessage runtimeID runID s = .ok (some r, t)) ↔
        ∀ x ∈ older, soundMessage s runtimeID runID x = true)) ∧
    ∀ older task newer, launchCandidates s runtimeID = older ++ task :: newer →
      (∀ x ∈ older, ¬∃ r t, launchCandidate runID x s = .ok (some r, t)) →
      (∃ r t, launchCandidate runID task s = .ok (some r, t)) →
      ((∃ r t, launchConversationTask runtimeID runID s = .ok (some r, t)) ↔
        ∀ x ∈ older, soundTask s runID x = true) := by
  constructor
  · intro older m newer listed others alone
    simp only [← succeeds_launchPeerCandidate]
    rw [← succeeds_isSome] at alone ⊢
    simp only [← succeeds_isSome] at others
    rw [← firstOf_yields_iff (fun _ => launchPeerCandidate_passes) others alone, ← listed]
    rfl
  · intro older task newer listed others alone
    have sound (x : Task) (there : x ∈ older) :
        soundTask s runID x = true ↔ (launchCandidate runID x).Succeeds s (fun _ _ => True) := by
      have candidate : x ∈ launchCandidates s runtimeID := listed ▸ List.mem_append_left _ there
      obtain ⟨found, queued⟩ := queued_of_candidate candidate
      exact (succeeds_launchCandidate found queued).symm
    rw [← succeeds_isSome] at alone ⊢
    simp only [← succeeds_isSome] at others
    rw [forall₂_congr sound, ← firstOf_yields_iff (fun _ => launchCandidate_passes) others alone,
      ← listed]
    rfl

def otherUser : Authority := { sampleUser with workspaceID := 2, userID := 2 }

def otherAdmission : Admission :=
  { sampleAdmission with
    delegationID := 6, conversationID := 7, taskID := 11, sourceConversationID := 5
    executor := otherUser }

/-- Delegated work of two workspaces has ended, each with a notice to its source. -/
def twoNotices : List Op :=
  [.createConversation 5 none otherUser, .createDelegation otherAdmission otherUser,
    .launchTask 1 21, .claim 1 7 1000 [],
    .finish { sampleClaim with authority := otherUser, conversationID := 7, runID := 21 } "done" ""
      true,
    .createConversation 1 none sampleUser, .createDelegation sampleAdmission sampleUser,
    .launchTask 1 20, .claim 1 7 1000 [], .finish delegatedClaim "done" "" true]

/-- The other workspace is busy where its notice and its task would go. -/
def busyNeighbour : List Op :=
  twoNotices ++
    [.enqueue 5 { sampleSend with runID := 22 } otherUser,
      .acceptScheduledTask { sampleStart with taskID := 12, requestHash := 12, conversationID := 5 }
        otherUser,
      .acceptScheduledTask { sampleStart with taskID := 13, requestHash := 13 } sampleUser]

/-- A candidate that launches nothing, and one that does. -/
theorem launches_iff {α : Type} {f : α → StoreTx (Option Id)} {x y : α}
    (test : [x, y].map (fun z => (f z s).toOption.any (·.1.isSome)) = [false, true]) :
    (¬∃ r t, f x s = .ok (some r, t)) ∧ ∃ r t, f y s = .ok (some r, t) := by
  simp only [List.map_cons, List.map_nil, List.cons.injEq, and_true] at test
  constructor
  · rintro ⟨r, t, ran⟩
    simp [ran, Except.toOption] at test
  · obtain ⟨⟨_ | r, t⟩, ran, some⟩ := any_toOption_iff.mp test.2
    · cases some
    · exact ⟨r, t, ran⟩

theorem busy_neighbour_is_passed_over :
    (∃ r t, launchConversationPeerMessage 1 30 (afterOps busyNeighbour) = .ok (some r, t)) ∧
    ∃ r t, launchConversationTask 1 30 (afterOps busyNeighbour) = .ok (some r, t) := by
  have dispatch := dispatch_reaches_launchable_work (afterOps busyNeighbour) 1 30
  constructor
  · have two : (peerCandidates (afterOps busyNeighbour) 1).length = 2 := by decide +kernel
    obtain ⟨older, m, listed⟩ := List.length_eq_two.mp two
    have sound : (peerCandidates (afterOps busyNeighbour) 1).all
        (soundMessage (afterOps busyNeighbour) 1 30) = true := by decide +kernel
    have test : (peerCandidates (afterOps busyNeighbour) 1).map (fun m =>
        (launchPeerCandidate 1 30 m (afterOps busyNeighbour)).toOption.any (·.1.isSome)) =
        [false, true] := by
      decide +kernel
    rw [listed] at sound test
    obtain ⟨waits, alone⟩ := launches_iff test
    refine (dispatch.1 [older] m [] listed (by simpa using waits) alone).mpr ?_
    exact fun x member => List.all_eq_true.mp sound x (List.mem_append_left [m] member)
  · have two : (launchCandidates (afterOps busyNeighbour) 1).length = 2 := by decide +kernel
    obtain ⟨older, task, listed⟩ := List.length_eq_two.mp two
    have sound : (launchCandidates (afterOps busyNeighbour) 1).all
        (soundTask (afterOps busyNeighbour) 30) = true := by decide +kernel
    have test : (launchCandidates (afterOps busyNeighbour) 1).map (fun task =>
        (launchCandidate 30 task (afterOps busyNeighbour)).toOption.any (·.1.isSome)) =
        [false, true] := by
      decide +kernel
    rw [listed] at sound test
    obtain ⟨waits, alone⟩ := launches_iff test
    refine (dispatch.2 [older] task [] listed (by simpa using waits) alone).mpr ?_
    exact fun x member => List.all_eq_true.mp sound x (List.mem_append_left [task] member)

/-- The other workspace has filled its queue. -/
def fullNeighbour : List Op :=
  twoNotices ++
    [.createConversation 8 none otherUser, .enqueue 8 { sampleSend with runID := 22 } otherUser]

/-- The other workspace has a task whose client id a message has taken. -/
def clashingNeighbour : List Op :=
  [.createConversation 5 none otherUser,
    .acceptScheduledTask { sampleStart with conversationID := 5 } otherUser,
    .enqueue 5 { sampleSend with clientMessageID := .background 10 1 1 0 } otherUser,
    .claim 1 7 1000 [],
    .finish { sampleClaim with authority := otherUser, conversationID := 5 } "done" "" true,
    .createConversation 1 none sampleUser,
    .acceptScheduledTask { sampleStart with taskID := 11, requestHash := 11 } sampleUser]

/-- A message and a task that would be launched alone stay where they are, since
the call ends at an older record of another workspace. -/
theorem neighbour_ends_the_call :
    (∃ s, Reachable s ∧ (peerCandidates s 1).any (fun m => m.authority = sampleUser &&
        (launchPeerCandidate 1 30 m s).toOption.any (·.1 = some 30)) = true ∧
      launchConversationPeerMessage 1 30 s = .error (rateLimited "user_queue_full")) ∧
    ∃ s, Reachable s ∧ (launchCandidates s 1).any (fun task => task.authority = sampleUser &&
        (launchCandidate 30 task s).toOption.any (·.1 = some 11)) = true ∧
      launchConversationTask 1 30 s = .error (duplicate "_agent_conversation_runs") := by
  refine ⟨⟨afterOpsWithin fullNeighbour, ?_, by decide +kernel, ?_⟩,
    ⟨_, reachable_afterOps clashingNeighbour, by decide +kernel, ?_⟩⟩
  · exact ⟨0, some sampleLimits, Reaches.start.runActions _ fun _ _ _ => trivial⟩
  · rfl
  · rfl

end DomainryAgent
