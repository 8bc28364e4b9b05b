import DomainryAgent.Refinement.Delegations

/-!
Peer messages follow the protocol: a message arrives and answers questions, and
one that waits launches the run of an idle recipient.
-/

namespace DomainryAgent.Refinement

open Lib Tx Table Protocol

variable {allowed : Hazard → Prop} {s : Db}

/-! ### Sending -/

/-- The answer is recorded in each of the questions. -/
theorem answerQuestions_rows (answer : PeerMessageID) (ids : List PeerMessageID) :
    (forEach ids (answerQuestion answer)).Ensures s (fun _ s' => ∃ messages,
      s' = { s with peerMessages := messages } ∧
      ∀ id, messages.get? id = (s.peerMessages.get? id).map fun q =>
        if id ∈ ids then { q with answeredByID := some answer } else q) := by
  induction ids generalizing s with
  | nil => exact ensures_pure.mpr ⟨s.peerMessages, rfl, by simp⟩
  | cons first rest ih =>
    simp only [ensures_forEach_cons, answerQuestion, wp]
    intro m found
    have key : m.id = first := key_of_get? found
    refine ih.mono ?_
    rintro _ _ ⟨messages, rfl, rows⟩
    refine ⟨messages, rfl, fun id => ?_⟩
    rw [rows, get?_put]
    by_cases here : id = first
    · simp [here, key, found]
    · simp [here, key]

variable {d : Delegation} {a : Authority} {c : Conversation} {v : RunRow} {runID : Id}

/-- The question a reply names is open. -/
theorem repliedQuestion_open {m question : PeerMessage}
    (found : repliedQuestion s d m a = .ok question) :
    (∃ asked, m.replyToID = some asked ∧ s.peerMessages.get? asked = some question) ∧
      delegationMessageScope d a question ∧ question.OpenQuestion d := by
  unfold repliedQuestion at found
  split at found
  · cases found
  · next stored =>
    obtain ⟨isOpen, found⟩ := except_ite_ok found
    obtain ⟨_, found⟩ := except_ite_ok found
    obtain ⟨_, found⟩ := except_ite_ok found
    cases found
    obtain ⟨named, scope⟩ := Option.filter_eq_some_iff.mp stored
    exact ⟨Option.bind_eq_some_iff.mp named, of_decide_eq_true scope, not_not.mp isOpen⟩

/-- A message is inserted together with the answers it gives. -/
theorem closeQuestions_arrives {m : PeerMessage}
    (plain : m.answeredByID = none ∧ m.answeredQuestionIDs = []) :
    (closeQuestions d m a).Ensures s (fun out s' =>
      (out.id = m.id ∧ out.consumed = m.consumed ∧ out.superseded = m.superseded) ∧
      ∃ messages, s' = { s with peerMessages := messages } ∧
        ∀ grown, messages.insert? out = some grown → Arrives s.peerMessages grown out) := by
  unfold closeQuestions
  refine ensures_ite.mpr ⟨fun _ => ?_, fun _ => ?_⟩
  · exact ensures_pure.mpr
      ⟨⟨rfl, rfl, rfl⟩, s.peerMessages, rfl, fun _ => arrives_insert plain⟩
  · simp only [wp]
    intro question replied _
    obtain ⟨⟨asked, names, named⟩, scope, _, _, _, version, revision⟩ := repliedQuestion_open replied
    refine (answerQuestions_rows _ _).mono ?_
    rintro _ _ ⟨messages, rfl, rows⟩
    refine ⟨⟨trivial, trivial, trivial⟩, messages, rfl, fun grown inserted => ?_⟩
    obtain ⟨fresh, after⟩ := get?_insert? inserted
    rw [rows] at fresh
    refine ⟨Option.map_eq_none_iff.mp fresh, plain.1, fun id member => ?_, fun id => ?_⟩
    · obtain ⟨q, chosen, rfl⟩ := List.mem_map.mp member
      obtain ⟨stored, asks⟩ := List.mem_filter.mp chosen
      obtain ⟨scope', ⟨kind, _, unanswered, version', revision'⟩, same⟩ := of_decide_eq_true asks
      exact ⟨q, asked, question, get?_of_mem stored, unanswered, names, named, kind, same,
        scope'.2.trans scope.2.symm, version'.trans version.symm, revision'.trans revision.symm⟩
    · rw [after, rows]

theorem readOnly_participantAgent (input : PeerSend) (participant : Bool) (a : Authority) :
    (participantAgent input participant a).ReadOnly := by
  intro s
  unfold participantAgent
  split
  · exact ensures_pure.mpr rfl
  · refine ensures_ite.mpr ⟨fun _ => ensures_pure.mpr rfl, fun _ => ?_⟩
    simp

theorem readOnly_messageRecipient (d : Delegation) (input : PeerSend) (participant : Bool)
    (recordOwner : Authority) : (messageRecipient d input participant recordOwner).ReadOnly := by
  intro s
  simp only [messageRecipient, wp, (readOnly_delegationSubjects _ _).ensures]
  intro found _
  refine ensures_ite.mpr ⟨fun _ => ensures_pure.mpr rfl, fun _ => ?_⟩
  simp

/-- A message that is sent arrives, and answers what it replies to. -/
theorem deliverPeerMessage_arrives {id : Id} {input : PeerSend} :
    (deliverPeerMessage id input a).Ensures s (fun m s' => ∃ messages sends,
      m.id = sentID id input a ∧ (m.consumed = none ∧ m.superseded = false) ∧
      Arrives s.peerMessages messages m ∧ s.peerSends.insert? ⟨m.id, input.request, m⟩ = some sends ∧
      s' = { s with peerMessages := messages, peerSends := sends }) := by
  simp only [deliverPeerMessage, checkPeerSend, preparePeerMessageDelivery,
    ensures_bind, ensures_demand, ensures_read]
  refine participantDelegation_found.mono ?_
  rintro d _ ⟨rfl, found, _⟩
  have key : d.id = id := key_of_get? found
  simp only [(readOnly_participantAgent _ _ _).ensures, wp,
    (readOnly_messageRecipient _ _ _ _).ensures,
    (readOnly_delegationMessageAuthority _ _ _).ensures]
  intro _ _ _ _ _ _ _ _ _ _ _ _
  refine (closeQuestions_arrives ⟨rfl, rfl⟩).mono ?_
  rintro m _ ⟨⟨named, unread⟩, messages, rfl, arrives⟩
  simp only [insertPeerMessage, ensures_insertRow]
  exact fun grown inserted sends recorded =>
    ⟨grown, sends, key ▸ named, unread, arrives grown inserted, recorded, rfl⟩

/-- A send is answered from its record, or its message arrives. -/
theorem sendConversationAgentMessage_answers {id : Id} {input : PeerSend} :
    (sendConversationAgentMessage id input a).Ensures s (fun m s' =>
      s.peerSends.get? (sentID id input a) = some ⟨sentID id input a, input.request, m⟩ ∧ s' = s ∨
      s.peerSends.get? (sentID id input a) = none ∧ ∃ messages sends,
        m.id = sentID id input a ∧ (m.consumed = none ∧ m.superseded = false) ∧
        Arrives s.peerMessages messages m ∧
        s.peerSends.insert? ⟨m.id, input.request, m⟩ = some sends ∧
        s' = { s with peerMessages := messages, peerSends := sends }) := by
  simp only [sendConversationAgentMessage, wp, ensures_conversationAuthority]
  intro _ _
  split
  · next record found =>
    have key : record.id = sentID id input a := key_of_get? found
    refine ensures_bind.mpr (ensures_demand.mpr fun same => ensures_pure.mpr (.inl ⟨?_, rfl⟩))
    rw [found, ← key, ← same]
  · next missing =>
    exact deliverPeerMessage_arrives.mono fun _ _ arrives => .inr ⟨missing, arrives⟩

theorem sendConversationAgentMessage_follows {id : Id} {input : PeerSend} :
    Follows allowed (sendConversationAgentMessage id input a) s := by
  refine sendConversationAgentMessage_answers.mono ?_
  rintro m _ (⟨_, rfl⟩ | ⟨_, messages, sends, _, unread, arrives, recorded, rfl⟩)
  · exact .refl
  · exact .head (.messages (.arrive unread.1 unread.2 arrives)) (.single (.send recorded))

theorem supersedeConversationParticipantMessage_follows {id : PeerMessageID} :
    Follows allowed (supersedeConversationParticipantMessage id a) s := by
  simp only [supersedeConversationParticipantMessage, wp, ensures_conversationAuthority]
  intro _
  split
  · exact ensures_pure.mpr .refl
  · simp only [wp]
    intro _
    refine supersedeMessage_tells.mono ?_
    rintro _ _ ⟨messages, told, rfl⟩
    exact Told.moves told

/-! ### Launching -/

/-- The conversation a peer run starts in. -/
def peerConversation (c : Conversation) (v : RunRow) : Conversation :=
  { c with
    lastSeq := c.lastSeq + 1
    activeRunID := if v.run.background = none then some v.run.id else none
    revision := c.revision + 1 }

theorem startPeerRun_inserts :
    (startPeerRun c v).Ensures s (fun out s' => out = some v.run.id ∧ ∃ grown,
      s.runs.insert? { v with eventSeq := v.eventSeq + 1 } = some grown ∧
        s'.toCore = { s.toCore with
          runs := grown, conversations := s.conversations.put (peerConversation c v) }) := by
  simp only [startPeerRun, wp, ensures_saveConversation, ensures_insertMessage, ensures_event,
    ensures_insertRun]
  intro _ _ _ _ _ _ _ _ _ grown inserted
  exact ⟨trivial, grown, inserted, rfl⟩

theorem wakes_live {status : DelegationStatus} (wakes : status.wakes = true) :
    status.live = true := by
  cases status <;> first | rfl | cases wakes

/-- A message of the runtime that waits for the executor of this task. -/
def Wakes (s : Core) (runtimeID : Id) (task : Task) : Prop :=
  ∃ m d, m ∈ s.peerMessages.rows ∧ m.runtimeID = runtimeID ∧ m.consumed = none ∧
    s.delegations.get? m.delegationID = some d ∧ m.conversationID = d.conversationID ∧
    d.status.wakes = true ∧ s.tasks.get? d.taskID = some task

/-- What a message may do to the task it wakes: the run the task names is
overwritten, and the phase is left. -/
structure WakesTask (allowed : Hazard → Prop) (task : Task) : Prop where
  run : task.executionRunID ≠ none → allowed .forgetRun
  phase : task.goalProgress.phase ≠ .executing → allowed .stalePhase

/-- A message wakes an idle executor with a new run under the agreement its
delegation executes. -/
theorem wakeTask_follows {task : Task} {budget : TaskBudget}
    (routed : s.Routed) (found : s.delegations.get? d.id = some d)
    (named : s.tasks.get? d.taskID = some task) (wakes : d.status.wakes = true)
    (woken : WakesTask allowed task)
    (remaining : budget = conversationDelegationRemainingBudget s.toCore d)
    (client : ∃ m, v.run.clientMessageID = .peer m) (here : v.run.conversationID = d.conversationID)
    (held : s.conversations.get? c.id = some c) (free : c.activeRunID = none) (fresh : FreshRun v)
    (room : QueueRoom s.toCore v.authority)
    (idle : ∀ r other, s.runs.get? r = some other →
      other.run.conversationID = v.run.conversationID →
      conversationOwner other.authority = conversationOwner v.authority →
      other.run.status.terminal = true) : Follows allowed (wakeTask d task c v budget) s := by
  simp only [wakeTask, wp, ensures_saveTask, ensures_saveConversationDelegation]
  intro authority _ _ _ _ _ _ _
  refine startPeerRun_inserts.mono ?_
  rintro _ t ⟨rfl, grown, inserted, core⟩
  obtain ⟨task', named', belongs, conversation, _⟩ := routed.assigned found
  rw [named] at named'
  cases named'
  have key : task.id = d.taskID := key_of_get? named
  have live := wakes_live wakes
  let awake : RunRow := { v with run := { v.run with
    agent := task.agent, background := some (peerExecution d task budget) } }
  have saved : Move allowed s.toCore { s.toCore with
      conversations := s.conversations.put (peerConversation c awake) } :=
    .touchConversation held ⟨rfl, rfl, rfl, .inr (Nat.lt_succ_self _), fun _ _ => rfl⟩ free.symm
  have launch : Move allowed
      { s.toCore with conversations := s.conversations.put (peerConversation c awake) }
      { s.toCore with
        conversations := s.conversations.put (peerConversation c awake), runs := grown
        tasks := s.tasks.put { task with
          brief := d.brief, budget := budget, goal := d.brief.goal, status := .running
          executionRunID := some v.run.id, errorCode := "" } } := by
    refine .launch (get?_key named) ⟨rfl, rfl, rfl, rfl, rfl, rfl⟩ rfl ?_ rfl rfl rfl
      (.inr ⟨d, found, key.symm, belongs, live, rfl⟩) ?_ (b := peerExecution d task budget) ?_ rfl
      ?_ inserted (.inr (authority ▸ room)) rfl rfl (or_iff_not_imp_left.mpr woken.run)
      (or_iff_not_imp_left.mpr woken.phase) (.inr client)
      ⟨rfl, .inr ⟨d, found, key.symm, belongs, remaining⟩⟩ ?_
    · rfl
    · exact .inr ⟨by rw [belongs]; exact Option.some_ne_none d.id, idle⟩
    · exact ⟨rfl, rfl, (congrArg conversationOwner authority).symm, belongs.symm,
        fun _ => conversation.trans (congrArg some here.symm), rfl⟩
    · exact ⟨fresh.status, fresh.owner, fresh.fence⟩
    · rintro _ ⟨⟩
      exact ⟨d, found, key.symm⟩
  have touch : Touched grown s.delegations
      (s.delegations.put { d with status := .running, revision := d.revision + 1 }) :=
    .of_live found live .running (by simp) _
  rw [core]
  exact .head saved (.head launch touch.moves)

variable {message : PeerMessage} {runtimeID : Id}

theorem launchRecipient_follows
    (woken : message.conversationID = d.conversationID → d.status.wakes = true →
      ∀ task, s.tasks.get? d.taskID = some task → WakesTask allowed task)
    (routed : s.Routed) (found : s.delegations.get? d.id = some d) :
    Follows allowed (launchRecipient message runID d a) s := by
  simp only [launchRecipient, wp, ensures_getConversation]
  intro _ c held _
  refine ensures_ite.mpr ⟨fun _ => ensures_pure.mpr .refl, fun free => ?_⟩
  simp only [wp, ensures_checkConversationQueueCapacity]
  intro passed
  simp only [not_or] at free
  have key : c.id = message.conversationID := key_of_get? held
  have unused := not_not.mp free.2.1
  unfold wakeRecipient
  refine ensures_ite.mpr ⟨fun _ => ?_, fun here => ?_⟩
  · refine startPeerRun_inserts.mono ?_
    rintro _ t ⟨_, grown, inserted, core⟩
    rw [core]
    refine .single (.openRun ⟨rfl, rfl, rfl⟩ rfl inserted
      ⟨get?_key held, ⟨rfl, rfl, rfl, .inr (Nat.lt_succ_self _),
        fun _ archived => absurd archived free.1⟩, unused, rfl⟩
      (queueRoom_of_check passed) (.inl ?_))
    rintro _ _ _ _ ⟨⟩
  · refine ensures_ite.mpr ⟨fun _ => ensures_pure.mpr .refl, fun wakes => ?_⟩
    simp only [wp, ensures_taskRow]
    intro task named _
    refine ensures_ite.mpr ⟨fun _ => ensures_pure.mpr .refl, fun _ => ?_⟩
    have wakes : d.status.wakes = true := Bool.not_eq_false _ ▸ wakes
    have here := not_not.mp here
    refine wakeTask_follows routed found named wakes (woken (key ▸ here) wakes task named) rfl
      ⟨message.id, rfl⟩ here (get?_key held) unused ⟨rfl, rfl, rfl⟩ (queueRoom_of_check passed) ?_
    -- The conversation is not busy, so it has no open run.
    intro _ other there conversation principal
    by_contra isOpen
    refine free.2.2.1 (List.any_eq_true.mpr ⟨other, mem_of_get? there, ?_⟩)
    simpa [conversation, principal, peerRun] using isOpen

theorem launchPeerCandidate_follows (member : message ∈ peerCandidates s runtimeID)
    (woken : ∀ task, Wakes s.toCore runtimeID task → WakesTask allowed task)
    (routed : s.Routed) :
    Follows allowed (launchPeerCandidate runtimeID runID message) s := by
  simp only [launchPeerCandidate, wp]
  refine peerMessageReady_delivers.mono ?_
  rintro ready _ ⟨rfl, _⟩
  refine ensures_ite.mpr ⟨fun _ => ensures_pure.mpr .refl, fun _ => ?_⟩
  simp only [wp, ensures_conversationDelegation,
    (readOnly_delegationMessageAuthority _ _ _).ensures]
  intro _ d visible a _ _
  have found := get?_of_conversationDelegation visible
  have chosen := List.mem_filter.mp (List.mem_insertionSort _ |>.mp member)
  obtain ⟨runtime, pending⟩ := of_decide_eq_true chosen.2
  refine launchRecipient_follows ?_ routed (get?_key found)
  intro here wakes task named
  exact woken task ⟨message, d, chosen.1, runtime, pending, found, here, wakes, named⟩

/-- A recipient that is passed over leaves no trace. -/
theorem wakeRecipient_passes :
    (wakeRecipient d c v).Ensures s (fun out s' => out = none → s' = s) := by
  have started {t : Db} {w : RunRow} :
      (startPeerRun c w).Ensures t (fun out s' => out = none → s' = s) :=
    startPeerRun_inserts.mono fun _ _ ⟨answer, _⟩ passed => nomatch answer.symm.trans passed
  unfold wakeRecipient
  refine ensures_ite.mpr ⟨fun _ => started, fun _ => ?_⟩
  refine ensures_ite.mpr ⟨fun _ => ensures_pure.mpr fun _ => rfl, fun _ => ?_⟩
  simp only [wp, ensures_taskRow]
  intro task _ _
  refine ensures_ite.mpr ⟨fun _ => ensures_pure.mpr fun _ => rfl, fun _ => ?_⟩
  simp only [wakeTask, wp, ensures_saveTask, ensures_saveConversationDelegation]
  intros
  exact started

theorem launchPeerCandidate_passes :
    (launchPeerCandidate runtimeID runID message).Ensures s (fun out s' => out = none → s' = s) := by
  simp only [launchPeerCandidate, wp]
  refine peerMessageReady_delivers.mono ?_
  rintro ready _ ⟨rfl, _⟩
  refine ensures_ite.mpr ⟨fun _ => ensures_pure.mpr fun _ => rfl, fun _ => ?_⟩
  simp only [wp, ensures_conversationDelegation,
    (readOnly_delegationMessageAuthority _ _ _).ensures, launchRecipient, ensures_getConversation]
  intro _ d _ a _ _ _ c _ _
  refine ensures_ite.mpr ⟨fun _ => ensures_pure.mpr fun _ => rfl, fun _ => ?_⟩
  simp only [wp, ensures_checkConversationQueueCapacity]
  intro _
  exact wakeRecipient_passes

theorem launchConversationPeerMessage_follows
    (woken : ∀ task, Wakes s.toCore runtimeID task → WakesTask allowed task)
    (routed : s.Routed) :
    Follows allowed (launchConversationPeerMessage runtimeID runID) s := by
  simp only [launchConversationPeerMessage, wp]
  exact ensures_firstOf (fun _ => launchPeerCandidate_passes) .refl fun _ member =>
    launchPeerCandidate_follows member woken routed

end DomainryAgent.Refinement
