import DomainryAgent.Store.Identities

/-!
Messages between the two sides of a delegation: when one can be delivered, the
notices the store writes itself, and their consumption by the step whose input
carries them.

A message belongs to the agreement it was written under.  One that is still
pending when the agreement changes is superseded.
-/

namespace DomainryAgent

open Lib Tx

/-! ### Delivery -/

/-- A message of the agreement the delegation has. -/
def PeerMessage.Under (m : PeerMessage) (d : Delegation) : Prop :=
  m.briefVersion = d.brief.version ∧ max 1 m.agreementRevision = d.agreementRevision

instance (m : PeerMessage) (d : Delegation) : Decidable (m.Under d) :=
  inferInstanceAs (Decidable (_ ∧ _))

/-- A message for one of the two sides, about nothing that has changed since. -/
def PeerMessage.Current (m : PeerMessage) (d : Delegation) : Prop :=
  m.Under d ∧ (m.conversationID = d.conversationID ∨ m.conversationID = d.sourceConversationID) ∧
    ∀ issue ∈ m.disagreement, ∃ summary ∈ d.disagreements,
      summary.id = issue.1 ∧ summary.revision = issue.2

instance (m : PeerMessage) (d : Delegation) : Decidable (m.Current d) :=
  inferInstanceAs (Decidable (_ ∧ _ ∧ _))

/-- `conversation_peer_delivery_store.go::peerMessageReady`.  The grant of a
participant who sent the message is taken to stand: a host that withdraws it
supersedes the message. -/
def peerMessageReady (m : PeerMessage) (a : Authority) : StoreTx Bool :=
  if m.superseded = true then pure false
  else do
    let d ← conversationDelegation m.delegationID a
    if d.subjectExited = true ∨ ¬ m.Current d then pure false
    else match m.afterRunID with
      | none => pure true
      | some runID => do
        let row ← runRow m.conversationID runID a
        pure row.run.status.terminal

/-- `conversation_delegation_subjects_store.go::delegationMessageScope`:
what the owner or the executor of a delegation receives. -/
def delegationMessageScope (d : Delegation) (a : Authority) (m : PeerMessage) : Prop :=
  (conversationOwner m.authority = conversationOwner (delegationRecordAuthority d a) ∨
    conversationOwner m.authority = d.executionSubject) ∧ m.delegationID = d.id

instance (d : Delegation) (a : Authority) (m : PeerMessage) :
    Decidable (delegationMessageScope d a m) :=
  inferInstanceAs (Decidable (_ ∧ _))

/-! ### Supersession -/

/-- `UPDATE … WHERE consumed_run_id = ''`. -/
def supersedeMessage (id : PeerMessageID) : StoreTx Unit := do
  let found ← read (fun s => (s.peerMessages.get? id).filter (·.consumed = none))
  let m ← require found (conflict "revision_conflict")
  write (fun s => { s with
    peerMessages := s.peerMessages.put
      { m with superseded := true, consumed := some .superseded } })

/-- `conversation_peer_delivery_store.go::supersedePeerMessages`. -/
def supersedePeerMessages (d : Delegation) (a : Authority) : StoreTx Unit := do
  let items ← read (fun s => s.peerMessages.rows.filter (fun m =>
    delegationMessageScope d a m ∧ m.consumed = none ∧ ¬ m.Under d))
  forEach (items.map (·.id)) supersedeMessage

/-- `conversation_participants_store.go::SupersedeConversationParticipantMessage`,
once the host no longer accepts its sender. -/
def supersedeConversationParticipantMessage (id : PeerMessageID) (a : Authority) :
    StoreTx Unit := do
  conversationAuthority a
  let found ← read (fun s => (s.peerMessages.get? id).filter (fun m =>
    conversationOwner m.authority = conversationOwner a ∧ m.consumed = none))
  match found with
  | none => pure ()
  | some m => do
    demand (m.senderUserID ≠ none) (badRequest "delegation_participants_invalid")
    supersedeMessage id

/-! ### Notices -/

/-- A message of the store itself, before its recipient is known. -/
structure Notice where
  id : PeerMessageID
  delegationID : Id
  conversationID : Id
  fromAgentID : Option Id
  toAgentID : Id
  agent : Option AgentRef
  kind : PeerMessageKind
  content : String
  source : Option RunReference
  briefVersion : Nat
  agreementRevision : Nat
  disagreement : Option (Id × Nat)
  deriving DecidableEq

/-- The row of a notice for its recipient. -/
def Notice.row (notice : Notice) (recipient : Authority) (now : Time) : PeerMessage :=
  { id := notice.id, runtimeID := recipient.runtimeID, authority := recipient
    agent := notice.agent, createdAt := now, consumed := none
    delegationID := notice.delegationID, conversationID := notice.conversationID
    fromAgentID := notice.fromAgentID, toAgentID := notice.toAgentID, senderUserID := none
    senderRoleKey := none, kind := notice.kind, content := notice.content, documents := 0
    source := notice.source, briefVersion := notice.briefVersion
    agreementRevision := notice.agreementRevision, replyToID := none, answeredByID := none
    answeredQuestionIDs := [], disagreement := notice.disagreement, afterRunID := none
    superseded := false }

/-- `INSERT … ON CONFLICT DO NOTHING`. -/
def insertNotice (m : PeerMessage) : StoreTx Unit :=
  write (fun s => { s with
    peerMessages := (s.peerMessages.insert? m).getD s.peerMessages })

/-- `conversation_peer_messages_store.go::insertConversationPeerNotice`.
The record of a delegation that was reached by a change is already at hand. -/
def insertConversationPeerNotice (notice : Notice) (a : Authority)
    (canonical : Option Delegation) : StoreTx Unit := do
  let found ← delegationSubjects notice.delegationID a
  demand (∀ d ∈ canonical, d.id = notice.delegationID) (forbidden "delegation_actor_invalid")
  let owner := match canonical with
    | some d => delegationRecordAuthority d a
    | none => (found.map (·.source)).getD a
  let d ← ownedConversationDelegation notice.delegationID owner
  let recipient ← delegationMessageAuthority d notice.conversationID a
  let now ← read (·.now)
  insertNotice (notice.row recipient now)

/-- The name of a status in the text of a notice. -/
def DelegationStatus.name : DelegationStatus → String
  | accepted => "accepted"
  | running => "running"
  | awaitingDelivery => "awaiting_delivery"
  | delivered => "delivered"
  | acceptedDelivery => "accepted_delivery"
  | needsChanges => "needs_changes"
  | needsUpdate => "needs_update"
  | paused => "paused"
  | failed => "failed"
  | cancelled => "cancelled"
  | rejected => "rejected"

/-- A notice of the executor's side to the delegating conversation. -/
def sourceNotice (id : PeerMessageID) (d : Delegation) (kind : PeerMessageKind)
    (content : String) : Notice :=
  { id := id, delegationID := d.id, conversationID := d.sourceConversationID
    fromAgentID := some d.toAgentID, toAgentID := d.fromAgentID, agent := some d.sourceAgent
    kind := kind, content := content, source := none, briefVersion := d.brief.version
    agreementRevision := d.agreementRevision, disagreement := none }

/-- What the delegating side is told when a run of the delegation ended. -/
def outcomeNotice (d : Delegation) (run : Run) : Notice :=
  sourceNotice (.outcome d.id run.id) d (.taskOutcome run.status)
    ("Delegation " ++ toString d.id ++ " has a new recorded outcome: " ++ d.status.name ++
      ". Inspect delegation_get for the task, actual execution evidence and any submitted " ++
      "delivery before accepting or summarizing it.")

/-- What the delegating side is told when its request was rejected. -/
def rejectionNotice (d : Delegation) : Notice :=
  sourceNotice (.rejected d.id d.revision) d .taskRejected
    ("The receiving Agent rejected delegation " ++ toString d.id ++
      ". Inspect the recorded decision and arrange the remaining work.")

/-! ### Consumption -/

/-- Consume one message of the claim's conversation. -/
def consumePeerMessage (claim : Claim) (step : Nat) (id : PeerMessageID) : StoreTx Unit := do
  let found ← read (fun s => (s.peerMessages.get? id).filter (fun m =>
    conversationOwner m.authority = conversationOwner claim.authority ∧
      m.conversationID = claim.conversationID ∧ m.consumed = none))
  let m ← require found (conflict "agent_message_consumed")
  let ready ← peerMessageReady m claim.authority
  demand (ready = true ∧ m.afterRunID ≠ some claim.runID) (conflict "agent_message_not_ready")
  write (fun s => { s with
    peerMessages := s.peerMessages.put { m with consumed := some (.step claim.runID step) } })

/-- Consume the messages in turn; none may repeat. -/
def consumeInbox (claim : Claim) (step : Nat) :
    List PeerMessageID → List PeerMessageID → StoreTx Unit
  | [], _ => pure ()
  | id :: rest, seen => do
    demand (id ∉ seen) (badRequest "agent_inbox_invalid")
    consumePeerMessage claim step id
    consumeInbox claim step rest (id :: seen)

/-- `conversation_peer_inbox_store.go::consumeConversationPeerInbox`. -/
def consumeConversationPeerInbox (claim : Claim) (ids : List PeerMessageID) (step : Nat) :
    StoreTx Unit := do
  demand (ids.length ≤ 8) (badRequest "agent_inbox_invalid")
  consumeInbox claim step ids []

/-! ### What the statements do -/

section Specifications

variable {s : Db}

/-- A message that can be delivered: nothing replaced it, it is about the
agreement there is, and the run it waits for has ended. -/
structure Deliverable (s : Core) (m : PeerMessage) : Prop where
  current : m.superseded = false
  agreement : ∃ d, s.delegations.get? m.delegationID = some d ∧ m.Current d
  after : ∀ r, m.afterRunID = some r →
    ∃ row, s.runs.get? r = some row ∧ row.run.status.terminal = true

variable {m : PeerMessage} {a : Authority} {Q : Unit → Db → Prop}

theorem peerMessageReady_delivers : (peerMessageReady m a).Ensures s (fun ready s' =>
      s' = s ∧ (ready = true → Deliverable s.toCore m)) := by
  unfold peerMessageReady
  refine ensures_ite.mpr ⟨fun _ => ensures_pure.mpr ⟨rfl, nofun⟩, fun kept => ?_⟩
  simp only [wp, ensures_conversationDelegation]
  intro d visible
  have stored := get?_of_conversationDelegation visible
  refine ensures_ite.mpr ⟨fun _ => ensures_pure.mpr ⟨rfl, nofun⟩, fun current => ?_⟩
  have agreement : ∃ d, s.delegations.get? m.delegationID = some d ∧ m.Current d :=
    ⟨d, stored, Decidable.not_not.mp (not_or.mp current).2⟩
  have fresh : m.superseded = false := Bool.not_eq_true _ ▸ kept
  split
  · next free =>
    rw [ensures_pure]
    refine ⟨rfl, fun _ => ⟨fresh, agreement, fun r waits => ?_⟩⟩
    rw [free] at waits
    cases waits
  · next runID waits =>
    simp only [wp, ensures_runRow]
    intro row found _ _
    refine ⟨trivial, fun ended => ⟨fresh, agreement, fun r waits' => ?_⟩⟩
    rw [waits] at waits'
    cases waits'
    exact ⟨row, found, ended⟩

theorem readOnly_peerMessageReady (m : PeerMessage) (a : Authority) :
    (peerMessageReady m a).ReadOnly :=
  fun _ => peerMessageReady_delivers.mono fun _ _ ready => ready.1

@[simp] theorem ensures_insertNotice : (insertNotice m).Ensures s Q ↔
      Q () { s with peerMessages := (s.peerMessages.insert? m).getD s.peerMessages } := by
  simp [insertNotice]

variable {notice : Notice}

variable {d : Delegation}

/-- A notice to the delegating conversation goes to somebody of the partition
that owns the delegation. -/
theorem insertConversationPeerNotice_reaches
    (stored : s.delegations.get? notice.delegationID = some d)
    (source : notice.conversationID = d.sourceConversationID) :
    (insertConversationPeerNotice notice a none).Ensures s (fun _ s' => ∃ recipient,
      recipient.known = true ∧ conversationOwner recipient = d.owner ∧
      s' = { s with peerMessages :=
        (s.peerMessages.insert? (notice.row recipient s.now)).getD s.peerMessages }) := by
  have key : d.id = notice.delegationID := Table.key_of_get? stored
  rw [insertConversationPeerNotice, ensures_bind]
  refine delegationSubjects_reads.mono ?_
  rintro found u ⟨rfl, read, rows⟩
  simp only [wp, ownedConversationDelegation, ensures_conversationAuthority,
    delegationMessageAuthority, (readOnly_delegationAuthorities _ _).ensures]
  intro _ _ d' there owner authorities resolved
  rw [stored] at there
  cases there
  -- The record is the caller's, or that of the source it was stored with.
  have mine : conversationOwner (delegationRecordAuthority d a) = d.owner := by
    cases found with
    | none => exact conversationOwner_record owner ⟨rfl, rfl⟩
    | some row => exact conversationOwner_record owner (rows row rfl).2
  have recorded : ∀ row, u.subjects.get? d.id = some row →
      (conversationOwner row.source = conversationOwner (delegationRecordAuthority d a) ∨
        conversationOwner row.execution = conversationOwner (delegationRecordAuthority d a)) →
      conversationOwner row.source = d.owner := by
    intro row at_row party
    rw [key] at at_row
    cases found with
    | none =>
      have same : d.owner = conversationOwner a := owner
      rw [mine, same] at party
      rw [at_row, Option.filter_some, if_pos (decide_eq_true party)] at read
      cases read
    | some row' =>
      obtain ⟨at_row', _⟩ := Option.filter_eq_some_iff.mp read.symm
      rw [at_row] at at_row'
      cases at_row'
      exact owner.symm
  obtain ⟨known, partition⟩ :=
    (delegationAuthorities_source mine recorded).peek (readOnly_delegationAuthorities _ _) resolved
  rw [if_pos source, ensures_pure, ensures_insertNotice]
  exact ⟨authorities.1, known, partition, rfl⟩

/-- A notice without conditions is ready for somebody who may read its
delegation, as long as the agreement is the one it was written under. -/
theorem ready_of_current (stored : s.delegations.get? m.delegationID = some d)
    (known : m.authority.known = true) (owner : conversationOwner m.authority = d.owner)
    (fresh : m.superseded = false) (present : d.subjectExited = false) (current : m.Current d)
    (free : m.afterRunID = none) :
    (peerMessageReady m m.authority).peek s = .ok true := by
  have visible : (s.delegations.get? m.delegationID).filter
      (fun d => d.owner = conversationOwner m.authority) = some d := by
    rw [stored, Option.filter_some, if_pos (decide_eq_true owner.symm)]
  have ensures : (peerMessageReady m m.authority).Ensures s (fun ready _ => ready = true) := by
    simp [peerMessageReady, fresh, free, conversationDelegation, visible, present, current]
  have total : (peerMessageReady m m.authority).Total s := by
    simp [peerMessageReady, fresh, free, conversationDelegation, conversationAuthority, known,
      visible, present, current]
  obtain ⟨ready, t, commits, rfl⟩ := ensures.commits total
  exact peek_of_ok commits

end Specifications

end DomainryAgent
