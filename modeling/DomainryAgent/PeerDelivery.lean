import DomainryAgent.Protocol.Inbox
import DomainryAgent.AgreementSafety

/-!
What becomes of a message between agents, over every run of the store.

A message is marked by the step that takes it, in the transaction that stores
the step with the message in its input; a crash leaves both or neither.
-/

namespace DomainryAgent

open Lib Protocol Refinement

variable {s : Db}

/-! ### Consumption -/

variable {op : Op} {next : PeerMessage} {r : Id} {k : Nat}

/-- What an operation that opens no step leaves alone. -/
theorem unopened_step (wf : WellFormed s) (unopened : ¬Raises s op .opens) :
    ∀ id next, (s.step op).peerMessages.get? id = some next → next.consumed = some (.step r k) →
      ∃ m, s.peerMessages.get? id = some m ∧ m.consumed = some (.step r k) := by
  refine wf.along (P := fun u => ∀ id next, u.peerMessages.get? id = some next →
    next.consumed = some (.step r k) →
    ∃ m, s.peerMessages.get? id = some m ∧ m.consumed = some (.step r k)) op ?_ ?_
  · exact fun _ m there consumed => ⟨m, there, consumed⟩
  · intro x y step _ _ before id next there consumed
    obtain ⟨m, there', consumed'⟩ := step.inbox.unopened unopened there consumed
    exact before id m there' consumed'

/-- A step takes a message that was pending and ready when the operation began. -/
theorem consumed_by_step (wf : WellFormed s) {id : PeerMessageID}
    (there : (s.step op).peerMessages.get? id = some next)
    (consumed : next.consumed = some (.step r k)) :
    ∃ m, s.peerMessages.get? id = some m ∧ (m.consumed = some (.step r k) ∨
      m.consumed = none ∧ Deliverable s.toCore m ∧ m.afterRunID ≠ some r) := by
  cases op with
  | executionStep claim number input =>
    have opened : StepOpened s claim number input (s.step (.executionStep claim number input)) := by
      refine Tx.Ensures.commit (P := StepOpened s claim number input) ?_ (.again rfl)
      simpa only [exec, Tx.ensures_seqRight, Tx.ensures_pure] using executionStep_opens
    generalize s.step (.executionStep claim number input) = t at there opened
    cases opened with
    | again unchanged => exact ⟨next, unchanged ▸ there, .inl consumed⟩
    | opened _ _ taken _ _ _ core =>
      rw [core] at there
      rcases taken.origin there with before | ⟨m, before, _, takes⟩
      · exact ⟨next, before, .inl consumed⟩
      · rw [takes.marked] at consumed
        cases consumed
        exact ⟨m, before, .inr ⟨takes.pending, takes.ready, takes.apart⟩⟩
  | _ =>
    obtain ⟨m, before, same⟩ := unopened_step wf (by rintro ⟨⟩) id next there consumed
    exact ⟨m, before, .inl same⟩

/-- **Each message is consumed once.**  In every reachable store a message is
marked by a step exactly if the frozen input of that step holds it, and no two
steps hold it.  Whatever operation comes next, a step takes it only from pending
and ready: not superseded, about the agreement there is, and after the run it
waits for, which is not the step's own.  From then on, and once it is
superseded, the mark stays. -/
theorem peer_messages_are_consumed_once (reached : Reachable s) :
    (∀ id m r k, s.peerMessages.get? id = some m → (m.consumed = some (.step r k) ↔
      ∃ step, s.steps.get? (r, k) = some step ∧ id ∈ step.input.inbox)) ∧
    (∀ id step other, s.steps.get? step.key = some step → s.steps.get? other.key = some other →
      id ∈ step.input.inbox → id ∈ other.input.inbox → step = other) ∧
    (∀ op id next r k, (s.step op).peerMessages.get? id = some next →
      next.consumed = some (.step r k) →
      ∃ m, s.peerMessages.get? id = some m ∧ (m.consumed = some (.step r k) ∨
        m.consumed = none ∧ Deliverable s.toCore m ∧ m.afterRunID ≠ some r)) ∧
    (∀ id m, s.peerMessages.get? id = some m → m.superseded = true →
      m.consumed = some .superseded) ∧
    ∀ t id m c, LeadsTo s t → s.peerMessages.get? id = some m → m.consumed = some c →
      ∃ next, t.peerMessages.get? id = some next ∧ next.consumed = some c := by
  have frozen : Frozen s.toCore := by
    refine reached.invariant (fun _ _ => ?_) fun _ _ _ _ _ _ step _ _ frozen => step.frozen frozen
    exact ⟨nofun, nofun, nofun⟩
  have wf := reached.wellFormed
  refine ⟨?_, ?_, ?_, ?_, ?_⟩
  · intro id m r k there
    constructor
    · exact frozen.held there
    · rintro ⟨step, stored, holds⟩
      obtain ⟨m', there', consumed⟩ := frozen.marked stored holds
      rw [there] at there'
      cases there'
      exact consumed
  · intro id step other stored stored' holds holds'
    obtain ⟨m, there, consumed⟩ := frozen.marked stored holds
    obtain ⟨m', there', consumed'⟩ := frozen.marked stored' holds'
    rw [there] at there'
    cases there'
    have same : step.key = other.key := by
      have both := Option.some.inj (consumed.symm.trans consumed')
      injection both with run number
      exact Prod.ext run number
    rw [same] at stored
    exact Option.some.inj (stored.symm.trans stored')
  · intro op id next r k there consumed
    exact consumed_by_step wf there consumed
  · exact fun id m there superseded => frozen.superseded there superseded
  · intro t id m c leads there consumed
    have kept := leads.keeps (P := fun u => ∃ next, u.peerMessages.get? id = some next ∧
      next.consumed = some c) wf ?_ ⟨m, there, consumed⟩
    · exact kept.2
    · rintro _ x y step ⟨m, there, consumed⟩
      obtain ⟨next, there', mark⟩ := step.inbox.kept id m there
      exact ⟨next, there', mark c consumed⟩

/-- A message of the user to the executing agent. -/
def samplePeerSend : PeerSend :=
  { clientID := 60, senderConversationID := none, toAgentID := 4, kind := .message
    mode := .nextStep, replyToID := none, content := "hurry", documents := 0, briefVersion := 1
    agreementRevision := 1, executionAgent := some ⟨4, 1⟩, source := none }

/-- The id of a message to that delegation. -/
def sampleMessageID (sender : Option Id) (clientID : Id) : PeerMessageID :=
  .sent (conversationOwner sampleUser) 3 sender clientID

/-- The first step of the delegated run takes the message. -/
def takenMessage : List Op :=
  launchedDelegation ++
    [.sendMessage 3 samplePeerSend sampleUser,
      .executionStep delegatedClaim 0
        { tools := [sampleTool], maxToolCalls := 4, maxParallelTools := 0, payload := 0
          inbox := [sampleMessageID none 60] }]

theorem taken_message_is_consumed_once :
    ((afterOps takenMessage).peerMessages.get? (sampleMessageID none 60)).any
      (·.consumed = some (.step 20 0)) = true ∧
    ∀ t, LeadsTo (afterOps takenMessage) t →
      ∃ next, t.peerMessages.get? (sampleMessageID none 60) = some next ∧
        next.consumed = some (.step 20 0) := by
  obtain ⟨m, there, consumed⟩ : ∃ m,
      (afterOps takenMessage).peerMessages.get? (sampleMessageID none 60) = some m ∧
        m.consumed = some (.step 20 0) := by decide +kernel
  refine ⟨by simp [there, consumed], fun t leads => ?_⟩
  obtain ⟨_, _, _, _, stays⟩ := peer_messages_are_consumed_once (reachable_afterOps takenMessage)
  exact stays t (sampleMessageID none 60) m _ leads there consumed

end DomainryAgent
