import DomainryAgent.PeerDelivery

/-!
Questions between agents and the replies to them, over every run of the store.

The transaction that stores a reply records it in every open question that asks
what the one it replies to asks.  So the questions and their replies name each
other (`Paired`), whatever else is written on the rows.
-/

namespace DomainryAgent

open Lib Table Protocol Refinement

variable {s : Db} {messages grown : Table PeerMessage.id} {m : PeerMessage}
  {allowed : Hazard → Prop} {x y : Core}

/-- What is never written on a message again. -/
def letter (m : PeerMessage) : PeerMessage :=
  { m with superseded := false, consumed := none, answeredByID := none }

def letters (messages : Table PeerMessage.id) : PeerMessageID → Option PeerMessage :=
  messages.pick fun m => some (letter m)

def answers (messages : Table PeerMessage.id) : PeerMessageID → Option PeerMessageID :=
  messages.pick (·.answeredByID)

/-- The questions and the replies name each other, and a reply answers one and
the same question. -/
structure Paired (letters : PeerMessageID → Option PeerMessage)
    (answers : PeerMessageID → Option PeerMessageID) : Prop where
  named : ∀ {r reply}, letters r = some reply →
    ∀ id, id ∈ reply.answeredQuestionIDs ↔ answers id = some r
  stored : ∀ {id r}, answers id = some r → letters r ≠ none
  same : ∀ {r reply}, letters r = some reply → ∀ id ∈ reply.answeredQuestionIDs, ∃ q asked question,
    letters id = some q ∧ reply.replyToID = some asked ∧ letters asked = some question ∧
      AsksSame q question

/-- A message that arrives is new, and only the questions it answers change. -/
theorem Protocol.Arrives.columns (arrives : Arrives messages grown m) :
    letters grown = Function.update (letters messages) m.id (some (letter m)) ∧
    answers grown = fun id => if id ∈ m.answeredQuestionIDs then some m.id
      else answers messages id := by
  constructor
  · funext id
    simp only [letters, pick, arrives.rows]
    by_cases here : id = m.id
    · rw [if_pos here, here, Function.update_self]
      rfl
    · rw [if_neg here, Function.update_of_ne here, pick]
      cases messages.get? id with
      | none => rfl
      | some q => by_cases member : id ∈ m.answeredQuestionIDs <;> simp [member, letter]
  · funext id
    simp only [answers, pick, arrives.rows]
    by_cases member : id ∈ m.answeredQuestionIDs
    · obtain ⟨q, _, _, stored, _⟩ := arrives.asked id member
      have other : id ≠ m.id := by
        rintro rfl
        cases arrives.fresh.symm.trans stored
      simp [other, stored, member]
    · by_cases here : id = m.id
      · rw [here] at member ⊢
        simp [member, arrives.unanswered, arrives.fresh]
      · cases messages.get? id <;> simp [here, member]

theorem Paired.arrive (paired : Paired (letters messages) (answers messages))
    (arrives : Arrives messages grown m) : Paired (letters grown) (answers grown) := by
  have fresh : letters messages m.id = none := by simp [letters, pick, arrives.fresh]
  have asked : ∀ id ∈ m.answeredQuestionIDs, ∃ q asked question, letters messages id = some q ∧
      answers messages id = none ∧ m.replyToID = some asked ∧
        letters messages asked = some question ∧ AsksSame q question := by
    intro id member
    obtain ⟨q, asked, question, stored, isOpen, names, named, same⟩ := arrives.asked id member
    exact ⟨letter q, asked, letter question, pick_of_get? stored,
      (pick_of_get? stored).trans isOpen, names, pick_of_get? named, same⟩
  obtain ⟨named, stored, same⟩ := paired
  obtain ⟨texts, marks⟩ := arrives.columns
  rw [texts, marks]
  generalize letters messages = letters at *
  generalize answers messages = answers at *
  -- The new message is named by none, and those it names had no answer.
  constructor
  · intro r reply there id
    grind [Function.update_apply, letter]
  · intro id r there
    grind [Function.update_apply]
  · intro r reply there id member
    grind [Function.update_apply, letter]

/-- Taking a message writes neither the letter nor the answer. -/
theorem Protocol.InboxTaken.columns {s : Core} {claim : Claim} {number : Nat}
    {ids : List PeerMessageID} (taken : InboxTaken s claim number ids messages grown) :
    letters grown = letters messages ∧ answers grown = answers messages := by
  induction taken with
  | nil => exact ⟨rfl, rfl⟩
  | cons found _ _ _ _ _ ih =>
    rw [ih.1, ih.2]
    exact ⟨pick_put_of_eq found rfl, pick_put_of_eq found rfl⟩

/-- What a step of the protocol does to the letters and the answers. -/
theorem Protocol.Step.columns (step : Step allowed x y) :
    (letters y.peerMessages = letters x.peerMessages ∧
      answers y.peerMessages = answers x.peerMessages) ∨
    ∃ m, Arrives x.peerMessages y.peerMessages m := by
  have change := step.inbox
  generalize y.steps = steps, y.peerMessages = messages at change ⊢
  cases change with
  | same => exact .inl ⟨rfl, rfl⟩
  | work change =>
    cases change with
    | opens _ _ _ _ _ taken => exact .inl taken.columns
    | completes => exact .inl ⟨rfl, rfl⟩
  | told move =>
    cases move with
    | arrive _ _ arrives => exact .inr ⟨_, arrives⟩
    | supersede found _ => exact .inl ⟨pick_put_of_eq found rfl, pick_put_of_eq found rfl⟩

theorem paired_of_reachable (reached : Reachable s) :
    Paired (letters s.peerMessages) (answers s.peerMessages) := by
  refine reached.invariant (P := fun u => Paired (letters u.peerMessages) (answers u.peerMessages))
    (fun _ _ => ?_) fun _ _ _ _ x y step _ _ paired => ?_
  · exact ⟨nofun, nofun, nofun⟩
  · rcases step.columns with ⟨texts, marks⟩ | ⟨m, arrives⟩
    · rwa [texts, marks]
    · exact paired.arrive arrives

/-- An answer stays, since only open questions are answered. -/
theorem Protocol.Step.answers_kept {id r : PeerMessageID} (step : Step allowed x y)
    (answered : answers x.peerMessages id = some r) : answers y.peerMessages id = some r := by
  rcases step.columns with ⟨_, marks⟩ | ⟨m, arrives⟩
  · rwa [marks]
  · have closed : id ∉ m.answeredQuestionIDs := by
      intro member
      obtain ⟨q, _, _, stored, isOpen, _⟩ := arrives.asked id member
      rw [answers, pick_of_get? stored, isOpen] at answered
      cases answered
    rw [arrives.columns.2]
    exact (if_neg closed).trans answered

theorem answers_eq_some {id r : PeerMessageID} : answers messages id = some r ↔
    ∃ q, messages.get? id = some q ∧ q.answeredByID = some r :=
  Option.bind_eq_some_iff

/-! ### Replays -/

/-- The record of a send stays. -/
theorem Protocol.Step.send_kept {id : PeerMessageID} {record : PeerSendRecord}
    (step : Step allowed x y) (recorded : x.peerSends.get? id = some record) :
    y.peerSends.get? id = some record := by
  cases step with
  | move move =>
    cases move with
    | send inserted => exact get?_insert?_of_some inserted recorded
    | _ => exact recorded
  | _ => exact recorded

variable {id : Id} {input : PeerSend} {a : Authority}

/-- What a send leaves for those who repeat it. -/
theorem sendConversationAgentMessage_records :
    (sendConversationAgentMessage id input a).Ensures s (fun m t =>
      (validPeerSend input = true ∧ a.known = true) ∧
      t.peerSends.get? (sentID id input a) = some ⟨sentID id input a, input.request, m⟩) := by
  have checked : (sendConversationAgentMessage id input a).Ensures s (fun _ _ =>
      validPeerSend input = true ∧ a.known = true) := by
    simp only [sendConversationAgentMessage, Tx.wp, ensures_conversationAuthority]
    exact fun valid known => Tx.ensures_true.mono fun _ _ _ => ⟨valid, known⟩
  intro m t sent
  refine ⟨checked m t sent, ?_⟩
  rcases sendConversationAgentMessage_answers m t sent with
    ⟨recorded, rfl⟩ | ⟨_, messages, sends, key, _, _, inserted, rfl⟩
  · exact recorded
  · rw [← key]
    exact get?_insert?_self inserted

/-- A send whose request was carried out is answered from the record. -/
theorem sendConversationAgentMessage_replays (valid : validPeerSend input = true)
    (known : a.known = true)
    (recorded : s.peerSends.get? (sentID id input a) = some ⟨sentID id input a, input.request, m⟩) :
    sendConversationAgentMessage id input a s = .ok (m, s) := by
  have succeeds : (sendConversationAgentMessage id input a).Succeeds s
      (fun out t => out = m ∧ t = s) := by
    simp [sendConversationAgentMessage, conversationAuthority, Tx.wps, valid, known, recorded]
  obtain ⟨_, _, ok, rfl, rfl⟩ := succeeds
  exact ok

/-- **Questions and replies match.**  In every reachable store the questions a
reply lists are those that name it as their answer, no two replies list one
question, and all of them ask, under one agreement, what the question asks that
the reply names.  An answer never changes.  A send under the id of a stored message
changes nothing, and a send that is repeated is answered as the first time. -/
theorem peer_questions_match_replies (reached : Reachable s) :
    (∀ r reply, s.peerMessages.get? r = some reply → ∀ id, id ∈ reply.answeredQuestionIDs ↔
      ∃ q, s.peerMessages.get? id = some q ∧ q.answeredByID = some r) ∧
    (∀ id q r, s.peerMessages.get? id = some q → q.answeredByID = some r →
      ∃ reply, s.peerMessages.get? r = some reply ∧ id ∈ reply.answeredQuestionIDs ∧
        ∀ r' other, s.peerMessages.get? r' = some other → id ∈ other.answeredQuestionIDs →
          r' = r) ∧
    (∀ r reply, s.peerMessages.get? r = some reply → ∀ id ∈ reply.answeredQuestionIDs,
      ∃ q asked question, s.peerMessages.get? id = some q ∧ reply.replyToID = some asked ∧
        s.peerMessages.get? asked = some question ∧ AsksSame q question) ∧
    (∀ t id q r, LeadsTo s t → s.peerMessages.get? id = some q → q.answeredByID = some r →
      ∃ next, t.peerMessages.get? id = some next ∧ next.answeredByID = some r) ∧
    (∀ id input a m, s.peerMessages.get? (sentID id input a) = some m →
      s.step (.sendMessage id input a) = s) ∧
    ∀ id input a m t u, sendConversationAgentMessage id input a s = .ok (m, t) → LeadsTo t u →
      sendConversationAgentMessage id input a u = .ok (m, u) := by
  have paired := paired_of_reachable reached
  have named : ∀ r reply, s.peerMessages.get? r = some reply → ∀ id,
      id ∈ reply.answeredQuestionIDs ↔
        ∃ q, s.peerMessages.get? id = some q ∧ q.answeredByID = some r := by
    intro r reply there id
    rw [← answers_eq_some, ← paired.named (pick_of_get? there)]
    rfl
  refine ⟨named, ?_, ?_, ?_, ?_, ?_⟩
  · intro id q r there answered
    have holds := answers_eq_some.mpr ⟨q, there, answered⟩
    obtain ⟨_, found⟩ := Option.ne_none_iff_exists'.mp (paired.stored holds)
    obtain ⟨reply, there', _⟩ := Option.bind_eq_some_iff.mp found
    refine ⟨reply, there', (named r reply there' id).mpr ⟨q, there, answered⟩, ?_⟩
    intro r' other stored member
    obtain ⟨_, again, answered'⟩ := (named r' other stored id).mp member
    cases there.symm.trans again
    exact Option.some.inj (answered'.symm.trans answered)
  · intro r reply there id member
    obtain ⟨_, asked, _, first, names, second, same⟩ := paired.same (pick_of_get? there) id member
    obtain ⟨q, stored, is⟩ := Option.bind_eq_some_iff.mp first
    obtain ⟨question, stored', is'⟩ := Option.bind_eq_some_iff.mp second
    cases is
    cases is'
    exact ⟨q, asked, question, stored, names, stored', same⟩
  · intro t id q r leads there answered
    have kept := leads.keeps (P := fun u => answers u.peerMessages id = some r) reached.wellFormed
      (fun step => step.answers_kept) (answers_eq_some.mpr ⟨q, there, answered⟩)
    exact answers_eq_some.mp kept.2
  · intro id input a m stored
    refine Tx.Ensures.commit (P := fun t => t = s) ?_ rfl
    simp only [exec, Tx.ensures_seqRight, Tx.ensures_pure]
    refine sendConversationAgentMessage_answers.mono ?_
    rintro _ _ (⟨_, rfl⟩ | ⟨_, _, _, key, _, arrives, _⟩)
    · rfl
    · cases (key ▸ arrives.fresh).symm.trans stored
  · intro id input a m t u sent leads
    obtain ⟨⟨valid, known⟩, recorded⟩ := sendConversationAgentMessage_records m t sent
    have follows : Moves (fun _ => False) s.toCore t.toCore :=
      sendConversationAgentMessage_follows m t sent
    have kept := leads.keeps (P := fun x => x.peerSends.get? (sentID id input a) = _)
      (reached.wellFormed.after follows.steps) (fun step => step.send_kept) recorded
    exact sendConversationAgentMessage_replays valid known kept.2

/-- The user asks the executing agent twice, in other letters and with another
blank, and one reply answers both. -/
def askedTwice : List Op :=
  launchedDelegation ++
    [.sendMessage 3 { samplePeerSend with kind := .question, content := "où ?" } sampleUser,
      .sendMessage 3 { samplePeerSend with
        clientID := 61, kind := .question, content := "OÙ\u2003?" } sampleUser,
      .sendMessage 3 { samplePeerSend with
        clientID := 62, senderConversationID := some 2, toAgentID := 0, kind := .reply
        replyToID := some (sampleMessageID none 60), content := "soon" } sampleUser]

/-- Both questions have the reply as their answer for good. -/
theorem asked_twice_matches :
    ((afterOps askedTwice).peerMessages.get? (sampleMessageID (some 2) 62)).any
      (·.answeredQuestionIDs = [sampleMessageID none 60, sampleMessageID none 61]) = true ∧
    ∀ t, LeadsTo (afterOps askedTwice) t →
      ∃ next, t.peerMessages.get? (sampleMessageID none 61) = some next ∧
        next.answeredByID = some (sampleMessageID (some 2) 62) := by
  refine ⟨by decide +kernel, fun t leads => ?_⟩
  obtain ⟨q, there, answered⟩ : ∃ q,
      (afterOps askedTwice).peerMessages.get? (sampleMessageID none 61) = some q ∧
        q.answeredByID = some (sampleMessageID (some 2) 62) := by decide +kernel
  obtain ⟨_, _, _, stays, _, _⟩ := peer_questions_match_replies (reachable_afterOps askedTwice)
  exact stays t (sampleMessageID none 61) q _ leads there answered

end DomainryAgent
