import DomainryAgent.Protocol.Calls

/-!
The messages of the inboxes and the steps that take them.

A step is opened in the same move that marks the messages it takes
(`InboxTaken`), so the mark of a message and the frozen input of a step name
each other (`Frozen`), and no mark is ever taken back (`MessagesKept`).
-/

namespace DomainryAgent.Protocol

open Lib Table

variable {allowed : Hazard → Prop} {s t : Core}

/-- What a step of the protocol does to the steps of runs and to the messages. -/
inductive InboxStep (allowed : Hazard → Prop) (s : Core) :
    Table ExecutionStep.key → Table PeerMessage.id → Prop
  | same : InboxStep allowed s s.steps s.peerMessages
  | work {steps : Table ExecutionStep.key} {messages : Table PeerMessage.id}
      (change : StepChange allowed s steps messages) : InboxStep allowed s steps messages
  | told {messages : Table PeerMessage.id} (move : MessageMove s.peerMessages messages) :
      InboxStep allowed s s.steps messages

theorem Step.inbox (step : Step allowed s t) : InboxStep allowed s t.steps t.peerMessages := by
  cases step with
  | move move =>
    cases move with
    | steps change => exact .work change
    | messages move => exact .told move
    | _ => exact .same
  | _ => exact .same

/-! ### Marks -/

/-- No message is lost, and none is pending again. -/
def MessagesKept (old new : Table PeerMessage.id) : Prop :=
  ∀ id m, old.get? id = some m →
    ∃ next, new.get? id = some next ∧ ∀ c, m.consumed = some c → next.consumed = some c

theorem MessagesKept.refl (messages : Table PeerMessage.id) : MessagesKept messages messages :=
  fun _ m found => ⟨m, found, fun _ => id⟩

theorem MessagesKept.trans {x y z : Table PeerMessage.id} (first : MessagesKept x y)
    (second : MessagesKept y z) : MessagesKept x z := by
  intro id m found
  obtain ⟨next, found', mark⟩ := first id m found
  obtain ⟨last, found'', mark'⟩ := second id next found'
  exact ⟨last, found'', fun c consumed => mark' c (mark c consumed)⟩

variable {messages taken : Table PeerMessage.id} {next : PeerMessage} {claim : Claim} {number : Nat}
  {ids : List PeerMessageID} {steps : Table ExecutionStep.key} {id : PeerMessageID}

/-- Writing a message keeps the mark it has. -/
theorem MessagesKept.put {m : PeerMessage} (found : messages.get? m.id = some m)
    (same : next.id = m.id) (mark : ∀ c, m.consumed = some c → next.consumed = some c) :
    MessagesKept messages (messages.put next) := by
  intro key old there
  exact exists_put found same there (fun _ => id) fun here _ => here ▸ mark

variable {old new : Table PeerMessage.id}

theorem MessageMove.kept (move : MessageMove old new) : MessagesKept old new := by
  cases move with
  | @arrive new _ _ _ arrives =>
    intro id m there
    have apart : id ≠ new.id := by
      rintro rfl
      cases arrives.fresh.symm.trans there
    refine ⟨_, (arrives.rows id).trans (by rw [if_neg apart, there]; rfl), fun c consumed => ?_⟩
    split <;> exact consumed
  | supersede found pending =>
    refine .put found rfl fun c consumed => ?_
    rw [pending] at consumed
    cases consumed

theorem InboxTaken.kept (inbox : InboxTaken s claim number ids messages taken) :
    MessagesKept messages taken := by
  induction inbox with
  | nil => exact .refl _
  | @cons m _ messages _ found pending _ _ _ _ ih =>
    have first : MessagesKept messages
        (messages.put { m with consumed := some (.step claim.runID number) }) := by
      refine .put found rfl fun c consumed => ?_
      rw [pending] at consumed
      cases consumed
    exact first.trans ih

theorem InboxStep.kept (step : InboxStep allowed s steps messages) :
    MessagesKept s.peerMessages messages := by
  cases step with
  | same => exact .refl _
  | told move => exact move.kept
  | work change =>
    cases change with
    | opens _ _ _ _ _ taken => exact taken.kept
    | completes => exact .refl _

/-! ### Where a mark comes from -/

/-- A message that the step of a claim takes: it was pending and ready. -/
structure Takes (s : Core) (claim : Claim) (number : Nat) (m next : PeerMessage) : Prop where
  pending : m.consumed = none
  ready : Deliverable s m
  apart : m.afterRunID ≠ some claim.runID
  marked : next = { m with consumed := some (.step claim.runID number) }

/-- All the messages of an inbox are marked, and no others. -/
theorem InboxTaken.marks (inbox : InboxTaken s claim number ids messages taken) :
    ∀ id ∈ ids, ∃ m, taken.get? id = some m ∧
      m.consumed = some (.step claim.runID number) := by
  induction inbox with
  | nil => exact fun _ member => nomatch member
  | @cons m _ messages _ found _ _ _ _ rest ih =>
    intro id member
    rcases List.mem_cons.mp member with rfl | later
    · have written : (messages.put { m with consumed := some (.step claim.runID number) }).get? m.id =
          some { m with consumed := some (.step claim.runID number) } :=
        get?_put_self (v := { m with consumed := some (.step claim.runID number) }) found
      obtain ⟨next, there, mark⟩ := rest.kept _ _ written
      exact ⟨next, there, mark _ rfl⟩
    · exact ih id later

theorem InboxTaken.origin (inbox : InboxTaken s claim number ids messages taken)
    (there : taken.get? id = some next) : messages.get? id = some next ∨
      ∃ m, messages.get? id = some m ∧ id ∈ ids ∧ Takes s claim number m next := by
  induction inbox with
  | nil => exact .inl there
  | @cons m ids messages taken found pending ready apart _ _ ih =>
    rcases ih there with same | ⟨later, there', member, takes⟩
    · rcases get?_put_some same with ⟨here, rfl, _⟩ | ⟨_, before⟩
      · subst here
        exact .inr ⟨m, found, List.mem_cons_self, pending, ready, apart, rfl⟩
      · exact .inl before
    · -- The first one is marked, so it is not taken again.
      rcases get?_put_some there' with ⟨_, rfl, _⟩ | ⟨_, before⟩
      · exact nomatch takes.pending
      · exact .inr ⟨later, before, List.mem_cons_of_mem _ member, takes⟩

/-- Apart from the steps of runs, a message is written as it was, superseded
where it was pending, or new. -/
theorem MessageMove.origin (move : MessageMove old new) (there : new.get? id = some next) :
    (next.consumed = none ∧ next.superseded = false) ∨ next.consumed = some .superseded ∨
      ∃ m, old.get? id = some m ∧ next.consumed = m.consumed ∧ next.superseded = m.superseded := by
  cases move with
  | arrive pending current arrives =>
    rw [arrives.rows] at there
    split at there
    · cases there
      exact .inl ⟨pending, current⟩
    · obtain ⟨q, before, rfl⟩ := Option.map_eq_some_iff.mp there
      refine .inr (.inr ⟨q, before, ?_⟩)
      split <;> exact ⟨rfl, rfl⟩
  | supersede found pending =>
    rcases get?_put_some there with ⟨_, rfl, _⟩ | ⟨_, before⟩
    · exact .inr (.inl rfl)
    · exact .inr (.inr ⟨next, before, rfl, rfl⟩)

/-- Only the worker that opens a step marks a message for one. -/
theorem InboxStep.unopened (step : InboxStep allowed s steps messages) (unopened : ¬allowed .opens)
    (there : messages.get? id = some next) {r : Id} {k : Nat}
    (consumed : next.consumed = some (.step r k)) :
    ∃ m, s.peerMessages.get? id = some m ∧ m.consumed = some (.step r k) := by
  cases step with
  | same => exact ⟨next, there, consumed⟩
  | work change =>
    cases change with
    | opens _ _ _ _ _ _ worker => exact absurd worker unopened
    | completes => exact ⟨next, there, consumed⟩
  | told move =>
    rcases move.origin there with ⟨pending, _⟩ | superseded | ⟨m, before, same, _⟩
    · rw [pending] at consumed; cases consumed
    · rw [superseded] at consumed; cases consumed
    · exact ⟨m, before, same ▸ consumed⟩

/-! ### Marks and frozen inputs -/

/-- The mark of a message and the frozen input of a step name each other; a
message that was superseded is no step's. -/
structure Frozen (s : Core) : Prop where
  held : ∀ {id m r k}, s.peerMessages.get? id = some m → m.consumed = some (.step r k) →
    ∃ step, s.steps.get? (r, k) = some step ∧ id ∈ step.input.inbox
  marked : ∀ {r k step id}, s.steps.get? (r, k) = some step → id ∈ step.input.inbox →
    ∃ m, s.peerMessages.get? id = some m ∧ m.consumed = some (.step r k)
  superseded : ∀ {id m}, s.peerMessages.get? id = some m → m.superseded = true →
    m.consumed = some .superseded

theorem Frozen.told (frozen : Frozen s) (move : MessageMove s.peerMessages messages) :
    Frozen { s with peerMessages := messages } := by
  constructor
  · intro id m r k there consumed
    rcases move.origin there with ⟨pending, _⟩ | superseded | ⟨before, there', same, _⟩
    · rw [pending] at consumed; cases consumed
    · rw [superseded] at consumed; cases consumed
    · exact frozen.held there' (same ▸ consumed)
  · intro r k step id found member
    obtain ⟨m, there, consumed⟩ := frozen.marked found member
    obtain ⟨next, there', mark⟩ := move.kept id m there
    exact ⟨next, there', mark _ consumed⟩
  · intro id m there superseded
    rcases move.origin there with ⟨_, current⟩ | consumed | ⟨before, there', mark, same⟩
    · rw [current] at superseded; cases superseded
    · exact consumed
    · exact mark.trans (frozen.superseded there' (same ▸ superseded))

theorem Frozen.work (frozen : Frozen s) (change : StepChange allowed s steps messages) :
    Frozen { s with steps := steps, peerMessages := messages } := by
  cases change with
  | @opens claim row step _ _ accepted run missing previous inserted taken =>
    have key : step.key = (claim.runID, step.number) := congrArg (·, step.number) run
    constructor
    · intro id m r k there consumed
      rcases taken.origin there with before | ⟨before, there', member, takes⟩
      · obtain ⟨old, found, holds⟩ := frozen.held before consumed
        exact ⟨old, get?_insert?_of_some inserted found, holds⟩
      · rw [takes.marked] at consumed
        cases consumed
        exact ⟨step, key ▸ get?_insert?_self inserted, member⟩
    · intro r k other id found member
      rcases get?_insert?_some inserted found with ⟨here, rfl⟩ | ⟨_, before⟩
      · have same : (r, k) = (claim.runID, other.number) := here.trans key
        cases same
        exact taken.marks id member
      · obtain ⟨m, there, consumed⟩ := frozen.marked before member
        obtain ⟨next, there', mark⟩ := taken.kept id m there
        exact ⟨next, there', mark _ consumed⟩
    · intro id m there superseded
      rcases taken.origin there with before | ⟨before, _, _, takes⟩
      · exact frozen.superseded before superseded
      · rw [takes.marked] at superseded
        rw [takes.ready.current] at superseded
        cases superseded
  | @completes claim row step result accepted run found missing valid =>
    -- The frozen input of a step stays when it gets its result.
    have kept := StepsKept.complete found missing result
    constructor
    · intro id m r k there consumed
      obtain ⟨old, before, holds⟩ := frozen.held there consumed
      obtain ⟨next, after, input, _⟩ := kept _ old before
      exact ⟨next, after, input ▸ holds⟩
    · intro r k other id there member
      rcases get?_put_some there with ⟨here, rfl, _⟩ | ⟨_, before⟩
      · have old : s.steps.get? (r, k) = some step := here.symm ▸ found
        exact frozen.marked old member
      · exact frozen.marked before member
    · exact frozen.superseded

theorem InboxStep.frozen (step : InboxStep allowed s steps messages) (frozen : Frozen s) :
    Frozen { s with steps := steps, peerMessages := messages } := by
  cases step with
  | same => exact frozen
  | work change => exact frozen.work change
  | told move => exact frozen.told move

theorem Step.frozen (step : Step allowed s t) (frozen : Frozen s) : Frozen t := by
  have kept := step.inbox.frozen frozen
  exact ⟨kept.held, kept.marked, kept.superseded⟩

end DomainryAgent.Protocol
