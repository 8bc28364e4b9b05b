import DomainryAgent.Protocol.Steps

/-!
The foreground slot of a conversation.

A conversation has at most one run in its foreground that has not ended, and
names it.  Both sides are columns, of the runs and of the conversations
(`foreground`, `activeRunID`), and the invariant is that they match: a step
leaves both as they are, joins a free run with a free conversation or frees
two that were joined.
-/

namespace DomainryAgent.Protocol

open Lib Table

variable {allowed : Hazard → Prop} {s t : Core}

/-- The conversation whose foreground a run has while it is open. -/
def foreground (row : RunRow) : Option Id :=
  if row.run.background = none ∧ row.run.status.terminal = false then some row.run.conversationID
  else none

variable {row old new : RunRow}

theorem foreground_of_open (none : row.run.background = none)
    (isOpen : row.run.status.terminal = false) :
    foreground row = some row.run.conversationID := if_pos ⟨none, isOpen⟩

theorem foreground_of_ended (ended : row.run.status.terminal = true) :
    foreground row = none := if_neg fun h => Bool.false_ne_true (h.2.symm.trans ended)

variable {b : TaskExecution} {k r : Id} {runs : Table RunRow.key} {c : Conversation}

theorem foreground_of_background (background : row.run.background = some b) :
    foreground row = none :=
  if_neg fun h => Option.some_ne_none b (background.symm.trans h.1)

/-- A run never has the foreground of another conversation than its own. -/
theorem foreground_eq_some (held : foreground row = some k) :
    row.run.background = none ∧ row.run.status.terminal = false ∧ row.run.conversationID = k := by
  unfold foreground at held
  split at held
  · next isOpen => exact ⟨isOpen.1, isOpen.2, Option.some.inj held⟩
  · cases held

/-- The open foreground runs and the active runs of the conversations are the
same. -/
def Slots (s : Core) : Prop :=
  Matched (s.runs.pick foreground) (s.conversations.pick (·.activeRunID))

theorem Slots.empty {s : Core} (runs : s.runs = .empty) (conversations : s.conversations = .empty) :
    Slots s := by
  intro r k
  rw [runs, conversations]
  constructor <;> exact nofun

/-! ### Moves that leave the slots -/

/-- Both columns stay. -/
theorem Slots.of_columns (slots : Slots s) (runs : t.runs.pick foreground = s.runs.pick foreground)
    (conversations : t.conversations.pick (·.activeRunID) = s.conversations.pick (·.activeRunID)) :
    Slots t := by
  unfold Slots
  rw [runs, conversations]
  exact slots

/-- A run that stays in or out of the foreground. -/
theorem pick_foreground_put (found : runs.get? old.run.id = some old) (same : SameRun old new)
    (kept : foreground new = foreground old) :
    (runs.put new).pick foreground = runs.pick foreground :=
  pick_put_of_eq (show runs.get? new.run.id = some old from same.id ▸ found) kept

theorem pick_foreground_put_background (found : runs.get? old.run.id = some old)
    (same : SameRun old new) (background : old.run.background = some b) :
    (runs.put new).pick foreground = runs.pick foreground := by
  refine pick_foreground_put found same ?_
  rw [foreground_of_background background,
    foreground_of_background (same.background.trans background)]

/-! ### Moves of the slots -/

/-- A run that is not in the foreground takes the slot of its conversation. -/
theorem Slots.taken {next : Conversation} (slots : Slots s)
    (taken : Taken s.conversations row.run c next)
    (runs : t.runs.pick foreground =
      Function.update (s.runs.pick foreground) row.run.id (some row.run.conversationID))
    (own : ∀ k, s.runs.pick foreground row.run.id = some k → k = row.run.conversationID)
    (conversations : t.conversations = s.conversations.put next) : Slots t := by
  have free : s.conversations.pick (·.activeRunID) row.run.conversationID = none :=
    (pick_of_get? taken.found).trans taken.free
  have idle : s.runs.pick foreground row.run.id = none := slots.left_free free own
  have id : next.id = row.run.conversationID :=
    taken.same.id.trans (key_of_get? taken.found)
  have found : s.conversations.get? next.id = some c := id ▸ taken.found
  unfold Slots
  rw [runs, conversations, pick_put found, taken.slot, id]
  exact slots.take idle free

/-- A run that has ended gives up the slot it had. -/
theorem Slots.released {conversations : Table Conversation.id} (slots : Slots s)
    (found : s.runs.get? old.run.id = some old) (same : SameRun old new)
    (isOpen : old.run.status.terminal = false) (ended : new.run.status.terminal = true)
    (released : Released s.conversations old.run conversations) (runs : t.runs = s.runs.put new)
    (after : t.conversations = conversations) : Slots t := by
  have column : s.runs.pick foreground old.run.id = foreground old := pick_of_get? found
  have slot (c : Conversation) (held : s.conversations.get? old.run.conversationID = some c) :
      s.runs.pick foreground old.run.id = some old.run.conversationID ↔
        c.activeRunID = some old.run.id := by
    rw [slots old.run.id old.run.conversationID, pick_of_get? held]
  cases background : old.run.background with
  | none =>
    have held : s.runs.pick foreground old.run.id = some old.run.conversationID :=
      column.trans (foreground_of_open background isOpen)
    have freed : t.runs.pick foreground = Function.update (s.runs.pick foreground) old.run.id none := by
      rw [runs, pick_put (show s.runs.get? new.run.id = some old from same.id ▸ found),
        foreground_of_ended ended]
      exact congrArg (fun r => Function.update (s.runs.pick foreground) r none) same.id
    cases released with
    | @saved c next there kept cleared =>
      have id : next.id = old.run.conversationID := kept.id.trans (key_of_get? there)
      have stored : s.conversations.get? next.id = some c := id ▸ there
      unfold Slots
      rw [freed, after, pick_put stored, cleared, if_pos ((slot c there).mp held), id]
      exact slots.give held
    | @elsewhere c there other => exact absurd ((slot c there).mp held) other
  | some b =>
    have out : foreground old = none := foreground_of_background background
    refine slots.of_columns (runs ▸ pick_foreground_put_background found same background) ?_
    rw [after]
    cases released with
    | @saved c next there kept cleared =>
      have id : next.id = old.run.conversationID := kept.id.trans (key_of_get? there)
      have other : c.activeRunID ≠ some old.run.id := by
        intro active
        have held := (slot c there).mpr active
        rw [column, out] at held
        cases held
      have stored : s.conversations.get? next.id = some c := id ▸ there
      exact pick_put_of_eq stored (cleared.trans (if_neg other))
    | elsewhere => rfl

/-! ### Steps -/

theorem Move.slots (move : Move allowed s t) (slots : Slots s) : Slots t := by
  cases move with
  | openConversation free inserted =>
    exact slots.of_columns rfl (pick_insert?_of_none inserted free)
  | @touchConversation c next found same slot =>
    have stored : s.conversations.get? next.id = some c := same.id ▸ found
    exact slots.of_columns rfl (pick_put_of_eq stored slot)
  | run found same move kept =>
    refine slots.of_columns (pick_foreground_put found same ?_) rfl
    simp only [foreground, same.background, same.conversation, kept]
  | @openRun row grown c next fresh foreground inserted taken =>
    refine slots.taken taken ?_ ?_ rfl
    · have isOpen : row.run.status.terminal = false := by rw [fresh.status]; rfl
      rw [pick_insert? inserted, foreground_of_open foreground isOpen]
    · intro k held
      have free : s.runs.pick Protocol.foreground row.run.id = none := pick_free inserted
      rw [free] at held
      cases held
  | endRun found same move isOpen ended alone released =>
    exact slots.released found same isOpen ended released rfl rfl
  | @reopenRun old new c next found same move reopened foreground taken =>
    refine slots.taken taken ?_ ?_ rfl
    · rw [pick_put (show s.runs.get? new.run.id = some old from same.id ▸ found),
        foreground_of_open (same.background.trans foreground) reopened, same.conversation]
      exact congrArg (fun r => Function.update _ r _) same.id
    · intro k held
      rw [pick_of_get? found] at held
      exact (foreground_eq_some held).2.2.symm
  | closeTask found same move ended background | reopenTask found same move reopened background
    | reopenRunning found same move reopened background =>
    exact slots.of_columns (pick_foreground_put_background found same background) rfl
  | launch _ _ _ _ _ _ _ _ _ executes _ _ inserted =>
    exact slots.of_columns
      (pick_insert?_of_none inserted (foreground_of_background executes.background)) rfl
  | tick | newTask | editTask | submit | repoint | planTask | steps | tools | messages | send
    | input | touchDelegation | openLedger | ledger => exact slots

theorem Step.slots (step : Step allowed s t) (slots : Slots s) : Slots t := by
  cases step with
  | move move => exact move.slots slots
  | amendDelegation | resumeDelegation | admitDelegation | transferDelegation | snapshot =>
    exact slots

/-! ### Archived conversations -/

/-- No archived conversation has a run in its foreground. -/
def AllShelved (s : Core) : Prop := ∀ k c, s.conversations.get? k = some c → Shelved c

theorem AllShelved.put {next : Conversation} (shelved : AllShelved s)
    (found : s.conversations.get? k = some c) (same : SameConversation c next)
    (conversations : t.conversations = s.conversations.put next) : AllShelved t := by
  intro j d there
  rw [conversations] at there
  rcases get?_put_some there with ⟨_, rfl, _⟩ | ⟨_, there⟩
  · exact same.shelved (shelved k c found)
  · exact shelved j d there

theorem Step.shelved (step : Step allowed s t) (shelved : AllShelved s) : AllShelved t := by
  cases step with
  | move move =>
    cases move with
    | openConversation free inserted =>
      intro j d there
      rcases get?_insert?_some inserted there with ⟨_, rfl⟩ | ⟨_, there⟩
      · exact fun _ => free
      · exact shelved j d there
    | touchConversation found same => exact shelved.put found same rfl
    | openRun _ _ _ taken | reopenRun _ _ _ _ _ taken => exact shelved.put taken.found taken.same rfl
    | endRun _ _ _ _ _ _ released =>
      cases released with
      | saved found same => exact shelved.put found same rfl
      | elsewhere => exact shelved
    | _ => exact shelved
  | _ => exact shelved

/-! ### Reading the slots -/

/-- A run without a task is open exactly as long as its conversation names it. -/
theorem Slots.open_iff (slots : Slots s) (found : s.runs.get? r = some row)
    (none : row.run.background = none) : row.run.status.terminal = false ↔ ∃ c,
      s.conversations.get? row.run.conversationID = some c ∧ c.activeRunID = some r := by
  have column : s.runs.pick foreground r = foreground row := pick_of_get? found
  constructor
  · intro isOpen
    have named := (slots r row.run.conversationID).mp
      (column.trans (foreground_of_open none isOpen))
    exact Option.bind_eq_some_iff.mp named
  · rintro ⟨c, there, active⟩
    have held := (slots r row.run.conversationID).mpr ((pick_of_get? there).trans active)
    rw [column] at held
    exact (foreground_eq_some held).2.1

/-- The active run of a conversation is a run of it without a task. -/
theorem Slots.active (slots : Slots s) (found : s.conversations.get? k = some c)
    (active : c.activeRunID = some r) :
    ∃ row, s.runs.get? r = some row ∧ row.run.background = none ∧ row.run.conversationID = k := by
  have held := (slots r k).mpr ((pick_of_get? found).trans active)
  obtain ⟨row, there, names⟩ := Option.bind_eq_some_iff.mp held
  obtain ⟨none, _, conversation⟩ := foreground_eq_some names
  exact ⟨row, there, none, conversation⟩

end DomainryAgent.Protocol
