import DomainryAgent.Protocol.Reservations
import DomainryAgent.Refinement.Claims

/-!
The work done for a root conversation, metered.

`Meter` is the store with two ghosts: the reservations workers made and did not
give back, and the log of the reservations that were started and settled under
each root.  The log is read off each operation before it runs, and accounts for
all that the ledgers say.
-/

namespace DomainryAgent

open Lib Tx Table Protocol Refinement

/-! ### The metered store -/

structure Meter where
  db : Db
  /-- The run, the fence and the step of each reservation that was made and not
  released. -/
  reserved : List (Id × Nat × Nat)
  log : List (LedgerKey × WorkEvent)

namespace Meter

def initial (now : Time) (limits : Option ExecutionLimits) : Meter := ⟨Db.initial now limits, [], []⟩

def reservedAfter (reserved : List (Id × Nat × Nat)) : Op → List (Id × Nat × Nat)
  | .reserveWork claim step _ => (claim.runID, claim.fence, step) :: reserved
  | .releaseWork claim step => reserved.filter (· ≠ (claim.runID, claim.fence, step))
  | _ => reserved

/-- The events of an operation and the root they belong to. -/
def eventsOf (s : Db) (op : Op) : List (LedgerKey × WorkEvent) :=
  match op.presents.bind (rootOf s.toCore) with
  | none => []
  | some (_, root) => (workEvents s op).map (fun event => (root, event))

def step (m : Meter) (op : Op) : Meter :=
  if ((exec op).result? m.db).isSome then
    { db := m.db.step op, reserved := reservedAfter m.reserved op, log := m.log ++ eventsOf m.db op }
  else m

/-- A worker completes a delegated step only under a reservation it made for it
and did not release. -/
def may (m : Meter) : Op → Prop
  | .completeExecutionStep claim number _ => ∀ row, m.db.runs.get? claim.runID = some row →
      row.run.delegated ≠ none → (claim.runID, claim.fence, number) ∈ m.reserved
  | _ => True

def ReachableBy (allowed : Meter → Op → Prop) (m : Meter) : Prop :=
  ∃ now limits, Reaches Meter.step allowed (initial now limits) m

end Meter

variable {s t : Db} {m : Meter}

/-! ### The log accounts for the ledgers -/

/-- The events under a root. -/
def eventsAt (log : List (LedgerKey × WorkEvent)) (root : LedgerKey) : List WorkEvent :=
  (log.filter (·.1 = root)).map (·.2)

theorem eventsAt_append (first second : List (LedgerKey × WorkEvent)) (root : LedgerKey) :
    eventsAt (first ++ second) root = eventsAt first root ++ eventsAt second root := by
  simp [eventsAt]

theorem eventsAt_self (root : LedgerKey) (events : List WorkEvent) :
    eventsAt (events.map (fun event => (root, event))) root = events := by
  simp [eventsAt, List.filter_map, Function.comp_def]

variable {root : LedgerKey} {c : Core} {op : Op} {claim : Claim} {number fence k : Nat}
  {item : WorkReservationRow} {r : Id} {row : RunRow}

variable {other : LedgerKey} {u : Core} {events : List WorkEvent} {result : StepResult}
  {out : Outcome} {requested : WorkReservation} {how : Settlement} {amount : WorkUsage}
  {reserved : List (Id × Nat × Nat)}

theorem eventsAt_other (apart : other ≠ root) (events : List WorkEvent) :
    eventsAt (events.map (fun event => (root, event))) other = [] := by
  simp [eventsAt, List.filter_map, Function.comp_def, Ne.symm apart]

/-- A log that explains how the ledgers changed. -/
structure Accounts (s t : Core) (log : List (LedgerKey × WorkEvent)) : Prop where
  usage : ∀ root, usageAt t root = usageAt s root + ((eventsAt log root).map WorkEvent.charge).sum
  starts : ∀ root k fence, (outstanding (reservationsAt t root) k fence).toNat +
      (eventsAt log root).countP (WorkEvent.settles k fence) =
    (outstanding (reservationsAt s root) k fence).toNat +
      (eventsAt log root).countP (WorkEvent.starts k fence)

theorem Accounts.nothing {s t : Core} (same : ∀ root, usageAt t root = usageAt s root ∧
    reservationsAt t root = reservationsAt s root) : Accounts s t [] where
  usage root := (same root).1.trans (add_zero _).symm
  starts root k fence := by rw [(same root).2]; rfl

theorem Accounts.trans {s t : Core} {first second : List (LedgerKey × WorkEvent)}
    (left : Accounts s t first) (right : Accounts t u second) : Accounts s u (first ++ second) where
  usage root := by
    rw [right.usage, left.usage, eventsAt_append, List.map_append, List.sum_append, add_assoc]
  starts root k fence := by
    have before := left.starts root k fence
    have after := right.starts root k fence
    rw [eventsAt_append, List.countP_append, List.countP_append]
    omega

theorem accounts_of_settles (settles : Refinement.Settles c root events u.ledgers) :
    Accounts c u (events.map (fun event => (root, event))) := by
  constructor
  · intro other
    by_cases here : other = root
    · rw [here, eventsAt_self]
      exact settles.usage
    · rw [eventsAt_other here]
      exact (settles.others other here).1.trans (add_zero _).symm
  · intro other k fence
    by_cases here : other = root
    · rw [here, eventsAt_self]
      exact settles.starts k fence
    · have same : reservationsAt u other = reservationsAt c other := (settles.others other here).2
      rw [eventsAt_other here, same]
      rfl

theorem undrawn_raises (undrawn : draws op = false) : ¬Raises s op .draw := by
  intro raises
  cases raises with
  | draw draws => rw [undrawn] at draws; cases draws

theorem eventsOf_undrawn (undrawn : draws op = false) : Meter.eventsOf s op = [] := by
  have none : workEvents s op = [] := by
    cases op with
    | reserveWork | startWork | releaseWork | completeExecutionStep => cases undrawn
    | _ => rfl
  unfold Meter.eventsOf
  rw [none]
  split <;> rfl

theorem exec_completes : (exec (.completeExecutionStep claim number result)).Ensures s
      (fun _ t => StepCompleted (fun _ => True) s claim number result t) := by
  simp only [exec, wp]
  exact completeExecutionStep_completes fun _ _ _ _ => .inr trivial

/-- What an operation that draws does to the ledgers. -/
theorem exec_draws (drawing : draws op = true) :
    (exec op).Ensures s (fun _ t => ∃ claim, op.presents = some claim ∧
      (Drawn (fun _ => True) s.toCore claim (workEvents s op) t.ledgers ∨
        t.ledgers = s.ledgers ∧ Meter.eventsOf s op = [])) := by
  cases op with
  | reserveWork claim step requested =>
    simp only [exec, wp]
    refine (reserveConversationWorkStep_draws fun _ => True).mono ?_
    rintro _ _ ⟨ledgers, drawn, _, rfl⟩
    exact ⟨claim, rfl, .inl drawn⟩
  | startWork claim step =>
    simp only [exec, wp]
    refine (startConversationWorkStep_draws fun _ => True).mono ?_
    rintro _ _ ⟨ledgers, drawn, rfl⟩
    exact ⟨claim, rfl, .inl drawn⟩
  | releaseWork claim step =>
    simp only [exec, wp]
    refine (releaseConversationWorkStep_draws fun _ => True).mono ?_
    rintro _ _ ⟨ledgers, drawn, rfl⟩
    exact ⟨claim, rfl, .inl drawn⟩
  | completeExecutionStep claim number result =>
    refine exec_completes.mono ?_
    intro _ t completed
    refine ⟨claim, rfl, ?_⟩
    cases completed with
    | again earlier unchanged =>
      subst unchanged
      refine .inr ⟨rfl, ?_⟩
      simp only [Meter.eventsOf, Op.presents, Option.bind_some]
      split
      · rfl
      · next root => simp [workEvents, root, earlier]
    | recorded accepted _ _ _ drawn _ core =>
      have ledgers := congrArg Core.ledgers core
      dsimp only at ledgers
      rw [ledgers]
      rcases drawn with ⟨alone, same⟩ | drawn
      · refine .inr ⟨same, ?_⟩
        have rootless : rootOf s.toCore claim = none := by
          simp [rootOf, accepted.found, alone]
        simp [Meter.eventsOf, Op.presents, rootless]
      · exact .inl drawn
  | _ => cases drawing

theorem accounts_step (wf : WellFormed s) (ran : (exec op).result? s = some out) :
    Accounts s.toCore (s.step op).toCore (Meter.eventsOf s op) := by
  cases drawing : draws op with
  | false =>
    rw [eventsOf_undrawn drawing]
    refine .nothing fun root => ?_
    refine wf.along (P := fun u => usageAt u root = usageAt s.toCore root ∧
      reservationsAt u root = reservationsAt s.toCore root) op ⟨rfl, rfl⟩ ?_
    intro x y step _ _ same
    obtain ⟨usage, reservations⟩ := step.undrawn (undrawn_raises drawing) root
    exact ⟨usage.trans same.1, reservations.trans same.2⟩
  | true =>
    obtain ⟨t, ok, committed⟩ := result?_eq_some ran
    obtain ⟨claim, presents, drawn | ⟨same, nothing⟩⟩ := exec_draws drawing _ t ok
    · have after : s.step op = t := committed
      rw [after]
      obtain ⟨d, root, rooted, settles⟩ := drawn.settles
      have events : Meter.eventsOf s op = (workEvents s op).map (fun event => (root, event)) := by
        simp [Meter.eventsOf, presents, rooted]
      rw [events]
      exact accounts_of_settles settles
    · have after : s.step op = t := committed
      rw [after, nothing]
      exact .nothing fun root => by simp only [usageAt, reservationsAt, same, and_self]

namespace Meter

theorem step_db (m : Meter) (op : Op) : (m.step op).db = m.db.step op := by
  unfold step
  split
  · rfl
  · next failed =>
    unfold Db.step Tx.commit
    unfold Tx.result? at failed
    cases ran : exec op m.db with
    | ok r => rw [ran] at failed; exact absurd rfl failed
    | error e => rfl

/-- What holds of the metered store everywhere. -/
structure Accounted (now : Time) (limits : Option ExecutionLimits) (m : Meter) : Prop where
  wf : WellFormed m.db
  balanced : ∀ k ledger, m.db.ledgers.get? k = some ledger → Balanced ledger
  accounts : Accounts (Db.initial now limits).toCore m.db.toCore m.log

theorem Accounted.step {now : Time} {limits : Option ExecutionLimits}
    (inv : Accounted now limits m) (op : Op) : Accounted now limits (m.step op) := by
  refine ⟨m.step_db op ▸ inv.wf.step op, ?_, ?_⟩
  · rw [m.step_db]
    exact inv.wf.along (P := fun u => ∀ k ledger, u.ledgers.get? k = some ledger → Balanced ledger)
      op inv.balanced fun _ _ step _ _ => step.balanced
  · unfold Meter.step
    split
    · next ran =>
      obtain ⟨out, ran⟩ := Option.isSome_iff_exists.mp ran
      exact inv.accounts.trans (accounts_step inv.wf ran)
    · exact inv.accounts

end Meter

/-! ### What is reserved is held -/

/-- Work on a ledger takes away only what it settles. -/
theorem kept_of_settles {ledgers : Table WorkLedger.key}
    (settles : Refinement.Settles c root events ledgers) {key : ReservationKey}
    (kept : ∀ how amount, .settled item how amount ∉ events)
    (held : (reservationsAt c other).get? key = some item) :
    ∃ next, (reservationsAt { c with ledgers := ledgers } other).get? key = some next ∧
      next.fence = item.fence ∧ next.owner = item.owner := by
  by_cases here : other = root
  · subst here
    rcases settles.survives key item held with survives | ⟨how, amount, settled⟩
    · exact survives
    · exact absurd settled (kept how amount)
  · rw [(settles.others other here).2]
    exact ⟨item, held, rfl, rfl⟩

theorem held_undrawn (wf : WellFormed s) (undrawn : draws op = false)
    (held : Held s.toCore r fence k) : Held (s.step op).toCore r fence k := by
  refine wf.along (P := fun u => Held u r fence k) op held ?_
  intro x y step routed _ held
  refine held.step step routed fun root key item _ _ _ _ _ there => ⟨item, ?_, rfl, rfl⟩
  rw [(step.undrawn (undrawn_raises undrawn) root).2]
  exact there

/-- Completing and releasing settle the reservation of their step. -/
theorem key_of_settled
    (known : op = .releaseWork claim number ∨
      ∃ result, op = .completeExecutionStep claim number result)
    (settled : .settled item how amount ∈ workEvents s op) :
    item.key = workReservationKey claim number := by
  rcases known with rfl | ⟨result, rfl⟩
  · simp only [workEvents] at settled
    split at settled
    · cases settled
    · obtain ⟨found, member, same⟩ := List.mem_map.mp settled
      cases same
      exact key_of_get? (Option.mem_toList.mp member)
  · simp only [workEvents] at settled
    split at settled
    · cases settled
    · next d root _ =>
      split at settled
      · rw [List.mem_singleton] at settled
        cases settled
        cases found : (reservationsAt s.toCore root).get? (workReservationKey claim number) with
        | none => rfl
        | some item => exact key_of_get? found
      · cases settled

theorem held_reserve {step} :
    (reserveConversationWorkStep claim step requested).Ensures s (fun _ t =>
      (∀ r fence k, Held s.toCore r fence k → Held t.toCore r fence k) ∧
        Held t.toCore claim.runID claim.fence step) := by
  refine (reserveConversationWorkStep_draws fun _ => True).mono ?_
  rintro _ _ ⟨ledgers, drawn, ⟨d, root, item, rooted, there, under, owner⟩, rfl⟩
  obtain ⟨_, _, _, settles⟩ := drawn.settles
  constructor
  · intro r fence k held
    refine held.with_ledgers ledgers fun other key item row leased at_key owner under _ there => ?_
    refine kept_of_settles settles (fun how amount settled => ?_) there
    have key := (key_of_get? there).trans at_key
    have live : abandoned s.toCore item = false := by
      simp [abandoned, key, leased.found, owner, under, leased.running, leased.fence, leased.live]
    simp only [workEvents] at settled
    split at settled
    · cases settled
    · split at settled
      · cases settled
      · obtain ⟨dropped, member, same⟩ := List.mem_map.mp settled
        cases same
        cases live.symm.trans (List.mem_filter.mp member).2
  · obtain ⟨row, accepted⟩ := drawn.accepted
    refine ⟨⟨row, accepted.found, accepted.fence.ge⟩, ?_⟩
    intro row' leased id task d' delegated found
    cases leased.found.symm.trans accepted.found
    simp only [rootOf, accepted.found, delegated, found, Option.bind_some, Option.map_some,
      Option.some.injEq, Prod.mk.injEq] at rooted
    rw [ledgerKey_eq accepted.principal, rooted.2, accepted.conversation]
    exact .inr ⟨item, there, under, owner.trans accepted.principal.symm⟩

theorem held_start {step} (held : Held s.toCore r fence k) :
    (startConversationWorkStep claim step).Ensures s (fun _ t => Held t.toCore r fence k) := by
  refine (startConversationWorkStep_draws fun _ => True).mono ?_
  rintro _ _ ⟨ledgers, drawn, rfl⟩
  obtain ⟨_, _, _, settles⟩ := drawn.settles
  refine held.with_ledgers ledgers fun _ _ _ _ _ _ _ _ _ there => ?_
  refine kept_of_settles settles (fun how amount settled => ?_) there
  simp only [workEvents] at settled
  repeat' split at settled
  all_goals simp at settled

theorem held_release {step} (held : Held s.toCore r fence k)
    (other : (r, fence, k) ≠ (claim.runID, claim.fence, step)) :
    (releaseConversationWorkStep claim step).Ensures s (fun _ t => Held t.toCore r fence k) := by
  refine (releaseConversationWorkStep_draws fun _ => True).mono ?_
  rintro _ _ ⟨ledgers, drawn, rfl⟩
  obtain ⟨_, _, _, settles⟩ := drawn.settles
  obtain ⟨row, accepted⟩ := drawn.accepted
  refine held.with_ledgers ledgers fun _ _ _ row' leased at_key _ _ _ there => ?_
  refine kept_of_settles settles (fun how amount settled => ?_) there
  have key := key_of_settled (.inl rfl) settled
  rw [key_of_get? there, at_key] at key
  obtain ⟨-, rfl, rfl⟩ := ReservationKey.mk.inj key
  cases leased.found.symm.trans accepted.found
  exact other (by rw [← leased.fence, accepted.fence])

theorem held_complete {t : Db} (routed : s.Routed)
    (held : Held s.toCore r fence k)
    (completed : StepCompleted (fun _ => True) s claim number result t) :
    Held t.toCore r fence k := by
  cases completed with
  | again _ unchanged => exact unchanged ▸ held
  | @recorded row v step ledgers accepted found missing valid drawn noted core =>
    -- The result is recorded before the reservation goes.
    have records : Step (fun _ => True) s.toCore
        { s.toCore with steps := s.steps.put { step with result := some result } } :=
      .move (completes_move accepted found missing valid trivial)
    have recorded := held.step records routed fun _ _ item _ _ _ _ _ there => ⟨item, there, rfl, rfl⟩
    have charged : Held { s.toCore with
        steps := s.steps.put { step with result := some result }, ledgers := ledgers } r fence k := by
      rcases drawn with ⟨_, rfl⟩ | drawn
      · exact recorded
      · obtain ⟨_, _, _, settles⟩ := drawn.settles
        refine recorded.with_ledgers ledgers fun _ _ _ _ _ at_key _ _ pending there => ?_
        refine kept_of_settles settles (fun how amount settled => ?_) there
        have key := key_of_settled (.inr ⟨result, rfl⟩) settled
        rw [key_of_get? there, at_key] at key
        obtain ⟨_, at_run, at_step⟩ := ReservationKey.mk.inj key
        rw [at_run, at_step] at pending
        have stored : (s.steps.put { step with result := some result }).get?
            (claim.runID, number) = some { step with result := some result } :=
          get?_put_at found rfl
        exact nomatch pending _ stored
    rw [core]
    refine charged.step (show Step (fun _ => False) _ _ from .move (noted.move ?_)) routed
      fun _ _ item _ _ _ _ _ there => ⟨item, there, rfl, rfl⟩
    exact get?_key accepted.found

theorem reservedAfter_undrawn (undrawn : draws op = false) :
    Meter.reservedAfter reserved op = reserved := by
  cases op with
  | reserveWork | releaseWork => cases undrawn
  | _ => rfl

/-- What workers have reserved stays held. -/
theorem exec_holds (wf : WellFormed s) (op : Op)
    (held : ∀ r fence k, (r, fence, k) ∈ reserved → Held s.toCore r fence k) :
    (exec op).Ensures s (fun _ t => ∀ r fence k, (r, fence, k) ∈ Meter.reservedAfter reserved op →
      Held t.toCore r fence k) := by
  cases drawing : draws op with
  | false =>
    intro out t ok r fence k entry
    have after : s.step op = t := by simp [Db.step, Tx.commit, ok]
    rw [← after]
    rw [reservedAfter_undrawn drawing] at entry
    exact held_undrawn wf drawing (held r fence k entry)
  | true =>
    cases op with
    | reserveWork claim step requested =>
      simp only [exec, wp]
      refine held_reserve.mono ?_
      rintro _ _ ⟨others, own⟩ r fence k entry
      rcases List.mem_cons.mp entry with new | earlier
      · cases new
        exact own
      · exact others r fence k (held r fence k earlier)
    | startWork claim step =>
      simp only [exec, wp]
      intro _ t ok r fence k entry
      exact held_start (held r fence k entry) _ t ok
    | releaseWork claim step =>
      simp only [exec, wp]
      intro _ t ok r fence k entry
      obtain ⟨earlier, other⟩ := List.mem_filter.mp entry
      exact held_release (held r fence k earlier) (of_decide_eq_true other) _ t ok
    | completeExecutionStep claim number result =>
      refine exec_completes.mono ?_
      intro _ t completed r fence k entry
      exact held_complete wf.routed (held r fence k entry) completed
    | _ => cases drawing

/-- A completion under a reservation that is held finds it. -/
theorem holds_of_held (held : Held s.toCore claim.runID claim.fence number)
    (accepted : Accepted s.toCore claim row) (delegated : row.run.delegated ≠ none)
    (completing : completes s claim number = true) : HoldsReservation s.toCore claim number := by
  obtain ⟨⟨id, task⟩, delegated⟩ := Option.ne_none_iff_exists'.mp delegated
  obtain ⟨d, found, _⟩ := accepted.current id task delegated
  have rooted : rootOf s.toCore claim = some (d, ledgerKey d.rootConversationID claim.authority) := by
    simp [rootOf, accepted.found, delegated, found]
  have leased : Leased s.toCore claim.runID claim.fence row :=
    ⟨accepted.found, accepted.running, accepted.fence, accepted.live⟩
  rcases held.kept row leased id task d delegated found with ⟨done, result, stored, has⟩ |
      ⟨item, there, _⟩
  · obtain ⟨step, read, missing⟩ := (Option.any_eq_true _ _).mp completing
    have same : done = step := Option.some.inj (stored.symm.trans read)
    rw [← same, has] at missing
    cases missing
  · rw [ledgerKey_eq accepted.principal, accepted.conversation] at there
    exact ⟨d, _, item, rooted, there⟩

namespace Meter

/-- What holds of the metered store when every completion is reserved. -/
structure Safe (m : Meter) : Prop where
  wf : WellFormed m.db
  budgeted : ∀ k ledger, m.db.ledgers.get? k = some ledger → Budgeted ledger
  held : ∀ r fence k, (r, fence, k) ∈ m.reserved → Held m.db.toCore r fence k

/-- An operation that commits completes nothing that was not reserved. -/
theorem Safe.not_unreserved (safe : m.Safe) (allowed : m.may op) {t : Db}
    (ok : exec op m.db = .ok (out, t)) : ¬Raises m.db op .unreserved := by
  intro raises
  cases raises with
  | @complete claim number result row found delegated completing missing =>
    apply missing
    cases exec_completes out t ok with
    | again earlier => rw [earlier] at completing; cases completing
    | recorded accepted =>
      cases accepted.found.symm.trans found
      exact holds_of_held (safe.held _ _ _ (allowed _ found delegated)) accepted delegated
        completing

theorem Safe.step (safe : m.Safe) (allowed : m.may op) : (m.step op).Safe := by
  unfold Meter.step
  split
  swap
  · exact safe
  · next committed =>
    obtain ⟨out, ran⟩ := Option.isSome_iff_exists.mp committed
    obtain ⟨t, ok, after⟩ := result?_eq_some ran
    refine ⟨safe.wf.step op, ?_, ?_⟩
    · exact safe.wf.along
        (P := fun u => ∀ k ledger, u.ledgers.get? k = some ledger → Budgeted ledger) op
        safe.budgeted fun _ _ step _ _ => step.budgeted (safe.not_unreserved allowed ok)
    · have after : m.db.step op = t := after
      rw [after]
      exact exec_holds safe.wf op safe.held out t ok

theorem Safe.initial (now : Time) (limits : Option ExecutionLimits) :
    (Meter.initial now limits).Safe :=
  ⟨.initial now limits, (fun _ _ none => nomatch none), fun _ _ _ member => nomatch member⟩

theorem ReachableBy.safe (reached : ReachableBy may m) : m.Safe := by
  obtain ⟨now, limits, reached⟩ := reached
  exact reached.invariant (.initial now limits) fun _ safe _ allowed => safe.step allowed

theorem Accounted.initial (now : Time) (limits : Option ExecutionLimits) :
    Accounted now limits (Meter.initial now limits) :=
  ⟨.initial now limits, (fun _ _ none => nomatch none), .nothing fun _ => ⟨rfl, rfl⟩⟩

variable {allowed : Meter → Op → Prop}

theorem ReachableBy.accounted (reached : ReachableBy allowed m) :
    ∃ now limits, Accounted now limits m := by
  obtain ⟨now, limits, reached⟩ := reached
  exact ⟨now, limits, reached.invariant (.initial now limits) fun _ inv op _ => inv.step op⟩

/-- The usage of a root is what was charged to it. -/
theorem ReachableBy.usage (reached : ReachableBy allowed m) (root : LedgerKey) :
    usageAt m.db.toCore root = ((eventsAt m.log root).map WorkEvent.charge).sum := by
  obtain ⟨now, limits, inv⟩ := reached.accounted
  rw [inv.accounts.usage root]
  exact zero_add _

end Meter

end DomainryAgent
