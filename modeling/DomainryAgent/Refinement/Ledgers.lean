import DomainryAgent.Protocol.Ledgers
import DomainryAgent.Refinement.Tasks

/-!
What the operations of a worker do to the ledger of its root.

Each of them opens the ledger if it is not there and does one piece of
`LedgerWork` on it, or none (`Drawn`).  Which reservations it starts and settles
is known before it is carried out (`workEvents`).
-/

namespace DomainryAgent.Refinement

open Lib Tx Table Protocol

variable {allowed : Hazard → Prop} {s : Db}

/-! ### The ledger of a claim -/

/-- The delegation a claim works for and the key of its root's ledger. -/
def rootOf (s : Core) (claim : Claim) : Option (Delegation × LedgerKey) :=
  (s.runs.get? claim.runID).bind fun row => row.run.delegated.bind fun work =>
    (s.delegations.get? work.1).map fun d =>
      (d, ledgerKey d.rootConversationID claim.authority)

/-- The ledger of a claim is the one stored for its root, opened if it was not. -/
structure Opened (allowed : Hazard → Prop) (s : Core) (claim : Claim) (row : RunRow)
    (d : Delegation) (ledger : WorkLedger) (ledgers : Table WorkLedger.key) : Prop where
  moves : Moves allowed s { s with ledgers := ledgers }
  stored : ledgers.get? ledger.key = some ledger
  delegated : ∃ id task, row.run.delegated = some (id, task) ∧ s.delegations.get? id = some d
  key : ledger.key = ledgerKey d.rootConversationID claim.authority
  usage : usageAt s ledger.key = ledger.usage
  reservations : reservationsAt s ledger.key = ledger.reservations
  others : ∀ k, k ≠ ledger.key → ledgers.get? k = s.ledgers.get? k

variable {events : List WorkEvent} {step : Nat}

namespace Opened

variable {c : Core} {claim : Claim} {row : RunRow} {d : Delegation} {ledger new : WorkLedger}
  {ledgers : Table WorkLedger.key}

section

variable (opened : Opened allowed c claim row d ledger ledgers)

include opened

theorem root :
    DrawsOn c claim row ledger := by
  obtain ⟨id, task, delegated, found⟩ := opened.delegated
  exact ⟨id, task, d, delegated, found, opened.key⟩

theorem rootOf_eq (found : c.runs.get? claim.runID = some row) : rootOf c claim = some (d, ledger.key) := by
  obtain ⟨id, task, delegated, stored⟩ := opened.delegated
  simp [rootOf, found, delegated, stored, opened.key]

/-- What is done to an opened ledger follows its opening. -/
theorem work (draws : allowed .draw)
    (work : LedgerWork allowed { c with ledgers := ledgers } ledger new events) :
    Moves allowed c { c with ledgers := ledgers.put new } :=
  opened.moves.tail (.ledger opened.stored work (.inr draws))

/-- A reservation put into an opened ledger is there. -/
theorem holds (key : new.key = ledger.key)
    (item : WorkReservationRow) :
    (reservationsAt { c with ledgers := ledgers.put (holdReservation new item) } ledger.key).get?
      item.key = some item := by
  have stored : (ledgers.put (holdReservation new item)).get? ledger.key =
      some (holdReservation new item) := get?_put_at opened.stored key
  simp only [reservationsAt, stored, Option.map_some, Option.getD_some]
  exact (get?_upsert _ item item.key).trans (if_pos rfl)

end

end Opened

variable {c : Core} {row : RunRow} {claim : Claim} {ledgers : Table WorkLedger.key}

theorem workLedgerForClaim_opens (allowed : Hazard → Prop) :
    (workLedgerForClaim row claim).Ensures s (fun out s' => ∃ ledgers,
      Opened allowed s.toCore claim row out.1 out.2 ledgers ∧ s' = { s with ledgers := ledgers }) := by
  unfold workLedgerForClaim
  split
  · exact ensures_fail
  · next id task delegated =>
    simp only [wp, ensures_conversationDelegation]
    intro d visible
    have stored := get?_of_conversationDelegation visible
    split
    · next ledger found =>
      rw [ensures_pure]
      have key : ledger.key = ledgerKey d.rootConversationID claim.authority :=
        key_of_get? found
      rw [← key] at found
      exact ⟨s.ledgers, ⟨.refl, found, ⟨id, task, delegated, stored⟩, key, by simp [usageAt, found],
        by simp [reservationsAt, found], fun _ _ => rfl⟩, rfl⟩
    · next missing =>
      simp only [wp, insertConversationWorkLedger, ensures_insertRow]
      intro grown inserted
      have goal := goalKey_of_workspace (inWorkspace_of_conversationDelegation visible)
      refine ⟨grown, ⟨.single (.openLedger rfl rfl rfl inserted
          (.inr ⟨d, get?_key stored, goal⟩)), get?_insert?_self inserted,
        ⟨id, task, delegated, stored⟩, rfl, ?_, ?_, ?_⟩, rfl⟩
      · simp [usageAt, openLedger, missing]
      · simp [reservationsAt, openLedger, missing]
      · intro k other
        exact ((get?_insert? inserted).2 k).trans (if_neg other)

/-! ### What the operations settle -/

/-- What a completed step is charged. -/
def completionCharge (item : WorkReservationRow) (result : StepResult) (now : Time) : WorkUsage :=
  let tokens := chargedTokens result.usage item.bounds
  ⟨tokens.1, tokens.2, max 1 (now - item.startedAt), if item.counted then 0 else 1,
    result.calls.length⟩

/-- A completion that records a result: the step has none yet. -/
def completes (s : Db) (claim : Claim) (number : Nat) : Bool :=
  (readExecutionStep s claim number).any (·.result.isNone)

/-- The reservations an operation is about to start or settle, if it commits. -/
def workEvents (s : Db) : Op → List WorkEvent
  | .reserveWork claim step _ =>
    match rootOf s.toCore claim with
    | none => []
    | some (_, root) =>
      if ((reservationsAt s.toCore root).get? (workReservationKey claim step)).any (fun item =>
          item.fence = claim.fence && !abandoned s.toCore item) then []
      else pruneEvents s.toCore (reservationsAt s.toCore root)
  | .startWork claim step =>
    match rootOf s.toCore claim with
    | none => []
    | some (_, root) =>
      match (reservationsAt s.toCore root).get? (workReservationKey claim step) with
      | none => []
      | some item =>
        if item.counted then [] else [.started { item with counted := true, startedAt := s.now }]
  | .completeExecutionStep claim number result =>
    match rootOf s.toCore claim with
    | none => []
    | some (d, root) =>
      if completes s claim number then
        let item := ((reservationsAt s.toCore root).get? (workReservationKey claim number)).getD
          (unreserved claim number d result.usage s.now)
        [.settled item .completed (completionCharge item result s.now)]
      else []
  | .releaseWork claim step =>
    match rootOf s.toCore claim with
    | none => []
    | some (_, root) =>
      ((reservationsAt s.toCore root).get? (workReservationKey claim step)).toList.map
        (fun item => .settled item .released (abandonedCharge item s.now))
  | _ => []

/-- What an operation of a claim makes of the ledgers. -/
inductive Drawn (allowed : Hazard → Prop) (s : Core) (claim : Claim) :
    List WorkEvent → Table WorkLedger.key → Prop
  | opened {row : RunRow} {d : Delegation} {ledger : WorkLedger} {ledgers : Table WorkLedger.key}
      (accepted : Accepted s claim row) (opened : Opened allowed s claim row d ledger ledgers) :
      Drawn allowed s claim [] ledgers
  | work {row : RunRow} {d : Delegation} {ledger new : WorkLedger}
      {ledgers : Table WorkLedger.key} {events : List WorkEvent}
      (accepted : Accepted s claim row) (opened : Opened allowed s claim row d ledger ledgers)
      (work : LedgerWork allowed { s with ledgers := ledgers } ledger new events) :
      Drawn allowed s claim events (ledgers.put new)

theorem Drawn.accepted (drawn : Drawn allowed c claim events ledgers) : ∃ row, Accepted c claim row := by
  cases drawn with
  | opened accepted | work accepted => exact ⟨_, accepted⟩

theorem Drawn.moves (drawn : Drawn allowed c claim events ledgers) (draws : allowed .draw) :
    Moves allowed c { c with ledgers := ledgers } := by
  cases drawn with
  | opened _ opened => exact opened.moves
  | work _ opened work => exact opened.work draws work

/-- Where an operation of a claim settles, and that it does so nowhere else. -/
structure Settles (s : Core) (root : LedgerKey) (events : List WorkEvent)
    (ledgers : Table WorkLedger.key) : Prop where
  usage : usageAt { s with ledgers := ledgers } root =
    usageAt s root + (events.map WorkEvent.charge).sum
  starts : ∀ k fence,
    (outstanding (reservationsAt { s with ledgers := ledgers } root) k fence).toNat +
        events.countP (WorkEvent.settles k fence) =
      (outstanding (reservationsAt s root) k fence).toNat +
        events.countP (WorkEvent.starts k fence)
  survives : ∀ k item, (reservationsAt s root).get? k = some item →
    (∃ next, (reservationsAt { s with ledgers := ledgers } root).get? k = some next ∧
      next.fence = item.fence ∧ next.owner = item.owner) ∨
    ∃ how amount, .settled item how amount ∈ events
  others : ∀ other, other ≠ root →
    usageAt { s with ledgers := ledgers } other = usageAt s other ∧
      reservationsAt { s with ledgers := ledgers } other = reservationsAt s other

theorem Drawn.settles (drawn : Drawn allowed c claim events ledgers) :
    ∃ d root, rootOf c claim = some (d, root) ∧ Settles c root events ledgers := by
  cases drawn with
  | @opened row d ledger _ accepted opened =>
    refine ⟨d, ledger.key, opened.rootOf_eq accepted.found, ?_⟩
    have usage : usageAt { c with ledgers := ledgers } ledger.key = usageAt c ledger.key := by
      rw [opened.usage]
      simp [usageAt, opened.stored]
    have same : reservationsAt { c with ledgers := ledgers } ledger.key =
        reservationsAt c ledger.key := by
      rw [opened.reservations]
      simp [reservationsAt, opened.stored]
    refine ⟨usage.trans (add_zero _).symm, fun k fence => by rw [same]; rfl, ?_, ?_⟩
    · intro k item held
      exact .inl ⟨item, same ▸ held, rfl, rfl⟩
    · intro other apart
      simp only [usageAt, reservationsAt, opened.others other apart, and_self]
  | @work row d ledger new before _ accepted opened work =>
    refine ⟨d, ledger.key, opened.rootOf_eq accepted.found, ?_⟩
    have stored : (before.put new).get? ledger.key = some new :=
      get?_put_at opened.stored work.key
    have usage : usageAt { c with ledgers := before.put new } ledger.key = new.usage := by
      simp [usageAt, stored]
    have reservations : reservationsAt { c with ledgers := before.put new } ledger.key =
        new.reservations := by
      simp [reservationsAt, stored]
    refine ⟨?_, fun k fence => ?_, fun k item held => ?_, ?_⟩
    · rw [usage, opened.usage]
      exact work.usage
    · rw [reservations, opened.reservations]
      exact work.starts k fence
    · rw [reservations]
      rw [opened.reservations] at held
      exact work.survives held
    · intro other apart
      have kept : (before.put new).get? other = c.ledgers.get? other :=
        (get?_put_of_ne (work.key ▸ apart)).trans (opened.others other apart)
      simp only [usageAt, reservationsAt, kept, and_self]

/-- Opening a ledger abandons nothing. -/
theorem abandoned_with_ledgers (c : Core) (ledgers : Table WorkLedger.key) :
    abandoned { c with ledgers := ledgers } = abandoned c := rfl

/-- Under the key of an accepted claim no other reservation is live. -/
theorem claim_of_live {item : WorkReservationRow}
    (accepted : Accepted c claim row) (key : item.key = workReservationKey claim step)
    (live : abandoned c item = false) :
    item.fence = claim.fence ∧ item.owner = conversationOwner claim.authority := by
  have at_run : c.runs.get? item.key.runID = some row := by
    rw [key]
    exact accepted.found
  simp only [abandoned, at_run, Bool.not_eq_false', decide_eq_true_eq] at live
  exact ⟨live.2.2.2.1.symm.trans accepted.fence, live.2.1.symm.trans accepted.principal⟩

/-- The reservation a repeated request finds again. -/
theorem get?_prune_filter {ledger : WorkLedger}
    (accepted : Accepted c claim row) :
    ((pruneConversationWorkReservations c ledger).reservations.get?
        (workReservationKey claim step)).filter (fun item => item.fence = claim.fence) =
      (pruneConversationWorkReservations c ledger).reservations.get?
        (workReservationKey claim step) := by
  rw [get?_prune]
  cases found : ledger.reservations.get? (workReservationKey claim step) with
  | none => rfl
  | some item =>
    cases gone : abandoned c item with
    | true => simp [Option.filter, gone]
    | false =>
      have fence := (claim_of_live accepted (key_of_get? found) gone).1
      simp [Option.filter, gone, fence]

/-- The claim has its reservation for a step, under its own fence. -/
def Reserves (s : Core) (claim : Claim) (step : Nat) (ledgers : Table WorkLedger.key) : Prop :=
  ∃ d root item, rootOf s claim = some (d, root) ∧
    (reservationsAt { s with ledgers := ledgers } root).get? (workReservationKey claim step) =
      some item ∧ item.fence = claim.fence ∧ item.owner = conversationOwner claim.authority

theorem reserveConversationWorkStep_draws (allowed : Hazard → Prop) {requested : WorkReservation} :
    (reserveConversationWorkStep claim step requested).Ensures s (fun _ s' => ∃ ledgers,
      Drawn allowed s.toCore claim (workEvents s (.reserveWork claim step requested)) ledgers ∧
        Reserves s.toCore claim step ledgers ∧ s' = { s with ledgers := ledgers }) := by
  simp only [reserveConversationWorkStep, ensures_bind, ensures_demand, ensures_claimed]
  rintro ⟨_, _, positive⟩ row checked
  have accepted := accepted_of_claimed checked
  refine (workLedgerForClaim_opens allowed).mono ?_
  rintro ⟨d, ledger⟩ _ ⟨ledgers, opened, rfl⟩
  have root := opened.rootOf_eq accepted.found
  have accepted' := accepted.with_ledgers ledgers
  rw [ensures_read, get?_prune_filter accepted', get?_prune, abandoned_with_ledgers]
  split
  · next existing found =>
    obtain ⟨held, live⟩ := Option.filter_eq_some_iff.mp found
    rw [Bool.not_eq_true'] at live
    obtain ⟨fence, owner⟩ := claim_of_live accepted (key_of_get? held) live
    refine ensures_pure.mpr ⟨ledgers, ?_, ⟨d, ledger.key, existing, root, ?_, fence, owner⟩, rfl⟩
    rotate_left
    · simpa [reservationsAt, opened.stored] using held
    have nothing : workEvents s (.reserveWork claim step requested) = [] := by
      simp [workEvents, root, opened.reservations, held, fence, live]
    rw [nothing]
    exact .opened accepted opened
  · next free =>
    simp only [wp, saveConversationWorkLedger]
    intro fits
    have prunes : workEvents s (.reserveWork claim step requested) =
        pruneEvents { s.toCore with ledgers := ledgers } ledger.reservations := by
      simp only [workEvents, root, opened.reservations]
      rw [if_neg]
      · rfl
      · intro taken
        obtain ⟨item, held, facts⟩ := (Option.any_eq_true _ _).mp taken
        simp [held, Option.filter] at free facts
        rw [facts.2] at free
        cases free
    rw [prunes]
    refine ⟨_, .work accepted opened (.reserve accepted' opened.root positive ?_ fits),
      ⟨d, ledger.key, _, root, opened.holds (key_prune ledger) _, ?_⟩, rfl⟩
    · rw [get?_prune, abandoned_with_ledgers]
      exact free
    · exact ⟨rfl, rfl⟩

theorem startConversationWorkStep_draws (allowed : Hazard → Prop) :
    (startConversationWorkStep claim step).Ensures s (fun _ s' => ∃ ledgers,
      Drawn allowed s.toCore claim (workEvents s (.startWork claim step)) ledgers ∧
        s' = { s with ledgers := ledgers }) := by
  simp only [startConversationWorkStep, ensures_bind, ensures_claimed]
  intro row checked
  have accepted := accepted_of_claimed checked
  refine (workLedgerForClaim_opens allowed).mono ?_
  rintro ⟨d, ledger⟩ _ ⟨ledgers, opened, rfl⟩
  have root := opened.rootOf_eq accepted.found
  simp only [wp]
  intro item found fence
  refine ensures_ite.mpr ⟨fun counted => ensures_pure.mpr ⟨ledgers, ?_, rfl⟩, fun fresh => ?_⟩
  · have nothing : workEvents s (.startWork claim step) = [] := by
      simp [workEvents, root, opened.reservations, found, counted]
    rw [nothing]
    exact .opened accepted opened
  · rw [Bool.not_eq_true] at fresh
    simp only [wp, saveConversationWorkLedger]
    have starts : workEvents s (.startWork claim step) =
        [.started { item with counted := true, startedAt := s.now }] := by
      simp [workEvents, root, opened.reservations, found, fresh]
    rw [starts]
    exact ⟨_, .work accepted opened
      (.start (accepted.with_ledgers ledgers) opened.root found fence fresh), rfl⟩

theorem releaseConversationWorkStep_draws (allowed : Hazard → Prop) :
    (releaseConversationWorkStep claim step).Ensures s (fun _ s' => ∃ ledgers,
      Drawn allowed s.toCore claim (workEvents s (.releaseWork claim step)) ledgers ∧
        s' = { s with ledgers := ledgers }) := by
  simp only [releaseConversationWorkStep, wp, ensures_claimed]
  intro row checked
  have accepted := accepted_of_claimed checked
  refine (workLedgerForClaim_opens allowed).mono ?_
  rintro ⟨d, ledger⟩ _ ⟨ledgers, opened, rfl⟩
  have root := opened.rootOf_eq accepted.found
  split
  · next missing =>
    have nothing : workEvents s (.releaseWork claim step) = [] := by
      simp [workEvents, root, opened.reservations, missing]
    rw [nothing]
    exact ensures_pure.mpr ⟨ledgers, .opened accepted opened, rfl⟩
  · next item found =>
    simp only [wp, saveConversationWorkLedger]
    intro fence
    have settles : workEvents s (.releaseWork claim step) =
        [.settled item .released (abandonedCharge item s.now)] := by
      simp [workEvents, root, opened.reservations, found]
    rw [settles]
    exact ⟨_, .work accepted opened
      (.release (accepted.with_ledgers ledgers) opened.root found fence), rfl⟩

/-! ### Completions -/

/-- The ledger of a claim's root holds a reservation for the step. -/
def HoldsReservation (s : Core) (claim : Claim) (step : Nat) : Prop :=
  ∃ d root item, rootOf s claim = some (d, root) ∧
    (reservationsAt s root).get? (workReservationKey claim step) = some item

theorem completeConversationWorkStep_draws {result : StepResult}
    (accepted : Accepted s.toCore claim row) (completing : completes s claim step = true)
    (reserved : HoldsReservation s.toCore claim step ∨ allowed .unreserved) :
    (completeConversationWorkStep row claim step result).Ensures s (fun _ s' => ∃ ledgers,
      Drawn allowed s.toCore claim (workEvents s (.completeExecutionStep claim step result))
        ledgers ∧ s' = { s with ledgers := ledgers }) := by
  simp only [completeConversationWorkStep, wp]
  refine (workLedgerForClaim_opens allowed).mono ?_
  rintro ⟨d, ledger⟩ _ ⟨ledgers, opened, rfl⟩
  have root := opened.rootOf_eq accepted.found
  simp only [wp, saveConversationWorkLedger]
  rintro fence ⟨input, output⟩ duration _
  have settles : workEvents s (.completeExecutionStep claim step result) =
      [.settled ((ledger.reservations.get? (workReservationKey claim step)).getD
          (unreserved claim step d result.usage s.now)) .completed
        (completionCharge ((ledger.reservations.get? (workReservationKey claim step)).getD
          (unreserved claim step d result.usage s.now)) result s.now)] := by
    simp [workEvents, root, opened.reservations, completing]
  rw [settles]
  refine ⟨_, .work accepted opened ?_, rfl⟩
  cases found : ledger.reservations.get? (workReservationKey claim step) with
  | none =>
    refine .unreserved (reserved.resolve_left fun holds => ?_) (accepted.with_ledgers ledgers)
      opened.root found rfl
    obtain ⟨_, _, item, same, held⟩ := holds
    rw [root] at same
    cases same
    rw [opened.reservations, found] at held
    cases held
  | some item =>
    rw [found, Option.getD_some] at input output duration
    exact .complete (accepted.with_ledgers ledgers) opened.root found (fence item found) input
      output duration

end DomainryAgent.Refinement
