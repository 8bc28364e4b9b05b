import DomainryAgent.AgentTask.Effects

/-!
Invariants of the task system: how rows and the calls in progress fit together.

`Outcome.rows` and `Outcome.calls` are the two induction rules.  The first is for
what holds of every row; the second for what holds between a call in progress and
the row of the run it has read.
-/

namespace DomainryAgent.AgentTask

open Lib Table

variable {rows : Rows} {action : Action} {t : Turn} {w : World}

/-! ### The run a call works on -/

/-- The copy of a run a call holds. -/
def Call.copy? : Call → Option TaskRun
  | .execute copy | .provider copy | .notify copy | .markWrite copy _
  | .heartbeatWrite copy _ _ _ _ | .beginTool copy _ _ _ | .finishTool copy _
  | .awaitApproval copy _ | .cancelWrite copy _ _ | .resolveWrite copy _ _ _
  | .operateWrite copy _ _ | .overrideWrite copy _ _ => some copy
  | .mark _ | .heartbeatRead _ _ _ _ _ | .cancelRead _ | .resolve _ _ _ => none

/-- The stored run a call has looked at.  A decision that was not yet looked up
may name any run. -/
def Call.stored? : Call → Option Key
  | .execute copy | .provider copy | .notify copy | .markWrite copy _
  | .heartbeatWrite copy _ _ _ _ | .beginTool copy _ _ _ | .finishTool copy _
  | .awaitApproval copy _ | .cancelWrite copy _ _ | .resolveWrite copy _ _ _
  | .operateWrite copy _ _ | .overrideWrite copy _ _ => some copy.key
  | .mark key | .heartbeatRead key _ _ _ _ | .cancelRead key => some key
  | .resolve _ _ _ => none

/-- What the workflow of a run is told of it. -/
def TaskRun.result (run : TaskRun) : Status × String × Option Output :=
  (run.status, run.outcome, run.output)

variable {run : TaskRun} {call : Call} {reply : Reply} {now : Time} {row new : Row}
  {calls : List Call} {events : List Event} {C : Row → Call → Prop} {P : TaskRun → Nat → Prop}

theorem mem_notifies : call ∈ notifies run ↔
      call = .notify run ∧ run.processID.isSome = true ∧ run.status.terminal = true := by
  unfold notifies
  split
  · next both => simp [both]
  · next neither =>
    constructor
    · intro none
      cases none
    · rintro ⟨-, both⟩
      exact absurd both neither

theorem mem_awaiting {copy : TaskRun} {proposal : Option Id}
    (member : call ∈ (proposal.map (Call.awaitApproval copy)).toList) :
    ∃ proposalID, call = .awaitApproval copy proposalID := by
  cases proposal with
  | none => cases member
  | some proposalID => exact ⟨proposalID, List.mem_singleton.mp member⟩

/-- A cancel request leaves at most a decision to be looked up. -/
theorem stored_of_cancelOutcome (member : call ∈ (cancelOutcome run).1) : call.stored? = none := by
  unfold cancelOutcome at member
  split at member
  · split at member
    · obtain rfl := List.mem_singleton.mp member
      rfl
    · cases member
  · cases member

variable {event : Event} {resolver : Resolver}

theorem event_of_cancelOutcome (member : event ∈ (cancelOutcome run).2) :
    event = .cancelReturned run.key := by
  unfold cancelOutcome at member
  split at member
  · split at member
    · cases member
    · exact List.mem_singleton.mp member
  · exact List.mem_singleton.mp member

theorem call_of_resolvedOutcome (member : call ∈ (resolvedOutcome run resolver).1) :
    call ∈ notifies run := by
  cases resolver with
  | proposal => exact member
  | cancel | deadline => cases member

theorem event_of_resolvedOutcome (member : event ∈ (resolvedOutcome run resolver).2) :
    event = .cancelReturned run.key := by
  cases resolver with
  | cancel => exact List.mem_singleton.mp member
  | proposal | deadline => cases member

/-- The call whose copy is saved holds that copy. -/
theorem Saves.copy {copy} (saves : Saves call reply now copy run) :
    call.copy? = some copy ∧ call.stored? = some copy.key := by
  cases saves with
  | wait => exact ⟨rfl, rfl⟩
  | fail fails => cases fails <;> exact ⟨rfl, rfl⟩
  | complete completes => cases completes <;> exact ⟨rfl, rfl⟩

variable {copy : TaskRun} {key : Key}

/-- The calls a write starts work on the run that was written. -/
theorem Change.stored (change : Change action row new calls events) (member : call ∈ calls)
    (stored : call.stored? = some key) : key = row.key := by
  cases change with
  | claim | touch =>
    obtain rfl := List.mem_singleton.mp member
    exact (Option.some.inj stored).symm
  | begin same =>
    obtain rfl := List.mem_singleton.mp member
    exact (Option.some.inj stored).symm.trans same
  | beat | mark | operate | override => cases member
  | save saves running same =>
    obtain ⟨rfl, -⟩ := mem_notifies.mp member
    exact (Option.some.inj stored).symm.trans (saves.carries.key.trans same)
  | finish same =>
    obtain ⟨proposalID, rfl⟩ := mem_awaiting member
    exact (Option.some.inj stored).symm.trans same
  | cancel =>
    rw [stored_of_cancelOutcome member] at stored
    cases stored
  | resolve resolves same =>
    obtain ⟨rfl, -⟩ := mem_notifies.mp (call_of_resolvedOutcome member)
    obtain ⟨approval, result, -, -, -, -, rfl⟩ := resolvedRun_key_of resolves
    exact (Option.some.inj stored).symm.trans same

/-- Where the calls that start without a write come from: they have looked at
nothing, at a stored run, or they go on with the run of an earlier call. -/
theorem Looks.origin (look : Looks rows action calls events) (member : call ∈ calls) :
    call.stored? = none ∨
    (∃ row, rows.get? row.key = some row ∧ call.stored? = some row.key ∧
      call.copy? = some row.run) ∨
    ∃ earlier reply now, action = .resume earlier reply now ∧ earlier.stored? = call.stored? ∧
      (call.copy? = none ∨ call.copy? = earlier.copy?) := by
  cases look with
  | nothing => cases member
  | started =>
    obtain rfl := List.mem_singleton.mp member
    exact .inr (.inr ⟨_, _, _, rfl, rfl, .inr rfl⟩)
  | acknowledged | cancelMissed =>
    obtain rfl := List.mem_singleton.mp member
    exact .inr (.inr ⟨_, _, _, rfl, rfl, .inl rfl⟩)
  | finished =>
    obtain ⟨proposalID, rfl⟩ := mem_awaiting member
    exact .inr (.inr ⟨_, _, _, rfl, rfl, .inr rfl⟩)
  | mark found | beatRead found | invoke found | cancel found | resolveRead found | operate found
  | override found =>
    obtain rfl := List.mem_singleton.mp member
    exact .inr (.inl ⟨_, found, rfl, rfl⟩)
  | cancelSettled | cancelRead => exact .inl (stored_of_cancelOutcome member)
  | resolve =>
    obtain rfl := List.mem_singleton.mp member
    exact .inl rfl
  | resolveReplayed found =>
    obtain ⟨rfl, -⟩ := mem_notifies.mp (call_of_resolvedOutcome member)
    exact .inr (.inl ⟨_, found, rfl, rfl⟩)
  | observe found =>
    obtain ⟨rfl, -⟩ := mem_notifies.mp member
    exact .inr (.inl ⟨_, found, rfl, rfl⟩)

/-- The copy the update of a cancel request was made from. -/
def Action.cancelled? : Action → Option TaskRun
  | .resume (.cancelWrite copy _ _) _ _ => some copy
  | _ => none

/-- The calls a write starts, one kind at a time. -/
theorem Change.call_cases {P : Call → Prop} (change : Change action row new calls events)
    (member : call ∈ calls) (stored : call.stored? = some row.key)
    (execute : ∀ run, P (.execute run))
    (heartbeatRead : ∀ key owner token now duration, row.leased owner token →
      P (.heartbeatRead key owner token now duration))
    (notify : ∀ run, run.status.terminal = true → new.status = run.status →
      new.run.result = run.result → P (.notify run))
    (finishTool : ∀ copy ref, P (.finishTool copy ref))
    (awaitApproval : ∀ copy proposalID, P (.awaitApproval copy proposalID)) : P call := by
  cases change with
  | claim =>
    obtain rfl := List.mem_singleton.mp member
    exact execute _
  | touch leased =>
    obtain rfl := List.mem_singleton.mp member
    exact heartbeatRead _ _ _ _ _ leased
  | begin =>
    obtain rfl := List.mem_singleton.mp member
    exact finishTool _ _
  | beat | mark | operate | override => cases member
  | save =>
    obtain ⟨rfl, -, terminal⟩ := mem_notifies.mp member
    exact notify _ terminal rfl rfl
  | finish =>
    obtain ⟨proposalID, rfl⟩ := mem_awaiting member
    exact awaitApproval _ _
  | cancel =>
    rw [stored_of_cancelOutcome member] at stored
    cases stored
  | resolve =>
    obtain ⟨rfl, -, terminal⟩ := mem_notifies.mp (call_of_resolvedOutcome member)
    exact notify _ terminal rfl rfl

/-- The calls a look starts, one kind at a time; those that read the row hold its
run. -/
theorem Looks.call_cases {P : Call → Prop} (look : Looks rows action calls events)
    (member : call ∈ calls) (stored : call.stored? = some row.key)
    (found : rows.get? row.key = some row) (provider : ∀ copy, P (.provider copy))
    (mark : ∀ run now, action = .resume (.notify run) .acknowledged now →
      events = [.acknowledged run.key run.status run.outcome run.output] → run.key = row.key →
        P (.mark run.key))
    (cancelRead : ∀ copy, copy.key = row.key → action.cancelled? = some copy →
      row.updatedAt ≠ copy.updatedAt → P (.cancelRead copy.key))
    (awaitApproval : ∀ copy proposalID, P (.awaitApproval copy proposalID))
    (notify : row.run.status.terminal = true → P (.notify row.run))
    (markWrite : ∀ reply now, action = .resume (.mark row.key) reply now →
      P (.markWrite row.run now))
    (heartbeatWrite : ∀ key owner token stamp duration reply now,
      action = .resume (.heartbeatRead key owner token stamp duration) reply now →
        key = row.key → P (.heartbeatWrite row.run owner token stamp duration))
    (beginTool : ∀ tool inputHash authorization,
      P (.beginTool row.run tool inputHash authorization))
    (cancelWrite : ∀ reason now, row.run.status.terminal = false →
      row.run.cancelRequestedAt = none → P (.cancelWrite row.run reason now))
    (resolveWrite : ∀ resolution now resolver, P (.resolveWrite row.run resolution now resolver))
    (operateWrite : ∀ operation now, P (.operateWrite row.run operation now))
    (overrideWrite : ∀ output now, P (.overrideWrite row.run output now)) : P call := by
  have here : ∀ {other : Row}, rows.get? other.key = some other →
      call.stored? = some other.key → row = other := by
    intro other there same
    rw [← Option.some.inj (stored.symm.trans same), found] at there
    exact Option.some.inj there
  have read : ∀ {other : Row} {one : Call}, rows.get? other.key = some other → call ∈ [one] →
      one.stored? = some other.key → call = one ∧ row = other := by
    intro other one there only same
    obtain rfl := List.mem_singleton.mp only
    exact ⟨rfl, here there same⟩
  cases look with
  | nothing => cases member
  | started =>
    obtain rfl := List.mem_singleton.mp member
    exact provider _
  | acknowledged =>
    obtain rfl := List.mem_singleton.mp member
    exact mark _ _ rfl rfl (Option.some.inj stored)
  | cancelMissed missed =>
    obtain rfl := List.mem_singleton.mp member
    have same := Option.some.inj stored
    exact cancelRead _ same rfl (missed row (same ▸ found))
  | finished =>
    obtain ⟨proposalID, rfl⟩ := mem_awaiting member
    exact awaitApproval _ _
  | mark there =>
    obtain ⟨rfl, rfl⟩ := read there member rfl
    exact markWrite _ _ rfl
  | beatRead there =>
    obtain ⟨rfl, rfl⟩ := read there member rfl
    exact heartbeatWrite _ _ _ _ _ _ _ rfl rfl
  | invoke there =>
    obtain ⟨rfl, rfl⟩ := read there member rfl
    exact beginTool _ _ _
  | cancel there live fresh =>
    obtain ⟨rfl, rfl⟩ := read there member rfl
    exact cancelWrite _ _ live fresh
  | resolveRead there =>
    obtain ⟨rfl, rfl⟩ := read there member rfl
    exact resolveWrite _ _ _
  | operate there =>
    obtain ⟨rfl, rfl⟩ := read there member rfl
    exact operateWrite _ _
  | override there =>
    obtain ⟨rfl, rfl⟩ := read there member rfl
    exact overrideWrite _ _
  | resolve =>
    obtain rfl := List.mem_singleton.mp member
    cases stored
  | cancelSettled | cancelRead =>
    rw [stored_of_cancelOutcome member] at stored
    cases stored
  | resolveReplayed there =>
    obtain ⟨rfl, -, terminal⟩ := mem_notifies.mp (call_of_resolvedOutcome member)
    obtain rfl := here there rfl
    exact notify terminal
  | observe there =>
    obtain ⟨rfl, -, terminal⟩ := mem_notifies.mp member
    obtain rfl := here there rfl
    exact notify terminal

/-! ### Induction rules -/

/-- What holds of new rows and is kept by every write holds of every row. -/
theorem Outcome.rows_all {P : Row → Prop} (outcome : Outcome rows action t)
    (inv : ∀ key row, rows.get? key = some row → P row)
    (created : ∀ request now, P (newRow request now))
    (written : ∀ row new calls events, rows.get? row.key = some row →
      Change action row new calls events →
      (∀ owner now duration, action.Claims owner now duration → action.takes? rows = some row) →
        P row → P new) :
    ∀ key row, t.rows.get? key = some row → P row := by
  intro key row found
  cases outcome with
  | look => exact inv key row found
  | create asked inserted =>
    obtain ⟨-, rfl⟩ | ⟨-, old⟩ := get?_insert?_some inserted found
    · exact created _ _
    · exact inv key row old
  | write stored change target =>
    obtain ⟨-, rfl, -⟩ | ⟨-, old⟩ := get?_put_some found
    · exact written _ _ _ _ stored change target (inv _ _ stored)
    · exact inv key row old

/-- A row stays, or is written over. -/
theorem Outcome.row_kept (outcome : Outcome rows action t) (found : rows.get? key = some row) :
    ∃ new, t.rows.get? key = some new ∧
      (new = row ∨ ∃ calls events, Change action row new calls events) := by
  cases outcome with
  | look => exact ⟨row, found, .inl rfl⟩
  | create asked inserted => exact ⟨row, get?_insert?_of_some inserted found, .inl rfl⟩
  | @write old new calls events stored change =>
    rw [← change.key] at stored
    by_cases same : key = new.key
    · subst same
      rw [stored] at found
      cases found
      exact ⟨new, get?_put_self stored, .inr ⟨calls, events, change⟩⟩
    · refine ⟨row, ?_, .inl rfl⟩
      rw [get?_put_of_ne same]
      exact found

/-- The run a call has looked at is stored, and its row fits the call. -/
def Held (C : Row → Call → Prop) (rows : Rows) (call : Call) : Prop :=
  ∀ key, call.stored? = some key → ∃ row, rows.get? key = some row ∧ C row call

/-- The run of a call that starts with a look is stored. -/
theorem Looks.row_of (look : Looks w.rows action calls events)
    (inv : ∀ call ∈ w.calls, Held C w.rows call) (taken : action.stray w = false)
    (member : call ∈ calls) (stored : call.stored? = some key) :
    ∃ row, w.rows.get? key = some row := by
  obtain none | ⟨row, found, there, -⟩ | ⟨earlier, reply, now, rfl, there, -⟩ := look.origin member
  · rw [none] at stored
    cases stored
  · rw [there] at stored
    cases stored
    exact ⟨row, found⟩
  · obtain ⟨row, found, -⟩ := inv earlier (mem_of_resumed taken) key (there.trans stored)
    exact ⟨row, found⟩

/-- What holds of the calls an action starts, and what every write keeps, holds
of every call in progress. -/
theorem Outcome.calls_all (outcome : Outcome w.rows action t) (taken : action.stray w = false)
    (inv : ∀ call ∈ w.calls, Held C w.rows call)
    (stable : ∀ row new calls events, w.rows.get? row.key = some row →
      Change action row new calls events → ∀ call ∈ w.calls, call.stored? = some row.key →
        C row call → C new call)
    (written : ∀ row new calls events, w.rows.get? row.key = some row →
      Change action row new calls events → ∀ call ∈ calls, call.stored? = some row.key → C new call)
    (looked : ∀ calls, Looks w.rows action calls t.events → ∀ call ∈ calls,
      ∀ row, call.stored? = some row.key → w.rows.get? row.key = some row → C row call) :
    ∀ call ∈ t.calls ++ action.left w, Held C t.rows call := by
  intro call member key stored
  cases outcome with
  | look look =>
    obtain new | old := List.mem_append.mp member
    · obtain ⟨row, found⟩ := look.row_of inv taken new stored
      obtain rfl := key_of_get? found
      exact ⟨row, found, looked _ look call new row stored found⟩
    · exact inv call (mem_of_left old) key stored
  | create asked inserted =>
    obtain ⟨row, found, fits⟩ := inv call (mem_of_left member) key stored
    exact ⟨row, get?_insert?_of_some inserted found, fits⟩
  | @write row new calls events found change =>
    have self : (w.rows.put new).get? new.key = some new :=
      get?_put_self (change.key.symm ▸ found)
    obtain fresh | old := List.mem_append.mp member
    · obtain rfl := change.stored fresh stored
      exact ⟨new, change.key ▸ self, written row new calls events found change call fresh stored⟩
    · obtain ⟨held, there, fits⟩ := inv call (mem_of_left old) key stored
      by_cases same : key = new.key
      · subst same
        rw [change.key, found] at there
        cases there
        rw [change.key] at stored
        exact ⟨new, self, stable row new calls events found change call (mem_of_left old) stored fits⟩
      · refine ⟨held, ?_, fits⟩
        rw [get?_put_of_ne same]
        exact there

/-! ### Contracts -/

/-- The copy a call holds has the contract of the stored run. -/
def Copied (row : Row) (call : Call) : Prop :=
  ∀ copy, call.copy? = some copy → copy.contract = row.run.contract

/-- A copy that a write starts a call with was claimed, or made from the copy of
the call that wrote. -/
theorem Change.copy_cases (change : Change action row new calls events) (member : call ∈ calls)
    (stored : call.stored? = some row.key) (holds : call.copy? = some copy) :
    (∃ owner now duration, row.eligible now ∧ copy = (claimedRow row owner now duration).run) ∨
    ∃ earlier reply now source, action = .resume earlier reply now ∧
      earlier.copy? = some source ∧ Carries source copy := by
  cases change with
  | claim asks eligible =>
    obtain rfl := List.mem_singleton.mp member
    cases holds
    exact .inl ⟨_, _, _, eligible, rfl⟩
  | touch =>
    obtain rfl := List.mem_singleton.mp member
    cases holds
  | begin =>
    obtain rfl := List.mem_singleton.mp member
    cases holds
    exact .inr ⟨_, _, _, _, rfl, rfl, rfl, rfl, rfl, rfl, rfl⟩
  | beat | mark | operate | override => cases member
  | save saves =>
    obtain ⟨rfl, -⟩ := mem_notifies.mp member
    cases holds
    exact .inr ⟨_, _, _, _, rfl, saves.copy.1, saves.carries⟩
  | finish =>
    obtain ⟨proposalID, rfl⟩ := mem_awaiting member
    cases holds
    exact .inr ⟨_, _, _, _, rfl, rfl, rfl, rfl, rfl, rfl, rfl⟩
  | cancel =>
    rw [stored_of_cancelOutcome member] at stored
    cases stored
  | resolve resolves =>
    obtain ⟨rfl, -⟩ := mem_notifies.mp (call_of_resolvedOutcome member)
    cases holds
    obtain ⟨approval, result, -, -, -, -, rfl⟩ := resolvedRun_key_of resolves
    exact .inr ⟨_, _, _, _, rfl, rfl, rfl, rfl, rfl, rfl, rfl⟩

/-- A write keeps the contract, when the call that makes it holds a copy with the
contract of the row. -/
theorem Change.contract (change : Change action row new calls events)
    (copied : ∀ call reply now, action = .resume call reply now → Copied row call) :
    new.run.contract = row.run.contract := by
  cases change with
  | claim | touch | begin | finish => rfl
  | beat | cancel | mark | override => exact (copied _ _ _ rfl _ rfl :)
  | save saves => exact saves.carries.contract.trans (copied _ _ _ rfl _ saves.copy.1)
  | resolve resolves =>
    obtain ⟨approval, result, -, -, -, -, rfl⟩ := resolvedRun_key_of resolves
    exact (copied _ _ _ rfl _ rfl :)
  | operate operates =>
    obtain ⟨operated, made, rfl⟩ := operatedRun_key_of operates
    exact (operatedRun_spec made).2.1.trans (copied _ _ _ rfl _ rfl)

/-- The call that is taken up fits the row a write finds. -/
theorem held_of_change (inv : ∀ call ∈ w.calls, Held C w.rows call) (taken : action.stray w = false)
    (found : w.rows.get? row.key = some row) (change : Change action row new calls events)
    (resumed : action = .resume call reply now) : C row call := by
  subst resumed
  have held := inv call (mem_of_resumed taken)
  have stored : call.stored? = some row.key := by
    cases change with
    | claim asks => cases asks
    | beat same | begin same | finish same | cancel same | resolve _ same | mark same
    | operate _ same | override same => exact congrArg some same
    | save saves _ same => exact saves.copy.2.trans (congrArg some same)
  obtain ⟨there, at', fits⟩ := held row.key stored
  rw [found] at at'
  cases at'
  exact fits

/-- Every copy in progress has the contract of its run. -/
def Contracts (w : World) : Prop := ∀ call ∈ w.calls, Held Copied w.rows call

theorem contracts_step (inv : Contracts w) (action : Action) : Contracts (step w action) := by
  apply step_rule inv
  intro t outcome taken
  have resumed : ∀ {row new calls events}, w.rows.get? row.key = some row →
      Change action row new calls events →
      ∀ call reply now, action = .resume call reply now → Copied row call :=
    fun found change call reply now is => held_of_change inv taken found change is
  apply outcome.calls_all taken inv
  · intro row new calls events found change call member stored fits copy holds
    exact (fits copy holds).trans (change.contract (resumed found change)).symm
  · intro row new calls events found change call member stored copy holds
    refine Eq.trans ?_ (change.contract (resumed found change)).symm
    obtain ⟨owner, now, duration, -, rfl⟩ | ⟨earlier, reply, now, source, is, its, carries⟩ :=
      change.copy_cases member stored holds
    · rfl
    · exact carries.contract.trans (resumed found change earlier reply now is source its)
  · intro calls look call member row stored found copy holds
    obtain none | ⟨other, there, at', same⟩ | ⟨earlier, reply, now, rfl, at', same⟩ :=
      look.origin member
    · rw [none] at stored
      cases stored
    · have here : other = row := by
        have keys := Option.some.inj (at'.symm.trans stored)
        rw [keys, found] at there
        exact (Option.some.inj there).symm
      rw [same, here] at holds
      cases holds
      rfl
    · obtain ⟨other, there, fits⟩ := inv earlier (mem_of_resumed taken) row.key (at'.trans stored)
      rw [found] at there
      cases there
      obtain none | same := same
      · rw [none] at holds
        cases holds
      · exact fits copy (same ▸ holds)

theorem contracts_empty : Contracts .empty := fun _ none => nomatch none

/-! ### Statements that find what was read -/

/-- The copy a heartbeat writes back, with the pair it holds. -/
def Action.beat? : Action → Option (TaskRun × Option Id × Nat)
  | .resume (.heartbeatWrite copy owner token _ _) _ _ => some (copy, owner, token)
  | _ => none

/-- The copy an action hands to `SaveRunning`. -/
def Action.saved? : Action → Option TaskRun
  | .resume (.execute copy) .started _ => copy.cancelRequestedAt.map fun _ => copy
  | .resume (.execute copy) _ _ | .resume (.provider copy) _ _
  | .resume (.awaitApproval copy _) _ _ => some copy
  | _ => none

/-- The action is a statement of an operator's command. -/
def Action.operates : Action → Bool
  | .operate _ _ _ | .resume (.operateWrite _ _ _) _ _ => true
  | _ => false

/-- A heartbeat that still holds the lease writes back the run it has read. -/
def HeartbeatFinds (w : World) (action : Action) : Prop :=
  ∀ beat ∈ action.beat?, ∀ row ∈ w.rows.get? beat.1.key,
    row.leased beat.2.1 beat.2.2 → row.run = beat.1

/-- The update of a cancel request that goes through finds the run it has read. -/
def CancelFinds (w : World) (action : Action) : Prop :=
  ∀ copy ∈ action.cancelled?, ∀ row ∈ w.rows.get? copy.key,
    row.updatedAt = copy.updatedAt → row.run = copy ∧ row.status = copy.status

/-- A worker that saves its run has seen the cancel request that is stored. -/
def SaveCarries (w : World) (action : Action) : Prop :=
  ∀ copy ∈ action.saved?, ∀ row ∈ w.rows.get? copy.key,
    row.leased copy.lease.owner copy.lease.token →
      ∀ at' ∈ row.run.cancelRequestedAt, copy.cancelRequestedAt = some at'

instance (w : World) (action : Action) : Decidable (HeartbeatFinds w action) :=
  inferInstanceAs (Decidable (∀ beat ∈ action.beat?, ∀ row ∈ w.rows.get? beat.1.key,
    row.leased beat.2.1 beat.2.2 → row.run = beat.1))

instance (w : World) (action : Action) : Decidable (CancelFinds w action) :=
  inferInstanceAs (Decidable (∀ copy ∈ action.cancelled?, ∀ row ∈ w.rows.get? copy.key,
    row.updatedAt = copy.updatedAt → row.run = copy ∧ row.status = copy.status))

instance (w : World) (action : Action) : Decidable (SaveCarries w action) :=
  inferInstanceAs (Decidable (∀ copy ∈ action.saved?, ∀ row ∈ w.rows.get? copy.key,
    row.leased copy.lease.owner copy.lease.token →
      ∀ at' ∈ row.run.cancelRequestedAt, copy.cancelRequestedAt = some at'))

/-- What a heartbeat will write back is right, if it still holds its lease. -/
def Beating (P : TaskRun → Nat → Prop) (row : Row) : Call → Prop
  | .heartbeatRead _ _ token _ _ => token ≤ row.fencingToken
  | .heartbeatWrite copy owner token _ _ =>
    token ≤ row.fencingToken ∧ (row.leased owner token → P copy token)
  | _ => True

theorem Beating.step (change : Change action row new calls events)
    (found : w.rows.get? row.key = some row) (finds : CancelFinds w action)
    (beating : Beating P row call) : Beating P new call := by
  cases call with
  | heartbeatRead => exact Nat.le_trans beating change.token_le
  | heartbeatWrite copy owner token =>
    refine ⟨Nat.le_trans beating.1 change.token_le, fun leased => beating.2 ?_⟩
    -- Only a claim sets a run going, and under a token of its own.
    have before := change.leased_before (fun copy _ _ _ _ is same unmoved =>
      (finds copy (is ▸ rfl) row (same ▸ found) unmoved).2) leased
    obtain held | next := before
    · exact held
    · have := beating.1
      omega
  | _ => trivial

/-- Of the calls a write starts only a heartbeat beats, and it holds its lease. -/
theorem Change.beating (change : Change action row new calls events) (member : call ∈ calls)
    (stored : call.stored? = some row.key) : Beating P new call := by
  apply change.call_cases member stored
  case heartbeatRead =>
    intro key owner token now duration leased
    exact leased.2.2 ▸ change.token_le
  all_goals (intros; trivial)

/-- Of the calls a look starts only the read of a heartbeat beats: what it has
read is right where the row is leased. -/
theorem Looks.beating (look : Looks w.rows action calls events) (taken : action.stray w = false)
    (inv : ∀ call ∈ w.calls, Held (Beating P) w.rows call) (member : call ∈ calls)
    (stored : call.stored? = some row.key) (found : w.rows.get? row.key = some row)
    (right : ∀ owner token, row.leased owner token → P row.run token) : Beating P row call := by
  apply look.call_cases member stored found
  case heartbeatWrite =>
    rintro key owner token stamp duration reply now rfl rfl
    obtain ⟨same, there, known⟩ := inv _ (mem_of_resumed taken) row.key rfl
    rw [found] at there
    cases there
    exact ⟨known, right owner token⟩
  all_goals (intros; trivial)

theorem Saves.saved (saves : Saves call reply now copy run) :
    (Action.resume call reply now).saved? = some copy := by
  cases saves with
  | wait => rfl
  | fail fails => cases fails <;> rfl
  | complete completes =>
    cases completes with
    | cancelled asked =>
      obtain ⟨at', requested⟩ := Option.isSome_iff_exists.mp asked
      cases reply with
      | started => simp [Action.saved?, requested]
      | _ => rfl
    | result taken => rfl

end DomainryAgent.AgentTask
