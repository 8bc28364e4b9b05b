import DomainryAgent.AgentTask.Attempts

/-!
Cancel requests.

A request is part of the payload that workers write back from their copies, and
its own update tests only the time of the last change: when the test misses,
`RequestCancel` reads the run once more and returns it without an error, whatever
it finds.  Where the update finds the row as it was read, and every writer from a
copy has seen the request, a request stays until the run has ended, and no later
claim starts the provider.
-/

namespace DomainryAgent.AgentTask

open Lib

variable {rows : Rows} {action : Action} {w u v : World} {key : Key}

/-! ### Conditions -/

/-- The update of a cancel request finds the row as it was read. -/
def CancelHits (w : World) (action : Action) : Prop :=
  ∀ copy ∈ action.cancelled?, ∀ row ∈ w.rows.get? copy.key,
    row.updatedAt = copy.updatedAt ∧ row.run = copy ∧ row.status = copy.status

instance (w : World) (action : Action) : Decidable (CancelHits w action) :=
  inferInstanceAs (Decidable (∀ copy ∈ action.cancelled?, ∀ row ∈ w.rows.get? copy.key,
    row.updatedAt = copy.updatedAt ∧ row.run = copy ∧ row.status = copy.status))

/-- The conditions under which a cancel request is not lost. -/
structure CancelSafe (w : World) (action : Action) : Prop where
  heartbeat : HeartbeatFinds w action
  cancel : CancelHits w action
  save : SaveCarries w action
  operates : action.operates = false

instance (w : World) (action : Action) : Decidable (CancelSafe w action) :=
  decidable_of_iff (HeartbeatFinds w action ∧ CancelHits w action ∧ SaveCarries w action ∧
    action.operates = false)
    ⟨fun all => ⟨all.1, all.2.1, all.2.2.1, all.2.2.2⟩,
      fun all => ⟨all.heartbeat, all.cancel, all.save, all.operates⟩⟩

/-- The run has ended, or a cancel request is recorded on it. -/
def Stopping (row : Row) : Prop :=
  row.run.status.terminal = true ∨ row.run.cancelRequestedAt.isSome = true

/-! ### One write -/

/-- The status of the payload is that of the column. -/
def Agrees (row : Row) : Prop := row.run.status = row.status

variable {row new : Row} {calls : List Call} {events : List Event}

theorem Change.agrees (change : Change action row new calls events)
    (beats : ∀ copy owner token stamp duration reply now, copy.key = row.key →
      action = .resume (.heartbeatWrite copy owner token stamp duration) reply now →
        row.leased owner token → copy.status = .running) (inv : Agrees row) : Agrees new := by
  cases change with
  | claim | save | cancel | resolve | operate => rfl
  | touch | begin | finish => exact inv
  | beat same leased => exact (beats _ _ _ _ _ _ _ same rfl leased).trans leased.1.symm
  | mark same terminal status | override same terminal status => exact status.symm

/-- A run that is to stop goes on being so. -/
theorem Change.stopping (change : Change action row new calls events)
    (found : w.rows.get? row.key = some row) (safe : CancelSafe w action) (agrees : Agrees row)
    (stopping : Stopping row) : Stopping new := by
  -- a row that a worker or a claim writes has not ended, so the request is on it
  have asked : row.status.terminal = false → row.run.cancelRequestedAt.isSome = true := by
    intro live
    obtain terminal | requested := stopping
    · rw [show row.run.status = row.status from agrees, live] at terminal
      cases terminal
    · exact requested
  cases change with
  | claim asks eligible =>
    refine .inr (asked ?_)
    obtain ⟨pending | scheduled, -⟩ | ⟨running, -⟩ := eligible
    · rw [pending]; rfl
    · rw [scheduled]; rfl
    · rw [running]; rfl
  | touch | begin | finish => exact stopping
  | beat same leased =>
    obtain rfl := safe.heartbeat _ rfl row (same ▸ found) leased
    exact stopping
  | @save _ _ _ _ copy run saves running same leased =>
    obtain ⟨at', requested⟩ :=
      Option.isSome_iff_exists.mp (asked (by rw [leased.1]; rfl))
    have carried := safe.save copy saves.saved row (same ▸ found) leased at' requested
    refine .inr ?_
    change run.cancelRequestedAt.isSome = true
    rw [saves.carries.cancel, carried]
    rfl
  | cancel => exact .inr rfl
  | resolve resolves =>
    obtain ⟨approval, result, -, -, -, decided, rfl⟩ := resolvedRun_key_of resolves
    exact .inl (decisionResult_terminal decided)
  | mark same terminal | override same terminal => exact .inl terminal
  | operate => cases safe.operates

/-! ### Returned requests -/

/-- The call is not the second read of a cancel request. -/
def FirstRead (_ : Row) : Call → Prop
  | .cancelRead _ => False
  | _ => True

variable {call : Call}

theorem Change.firstRead {other : Row} (change : Change action row new calls events)
    (member : call ∈ calls) (stored : call.stored? = some row.key) : FirstRead other call := by
  apply change.call_cases member stored
  all_goals (intros; trivial)

/-- An update that finds the row needs no second read. -/
theorem Looks.firstRead (look : Looks w.rows action calls events) (hits : CancelHits w action)
    (member : call ∈ calls) (stored : call.stored? = some row.key)
    (found : w.rows.get? row.key = some row) : FirstRead row call := by
  apply look.call_cases member stored found
  case cancelRead =>
    intro copy same is missed
    exact absurd (hits copy is row (same ▸ found)).1 missed
  all_goals (intros; trivial)

theorem terminal_of_replayed {copy : TaskRun} {resolution : Resolution} {now : Time}
    (replayed : resolveApproval copy resolution now = .ok .replayed) :
    copy.status.terminal = true := by
  unfold resolveApproval at replayed
  split at replayed
  · cases replayed
  · split at replayed
    · next both => exact both.1
    · split at replayed
      · cases replayed
      · split at replayed <;> cases replayed

/-- A request that returns from a look finds the run stopping. -/
theorem Looks.returned (look : Looks w.rows action calls events) (taken : action.stray w = false)
    (reads : ∀ call ∈ w.calls, Held FirstRead w.rows call) (member : .cancelReturned key ∈ events) :
    ∃ row, w.rows.get? key = some row ∧ Stopping row := by
  cases look with
  | nothing | mark | beatRead | finished | invoke | cancel | cancelMissed | resolve | resolveRead
  | operate | override | observe => cases member
  | started | acknowledged => cases List.mem_singleton.mp member
  | cancelSettled found settled =>
    cases event_of_cancelOutcome member
    exact ⟨_, found, settled⟩
  | cancelRead found =>
    obtain ⟨row, there, first⟩ := reads _ (mem_of_resumed taken) _ rfl
    exact first.elim
  | resolveReplayed found replayed =>
    cases event_of_resolvedOutcome member
    exact ⟨_, found, .inl (terminal_of_replayed replayed)⟩

/-- A request that returns from a write leaves the run stopping. -/
theorem Change.returned (change : Change action row new calls events)
    (member : .cancelReturned key ∈ events) : key = row.key ∧ Stopping new := by
  cases change with
  | touch | beat | save | begin | finish | operate | override => cases member
  | claim | mark => cases List.mem_singleton.mp member
  | cancel same =>
    cases event_of_cancelOutcome member
    exact ⟨same, .inr rfl⟩
  | resolve resolves same =>
    obtain ⟨approval, result, -, -, -, decided, rfl⟩ := resolvedRun_key_of resolves
    refine ⟨?_, .inl (decisionResult_terminal decided)⟩
    obtain early | last := List.mem_append.mp member
    · cases event_of_resolvedOutcome early
      exact same
    · cases List.mem_singleton.mp last

/-- The system under the conditions. -/
structure CancelInv (w : World) : Prop where
  agrees : ∀ key row, w.rows.get? key = some row → Agrees row
  reads : ∀ call ∈ w.calls, Held FirstRead w.rows call
  returned : ∀ key, .cancelReturned key ∈ w.log → ∃ row, w.rows.get? key = some row ∧ Stopping row

/-- A stopping run is stopping after the next action. -/
theorem CancelInv.stopping {t : Turn} (inv : CancelInv w) (safe : CancelSafe w action)
    (outcome : Outcome w.rows action t) (found : w.rows.get? key = some row)
    (stopping : Stopping row) : ∃ new, t.rows.get? key = some new ∧ Stopping new := by
  obtain ⟨new, there, rfl | ⟨calls, events, change⟩⟩ := outcome.row_kept found
  · exact ⟨new, there, stopping⟩
  · exact ⟨new, there, change.stopping (Table.get?_key found) safe (inv.agrees _ _ found) stopping⟩

theorem cancel_step (inv : CancelInv w) (safe : CancelSafe w action) :
    CancelInv (step w action) := by
  refine step_rule inv fun t outcome taken => ⟨?_, ?_, ?_⟩
  · apply outcome.rows_all inv.agrees fun _ _ => rfl
    intro row new calls events found change _ agrees
    refine change.agrees (fun copy owner token stamp duration reply now same is leased => ?_) agrees
    obtain rfl := safe.heartbeat (copy, owner, token) (is ▸ rfl) row (same ▸ found) leased
    exact (Eq.trans agrees leased.1 :)
  · apply outcome.calls_all taken inv.reads
    · exact fun row new calls events found change call member stored first => first
    · exact fun row new calls events found change call member stored => change.firstRead member stored
    · exact fun calls look call member row stored found =>
        look.firstRead safe.cancel member stored found
  · intro key member
    obtain new | old := List.mem_append.mp member
    · cases outcome with
      | look look => exact look.returned taken inv.reads new
      | create => cases new
      | @write row next calls events found change =>
        obtain ⟨rfl, stopping⟩ := change.returned new
        exact ⟨next, Table.get?_put_at found change.key, stopping⟩
    · obtain ⟨row, found, stopping⟩ := inv.returned key old
      exact inv.stopping safe outcome found stopping

/-! ### Later claims -/

/-- The run is stopping: executions under a token beyond the limit carry the
request, and none of them has started the provider. -/
structure Stopped (key : Key) (limit : Nat) (earlier : List Nat) (v : World) : Prop where
  row : ∃ row, v.rows.get? key = some row ∧ Stopping row
  executions : ∀ run, .execute run ∈ v.calls → run.key = key → limit < run.lease.token →
    run.cancelRequestedAt.isSome = true
  starts : ∀ token ∈ startTokens key v.log, token ∈ earlier ∨ token ≤ limit

theorem mem_startTokens {log : List Event} {token : Nat} :
    token ∈ startTokens key log ↔ .started key token ∈ log := by
  unfold startTokens
  rw [List.mem_filterMap]
  constructor
  · rintro ⟨event, member, is⟩
    cases event with
    | started k t =>
      unfold Event.startOf at is
      dsimp only at is
      split at is
      · next same => cases is; exact same ▸ member
      · cases is
    | _ => cases is
  · exact fun member => ⟨_, member, if_pos rfl⟩

theorem mem_of_executionTokens {run : TaskRun} (member : .execute run ∈ calls) :
    run.lease.token ∈ executionTokens run.key calls :=
  List.mem_filterMap.mpr ⟨_, member, if_pos rfl⟩

theorem stopped_step {limit : Nat} {earlier : List Nat} (inv : CancelInv w)
    (safe : CancelSafe w action) (stopped : Stopped key limit earlier w) :
    Stopped key limit earlier (step w action) := by
  obtain ⟨row, found, stopping⟩ := stopped.row
  refine step_rule stopped fun t outcome taken => ⟨inv.stopping safe outcome found stopping, ?_, ?_⟩
  · intro run member same beyond
    obtain new | old := List.mem_append.mp member
    · -- only a claim starts an execution, and it takes the request along
      cases outcome with
      | look look =>
        obtain none | ⟨copy, now, -, rfl, -⟩ := look.starts run.key
        · have token := mem_of_executionTokens new
          rw [none.calls] at token
          cases token
        · cases List.mem_singleton.mp new
      | create => cases new
      | @write old next calls events there change =>
        obtain ⟨none, -⟩ | ⟨owner, now, duration, asks, rfl, rfl, -⟩ := change.starts run.key
        · have token := mem_of_executionTokens new
          rw [none.calls] at token
          cases token
        · cases List.mem_singleton.mp new
          have here : old = row := by
            have keys : old.key = key := same
            rw [keys, found] at there
            exact (Option.some.inj there).symm
          subst here
          have kept := change.stopping there safe (inv.agrees _ _ found) stopping
          obtain terminal | requested := kept
          · cases terminal
          · exact requested
    · exact stopped.executions run (mem_of_left old) same beyond
  · intro token member
    obtain new | old := List.mem_append.mp (mem_startTokens.mp member)
    · cases outcome with
      | look look =>
        obtain none | ⟨copy, now, rfl, rfl, rfl⟩ := look.starts key
        · have started := mem_startTokens.mpr new
          rw [none.events] at started
          cases started
        · cases look with
          | started going =>
            cases List.mem_singleton.mp new
            refine .inr (Nat.le_of_not_lt fun beyond => ?_)
            have carried := stopped.executions copy (mem_of_resumed taken) rfl beyond
            rw [going] at carried
            cases carried
      | create => cases new
      | write there change =>
        obtain ⟨none, -⟩ | ⟨owner, now, duration, asks, rfl, rfl, rfl⟩ := change.starts key
        · have started := mem_startTokens.mpr new
          rw [none.events] at started
          cases started
        · cases List.mem_singleton.mp new
    · exact stopped.starts token (mem_startTokens.mpr old)

/-- When every update of a cancel request finds the row as it was read, every
heartbeat that holds its lease and every worker that saves its run has seen what
is stored, and no operator retries the run: once a request has returned, the run
has ended or carries it; a run that has ended or carries a request stays so; and
no claim made from then on starts the provider. -/
theorem agent_task_cancel_kept (reached : Reaches step CancelSafe .empty u)
    (later : Reaches step CancelSafe u v) (key : Key) :
    (.cancelReturned key ∈ u.log → ∃ row, u.rows.get? key = some row ∧ Stopping row) ∧
    ∀ row, u.rows.get? key = some row → Stopping row →
      (∃ new, v.rows.get? key = some new ∧ Stopping new) ∧
      ∀ token ∈ startTokens key v.log, token ∈ startTokens key u.log ∨ token ≤ row.fencingToken := by
  have inv : CancelInv u := by
    refine reached.invariant ?_ fun x inv action safe => cancel_step inv safe
    exact ⟨fun _ _ none => (nomatch none), fun _ none => (nomatch none), fun _ none => (nomatch none)⟩
  have once : StartsOnce u key := by
    refine reached.invariant (P := fun x => StartsOnce x key) ?_
      fun x inv action _ => startsOnce_step inv action
    exact ⟨.nil, fun _ none => (nomatch none)⟩
  refine ⟨inv.returned key, fun row found stopping => ?_⟩
  have start : Stopped key row.fencingToken (startTokens key u.log) u := by
    refine ⟨⟨row, found, stopping⟩, fun run member same beyond => ?_, fun token member => .inl member⟩
    subst same
    obtain ⟨other, there, -, behind⟩ :=
      once.taken _ (List.mem_append_left _ (mem_of_executionTokens member))
    rw [found] at there
    cases there
    omega
  have stopped : CancelInv v ∧ Stopped key row.fencingToken (startTokens key u.log) v := by
    refine later.invariant (P := fun x => CancelInv x ∧
      Stopped key row.fencingToken (startTokens key u.log) x) ⟨inv, start⟩ ?_
    rintro x ⟨inv, stopped⟩ action safe
    exact ⟨cancel_step inv safe, stopped_step inv safe stopped⟩
  exact ⟨stopped.2.row, stopped.2.starts⟩

/-- A cancel request reads the run; the first statement of a heartbeat sets the
time of the last change before its update. -/
def missedCancel : List Action :=
  [.start sampleRequest 0, .claim (1, 7) 1 0 1000, .requestCancel (1, 7) "stop" 5,
    .heartbeat (1, 7) (some 1) 1 10 1000, .resume (.cancelWrite heldRun "stop" 5) .silent 11,
    .resume (.cancelRead (1, 7)) .silent 12]

/-- The request returns, and nothing is recorded. -/
theorem missed_cancel_returns :
    .cancelReturned (1, 7) ∈ (runActions step .empty missedCancel).log ∧
    ((runActions step .empty missedCancel).rows.get? (1, 7)).map
      (fun row => (row.run.status, row.run.cancelRequestedAt)) = some (.running, none) := by
  decide

/-- The request reads and writes before the heartbeat; the worker crashes, and
the next one claims the task. -/
def recordedCancel : List Action :=
  [.start sampleRequest 0, .claim (1, 7) 1 0 1000, .requestCancel (1, 7) "stop" 5,
    .resume (.cancelWrite heldRun "stop" 5) .silent 6, .crash (.execute heldRun)]

theorem agent_task_cancel_kept_recorded :
    .cancelReturned (1, 7) ∈ (runActions step .empty recordedCancel).log ∧
    (∃ row, (runActions step .empty recordedCancel).rows.get? (1, 7) = some row ∧ Stopping row) ∧
    ∃ new, (step (runActions step .empty recordedCancel)
      (.claim (1, 7) 2 2000 10)).rows.get? (1, 7) = some new ∧ Stopping new := by
  have reached : Reaches step CancelSafe .empty (runActions step .empty recordedCancel) :=
    .decided recordedCancel (by decide)
  have next : Reaches step CancelSafe (runActions step .empty recordedCancel)
      (step (runActions step .empty recordedCancel) (.claim (1, 7) 2 2000 10)) :=
    .step .start _ (by decide)
  have kept := agent_task_cancel_kept reached next (1, 7)
  have returned : .cancelReturned (1, 7) ∈ (runActions step .empty recordedCancel).log := by decide
  obtain ⟨row, found, stopping⟩ := kept.1 returned
  exact ⟨returned, ⟨row, found, stopping⟩, (kept.2 row found stopping).1⟩

end DomainryAgent.AgentTask
