import DomainryAgent.AgentTask.Fencing

/-!
The tool ledger of an agent task under concurrent statements.

A heartbeat writes back a whole payload it has read in a statement of its own, a
cancel request tests only the time of the last change, and `SaveRunning` takes
over the stored ledger but not a stored cancel request.  When these three find
what they read, no entry, count, charge or request is lost, and the budgets
hold.
-/

namespace DomainryAgent.AgentTask

open Lib

variable {action : Action} {w u v : World} {key : Key}

/-! ### What a ledger keeps -/

/-- An entry of the ledger later on: the same call, and unchanged once it has
ended. -/
def Invocation.Continues (item later : Invocation) : Prop :=
  later.ref = item.ref ∧ later.tool = item.tool ∧ later.inputHash = item.inputHash ∧
    later.costUnits = item.costUnits ∧ later.startedAt = item.startedAt ∧
      (item.finishedAt ≠ none → later = item)

/-- What the calls of a run were charged. -/
def totalCost (run : TaskRun) : Nat := (run.invocations.map (·.costUnits)).sum

/-- Nothing the first run records is lost or reverted in the second. -/
structure LedgerKept (old new : TaskRun) : Prop where
  count : old.toolCallCount ≤ new.toolCallCount
  entries : ∀ (i : Nat) (item : Invocation), old.invocations[i]? = some item →
    ∃ later, new.invocations[i]? = some later ∧ item.Continues later
  cancel : ∀ at', old.cancelRequestedAt = some at' → new.cancelRequestedAt = some at'

theorem Invocation.Continues.refl (item : Invocation) : item.Continues item :=
  ⟨rfl, rfl, rfl, rfl, rfl, fun _ => rfl⟩

theorem Invocation.Continues.trans {first second third : Invocation}
    (early : first.Continues second) (late : second.Continues third) : first.Continues third := by
  obtain ⟨ref, tool, input, cost, start, done⟩ := early
  obtain ⟨ref', tool', input', cost', start', done'⟩ := late
  refine ⟨ref'.trans ref, tool'.trans tool, input'.trans input, cost'.trans cost,
    start'.trans start, fun ended => ?_⟩
  have same := done ended
  exact (done' (same ▸ ended)).trans same

variable {old run copy : TaskRun} {call : Call} {row new : Row} {calls : List Call}
  {events : List Event}

/-- The same ledger and the same request. -/
theorem LedgerKept.of_eq {new : TaskRun} (count : new.toolCallCount = old.toolCallCount)
    (entries : new.invocations = old.invocations)
    (cancel : ∀ at', old.cancelRequestedAt = some at' → new.cancelRequestedAt = some at') :
    LedgerKept old new :=
  ⟨count ▸ Nat.le_refl _, fun _ item there => ⟨item, entries ▸ there, .refl item⟩, cancel⟩

theorem LedgerKept.refl (run : TaskRun) : LedgerKept run run := .of_eq rfl rfl fun _ => id

theorem LedgerKept.trans {first second third : TaskRun} (early : LedgerKept first second)
    (late : LedgerKept second third) : LedgerKept first third where
  count := Nat.le_trans early.count late.count
  entries i item there := by
    obtain ⟨middle, there', continues⟩ := early.entries i item there
    obtain ⟨last, there'', continues'⟩ := late.entries i middle there'
    exact ⟨last, there'', continues.trans continues'⟩
  cancel at' asked := late.cancel at' (early.cancel at' asked)

/-- A ledger that keeps its entries keeps their charges. -/
theorem LedgerKept.cost {new : TaskRun} (kept : LedgerKept old new) :
    totalCost old ≤ totalCost new := by
  have charges : old.invocations.map (·.costUnits) <+: new.invocations.map (·.costUnits) := by
    apply List.prefix_iff_getElem?.mpr
    intro i inside
    rw [List.length_map] at inside
    obtain ⟨later, there, continues⟩ :=
      kept.entries i old.invocations[i] (List.getElem?_eq_getElem inside)
    simp only [List.getElem?_map, there, Option.map_some, List.getElem_map, Option.some.injEq]
    exact continues.2.2.2.1
  obtain ⟨rest, all⟩ := charges
  unfold totalCost
  rw [← all, List.sum_append]
  exact Nat.le_add_right _ _

/-! ### Ending a call -/

theorem finishInvocations_entries (finish : ToolCallFinish) (items : List Invocation)
    {found : Invocation} (named : items.find? (·.ref = finish.ref) = some found)
    (unfinished : found.finishedAt = none) :
    ∀ (i : Nat) (item : Invocation), items[i]? = some item →
      ∃ later, (finishInvocations finish items)[i]? = some later ∧ item.Continues later := by
  induction items with
  | nil => intro i item there; simp at there
  | cons first rest ih =>
    intro i item there
    unfold finishInvocations
    by_cases here : first.ref = finish.ref
    · rw [List.find?_cons_of_pos (by simpa using here)] at named
      cases named
      rw [if_pos here]
      cases i with
      | zero =>
        simp only [List.getElem?_cons_zero, Option.some.injEq] at there
        subst there
        refine ⟨_, rfl, rfl, rfl, rfl, rfl, rfl, fun ended => absurd unfinished ended⟩
      | succ i => exact ⟨item, there, .refl item⟩
    · rw [List.find?_cons_of_neg (by simpa using here)] at named
      rw [if_neg here]
      cases i with
      | zero => exact ⟨item, there, .refl item⟩
      | succ i => exact ih named i item there

theorem finishInvocations_cost (finish : ToolCallFinish) (items : List Invocation) :
    (finishInvocations finish items).map (·.costUnits) = items.map (·.costUnits) := by
  induction items with
  | nil => rfl
  | cons first rest ih =>
    unfold finishInvocations
    split
    · rfl
    · simp [ih]

/-! ### Budgets -/

variable {total : Nat} {start : ToolCallStart} {stamp : Time}

theorem addCost_eq_some {used charge : Nat} (added : addCost used charge = some total) :
    total = used + charge := by
  unfold addCost at added
  split at added
  · cases added
  · exact (Option.some.inj added).symm

/-- What was charged is the sum of the entries, as long as it fits an `int`. -/
theorem chargedCost_eq_some {items : List Invocation} (charged : chargedCost items = some total) :
    total = (items.map (·.costUnits)).sum := by
  have fold : ∀ (items : List Invocation) (start : Option Nat) (total : Nat),
      items.foldl (fun used item => used.bind (addCost · item.costUnits)) start = some total →
        ∃ used, start = some used ∧ total = used + (items.map (·.costUnits)).sum := by
    intro items
    induction items with
    | nil => exact fun start total there => ⟨total, there, by simp⟩
    | cons item rest ih =>
      intro start total there
      obtain ⟨used, at', sum⟩ := ih _ _ there
      cases start with
      | none => cases at'
      | some before =>
        have next := addCost_eq_some at'
        refine ⟨before, rfl, ?_⟩
        simp only [List.map_cons, List.sum_cons]
        omega
  obtain ⟨used, zero, sum⟩ := fold items (some 0) total charged
  cases zero
  omega

/-- A call that is let through fits both budgets. -/
theorem reserveCall_eq_ok {calls : Nat} (reserved : reserveCall run start = .ok calls) :
    calls = run.toolCallCount + 1 ∧ run.toolCallCount + 1 ≤ start.maxToolCalls ∧
      totalCost run + start.costUnits ≤ start.maxCostUnits := by
  unfold reserveCall at reserved
  cases charged : chargedCost run.invocations with
  | none => simp [charged] at reserved
  | some used =>
    have sum : used = totalCost run := chargedCost_eq_some charged
    simp only [charged] at reserved
    split at reserved
    · cases reserved
    · unfold reserve at reserved
      dsimp only at reserved
      by_cases noCalls : start.maxToolCalls < 1 ∨ 1 < 1 ∨ start.maxToolCalls < run.toolCallCount ∨
          start.maxToolCalls - run.toolCallCount < 1
      · rw [if_pos noCalls] at reserved
        cases reserved
      · rw [if_neg noCalls] at reserved
        by_cases noCost : start.maxCostUnits < used ∨ start.maxCostUnits - used < start.costUnits
        · rw [if_pos noCost] at reserved
          cases reserved
        · rw [if_neg noCost] at reserved
          simp only [Except.ok.injEq] at reserved
          refine ⟨reserved.symm, by omega, by omega⟩

/-- The budgets of a run are set and kept, and its count is that of its ledger. -/
structure WithinBudget (run : TaskRun) : Prop where
  callsSet : 0 < run.maxToolCalls
  costSet : 0 < run.maxCostUnits
  counted : run.toolCallCount = run.invocations.length
  calls : run.toolCallCount ≤ run.maxToolCalls
  cost : totalCost run ≤ run.maxCostUnits

/-- The budget looks at the ledger and the contract only. -/
theorem WithinBudget.of_eq {new : TaskRun} (inv : WithinBudget old)
    (contract : new.contract = old.contract) (count : new.toolCallCount = old.toolCallCount)
    (charges : new.invocations.map (·.costUnits) = old.invocations.map (·.costUnits)) :
    WithinBudget new := by
  have entries : new.invocations.length = old.invocations.length := by
    simpa using congrArg List.length charges
  have cost : totalCost new = totalCost old := congrArg List.sum charges
  have maxCalls : new.maxToolCalls = old.maxToolCalls := congrArg Contract.maxToolCalls contract
  have maxCost : new.maxCostUnits = old.maxCostUnits := congrArg Contract.maxCostUnits contract
  constructor
  · rw [maxCalls]; exact inv.callsSet
  · rw [maxCost]; exact inv.costSet
  · rw [count, entries]; exact inv.counted
  · rw [count, maxCalls]; exact inv.calls
  · rw [cost, maxCost]; exact inv.cost

theorem newRun_withinBudget (request : Request) (now : Time) : WithinBudget (newRun request now) := by
  constructor
  · change 0 < agentTaskMaxToolCalls request.maxToolCalls
    unfold agentTaskMaxToolCalls
    split <;> omega
  · change 0 < agentTaskCostBudgetUnits request.costBudget
    unfold agentTaskCostBudgetUnits
    split <;> omega
  · rfl
  · exact Nat.zero_le _
  · exact Nat.zero_le _

/-! ### Revisions -/

/-- A statement that tests the revision holds the run it was read with. -/
def Tracked (row : Row) : Call → Prop
  | .markWrite copy _ | .overrideWrite copy _ _ | .resolveWrite copy _ _ _
  | .operateWrite copy _ _ =>
    copy.revision ≤ row.run.revision ∧ (copy.revision = row.run.revision → copy = row.run)
  | _ => True

/-- The conditions under which the ledger is kept: the three statements that
write from a copy find what it was made from, and no operator retries the run. -/
structure LedgerSafe (w : World) (action : Action) : Prop where
  heartbeat : HeartbeatFinds w action
  cancel : CancelFinds w action
  save : SaveCarries w action
  operates : action.operates = false

instance (w : World) (action : Action) : Decidable (LedgerSafe w action) :=
  decidable_of_iff (HeartbeatFinds w action ∧ CancelFinds w action ∧ SaveCarries w action ∧
    action.operates = false)
    ⟨fun all => ⟨all.1, all.2.1, all.2.2.1, all.2.2.2⟩,
      fun all => ⟨all.heartbeat, all.cancel, all.save, all.operates⟩⟩

/-- The payload stays, or its revision grows. -/
def Advances (old new : TaskRun) : Prop := new = old ∨ old.revision < new.revision

/-- What a write leaves of the ledger, the contract and the revision. -/
structure LedgerStep (old new : TaskRun) : Prop where
  kept : LedgerKept old new
  budget : WithinBudget old → WithinBudget new
  advances : Advances old new

theorem begunRun_step {calls : Nat} (reserved : reserveCall run start = .ok calls)
    (limits : WithinBudget run →
      start.maxToolCalls = run.maxToolCalls ∧ start.maxCostUnits = run.maxCostUnits) :
    LedgerStep run (begunRun run start calls) := by
  obtain ⟨rfl, callsFit, costFits⟩ := reserveCall_eq_ok reserved
  constructor
  · refine ⟨Nat.le_succ _, fun i item there => ⟨item, ?_, .refl item⟩, fun _ => id⟩
    change (run.invocations ++ _)[i]? = some item
    rw [List.getElem?_append_left (List.getElem?_eq_some_iff.mp there).1]
    exact there
  · intro inv
    have cost : totalCost (begunRun run start (run.toolCallCount + 1)) =
        totalCost run + start.costUnits := by
      simp [totalCost, begunRun]
    constructor
    · exact inv.callsSet
    · exact inv.costSet
    · simp [begunRun, inv.counted]
    · exact (limits inv).1 ▸ callsFit
    · rw [cost]
      exact (limits inv).2 ▸ costFits
  · exact .inr (Nat.lt_succ_self _)

/-- What a cancel request will write was not requested before. -/
def Fresh : Call → Prop
  | .cancelWrite copy _ _ => copy.cancelRequestedAt = none ∧ copy.status.terminal = false
  | _ => True

/-- What a call in progress knows of the row of its run, besides the contract. -/
structure Informed (row : Row) (call : Call) : Prop where
  tracked : Tracked row call
  fresh : Fresh call

/-- One write, by a call that knows its row. -/
theorem Change.ledger (change : Change action row new calls events)
    (found : w.rows.get? row.key = some row) (safe : LedgerSafe w action)
    (copied : ∀ call reply now, action = .resume call reply now → Copied row call)
    (known : ∀ call reply now, action = .resume call reply now → Informed row call) :
    LedgerStep row.run new.run := by
  have plain : ∀ {run : TaskRun}, run.contract = row.run.contract →
      run.toolCallCount = row.run.toolCallCount → run.invocations = row.run.invocations →
      run.cancelRequestedAt = row.run.cancelRequestedAt → row.run.revision < run.revision →
        LedgerStep row.run run := by
    intro run contract count entries cancel revision
    refine ⟨.of_eq count entries fun at' asked => cancel.trans asked, fun inv => ?_, .inr revision⟩
    exact inv.of_eq contract count (congrArg _ entries)
  cases change with
  | claim asks eligible => exact plain rfl rfl rfl rfl (Nat.lt_succ_self _)
  | touch => exact ⟨.refl _, id, .inl rfl⟩
  | beat same leased =>
    obtain rfl := safe.heartbeat _ rfl row (same ▸ found) leased
    exact plain rfl rfl rfl rfl (Nat.lt_succ_self _)
  | save saves running same leased =>
    have contract := saves.carries.contract.trans (copied _ _ _ rfl _ saves.copy.1)
    refine ⟨.of_eq rfl rfl fun at' asked => ?_, fun inv => inv.of_eq contract rfl rfl, .inr ?_⟩
    · exact saves.carries.cancel.trans (safe.save _ saves.saved row (same ▸ found) leased at' asked)
    · unfold savedRow savedRun
      dsimp only
      split <;> omega
  | begin same leased reserved =>
    refine begunRun_step reserved fun inv => ?_
    have contract := copied _ _ _ rfl _ rfl
    have calls := congrArg Contract.maxToolCalls contract
    have cost := congrArg Contract.maxCostUnits contract
    constructor
    · exact (if_pos (lt_of_lt_of_eq inv.callsSet calls.symm)).trans calls
    · exact (if_pos (lt_of_lt_of_eq inv.costSet cost.symm)).trans cost
  | finish same leased named unfinished =>
    refine ⟨⟨Nat.le_refl _, ?_, fun _ => id⟩, fun inv => ?_, .inr (Nat.lt_succ_self _)⟩
    · exact finishInvocations_entries _ _ named unfinished
    · exact inv.of_eq rfl rfl (finishInvocations_cost _ _)
  | cancel same unmoved =>
    obtain ⟨rfl, -⟩ := safe.cancel _ rfl row (same ▸ found) unmoved
    have fresh := (known _ _ _ rfl).fresh.1
    refine ⟨.of_eq rfl rfl fun at' asked => ?_, fun inv => inv.of_eq rfl rfl rfl,
      .inr (Nat.lt_succ_self _)⟩
    exact nomatch fresh.symm.trans asked
  | resolve resolves same waiting revision =>
    obtain rfl := (known _ _ _ rfl).tracked.2 revision.symm
    obtain ⟨approval, result, -, -, -, -, is⟩ := resolvedRun_key_of resolves
    rw [is]
    exact plain rfl rfl rfl rfl (Nat.lt_succ_self _)
  | mark same terminal status revision | override same terminal status revision =>
    obtain rfl := (known _ _ _ rfl).tracked.2 revision.symm
    exact plain rfl rfl rfl rfl (Nat.lt_succ_self _)
  | operate => cases safe.operates

/-- The payload of a row changed, or its revision grew. -/
theorem Tracked.step (tracked : Tracked row call) (advances : Advances row.run new.run) :
    Tracked new call := by
  have each : ∀ copy : TaskRun, copy.revision ≤ row.run.revision ∧
      (copy.revision = row.run.revision → copy = row.run) →
        copy.revision ≤ new.run.revision ∧ (copy.revision = new.run.revision → copy = new.run) := by
    rintro copy ⟨behind, same⟩
    obtain kept | grown := advances
    · rw [kept]
      exact ⟨behind, same⟩
    · exact ⟨by omega, fun now => by omega⟩
  cases call with
  | markWrite copy _ | overrideWrite copy _ _ | resolveWrite copy _ _ _ | operateWrite copy _ _ =>
    exact each copy tracked
  | _ => trivial

/-- The calls a write starts test no revision and request no cancellation. -/
theorem Change.informed {other : Row} (change : Change action row new calls events)
    (member : call ∈ calls) (stored : call.stored? = some row.key) : Informed other call := by
  apply change.call_cases member stored
  all_goals (intros; exact ⟨trivial, trivial⟩)

/-- The calls a look starts are informed: a copy that was just read is the run. -/
theorem Looks.informed (look : Looks w.rows action calls events) (member : call ∈ calls)
    (stored : call.stored? = some row.key) (found : w.rows.get? row.key = some row) :
    Informed row call := by
  have self : row.run.revision ≤ row.run.revision ∧
      (row.run.revision = row.run.revision → row.run = row.run) := ⟨Nat.le_refl _, fun _ => rfl⟩
  apply look.call_cases member stored found
  case markWrite => exact fun _ _ _ => ⟨self, trivial⟩
  case resolveWrite => exact fun _ _ _ => ⟨self, trivial⟩
  case operateWrite => exact fun _ _ => ⟨self, trivial⟩
  case overrideWrite => exact fun _ _ => ⟨self, trivial⟩
  case cancelWrite => exact fun _ _ live fresh => ⟨trivial, fresh, live⟩
  all_goals (intros; exact ⟨trivial, trivial⟩)

/-- The system under the conditions. -/
structure LedgerInv (w : World) : Prop where
  contracts : Contracts w
  calls : ∀ call ∈ w.calls, Held Informed w.rows call
  budgets : ∀ key row, w.rows.get? key = some row → WithinBudget row.run

theorem LedgerInv.change (inv : LedgerInv w) (safe : LedgerSafe w action)
    (taken : action.stray w = false) (found : w.rows.get? row.key = some row)
    (change : Change action row new calls events) : LedgerStep row.run new.run :=
  change.ledger found safe (fun _ _ _ is => held_of_change inv.contracts taken found change is)
    (fun _ _ _ is => held_of_change inv.calls taken found change is)

theorem ledger_step (inv : LedgerInv w) (safe : LedgerSafe w action) :
    LedgerInv (step w action) := by
  refine ⟨contracts_step inv.contracts action, ?_, ?_⟩
  · refine step_rule (P := fun u => ∀ call ∈ u.calls, Held Informed u.rows call) inv.calls
      fun t outcome taken => ?_
    apply outcome.calls_all taken inv.calls
    · intro row new calls events found change call member stored informed
      have advances := (inv.change safe taken found change).advances
      exact ⟨informed.tracked.step advances, informed.fresh⟩
    · intro row new calls events found change call member stored
      exact change.informed member stored
    · intro calls look call member row stored found
      exact look.informed member stored found
  · refine step_rule (P := fun u => ∀ key row, u.rows.get? key = some row → WithinBudget row.run)
      inv.budgets fun t outcome taken => ?_
    apply outcome.rows_all (P := fun row => WithinBudget row.run) inv.budgets
    · exact fun request now => newRun_withinBudget request now
    · intro row new calls events found change target within
      exact (inv.change safe taken found change).budget within

theorem ledger_reached (reached : Reaches step LedgerSafe .empty w) : LedgerInv w := by
  refine reached.invariant ?_ fun u inv action safe => ledger_step inv safe
  exact ⟨contracts_empty, fun _ none => (nomatch none), fun _ _ none => (nomatch none)⟩

/-! ### Nothing is lost -/

/-- When every heartbeat that holds its lease, every cancel request that goes
through and every worker that saves its run finds what it has read, and no
operator retries the run: what a run records of tool calls, charges and a cancel
request stays recorded in every later state, and the calls and their cost stay
within the budgets of the run. -/
theorem agent_task_ledger_kept (reached : Reaches step LedgerSafe .empty u)
    (later : Reaches step LedgerSafe u v) {row : Row} (found : u.rows.get? key = some row) :
    ∃ new, v.rows.get? key = some new ∧ LedgerKept row.run new.run ∧
      totalCost row.run ≤ totalCost new.run ∧
      new.run.toolCallCount = new.run.invocations.length ∧
      new.run.toolCallCount ≤ new.run.maxToolCalls ∧ totalCost new.run ≤ new.run.maxCostUnits := by
  have kept : LedgerInv v ∧ ∃ new, v.rows.get? key = some new ∧ LedgerKept row.run new.run := by
    refine later.invariant (P := fun x => LedgerInv x ∧ ∃ new, x.rows.get? key = some new ∧
      LedgerKept row.run new.run) ⟨ledger_reached reached, row, found, .refl _⟩ ?_
    rintro x ⟨inv, new, there, kept⟩ action safe
    refine ⟨ledger_step inv safe, ?_⟩
    refine step_rule (P := fun y => ∃ new, y.rows.get? key = some new ∧ LedgerKept row.run new.run)
      ⟨new, there, kept⟩ fun t outcome taken => ?_
    obtain ⟨next, there', rfl | ⟨calls, events, change⟩⟩ := outcome.row_kept there
    · exact ⟨next, there', kept⟩
    · have stored : x.rows.get? new.key = some new := Table.get?_key there
      exact ⟨next, there', kept.trans (inv.change safe taken stored change).kept⟩
  obtain ⟨inv, new, there, kept⟩ := kept
  have within := inv.budgets key new there
  exact ⟨new, there, kept, kept.cost, within.counted, within.calls, within.cost⟩

/-- The run worker 1 holds after the first claim. -/
def heldRun : TaskRun := (claimedRow (newRow sampleRequest 0) 1 0 1000).run

/-- A heartbeat reads the payload; a tool call is recorded before it writes. -/
def overtakenHeartbeat : List Action :=
  [.start sampleRequest 0, .claim (1, 7) 1 0 1000, .heartbeat (1, 7) (some 1) 1 10 1000,
    .invoke (1, 7) .queryRecords 0 0, .resume (.heartbeatRead (1, 7) (some 1) 1 10 1000) .silent 10,
    .resume (.beginTool heldRun .queryRecords 0 0) .silent 11]

/-- The payload write of that heartbeat takes the recorded call back: its count,
its entry and its charge are gone. -/
theorem heartbeat_loses_tool_call :
    ((runActions step .empty overtakenHeartbeat).rows.get? (1, 7)).map
      (fun row => (row.run.toolCallCount, row.run.invocations.length, totalCost row.run)) =
        some (1, 1, 2) ∧
    ((step (runActions step .empty overtakenHeartbeat)
      (.resume (.heartbeatWrite heldRun (some 1) 1 10 1000) .silent 12)).rows.get? (1, 7)).map
      (fun row => (row.run.toolCallCount, row.run.invocations.length, totalCost row.run)) =
        some (0, 0, 0) := by
  decide

/-- The same heartbeat, with its three statements before the tool call, and then
a cancel request. -/
def undisturbedHeartbeat : List Action :=
  [.start sampleRequest 0, .claim (1, 7) 1 0 1000, .heartbeat (1, 7) (some 1) 1 10 1000,
    .resume (.heartbeatRead (1, 7) (some 1) 1 10 1000) .silent 10,
    .resume (.heartbeatWrite heldRun (some 1) 1 10 1000) .silent 10,
    .invoke (1, 7) .queryRecords 0 0,
    .resume (.beginTool (beatRun heldRun 10 1010) .queryRecords 0 0) .silent 11]

theorem agent_task_ledger_kept_undisturbed :
    ∃ row new, (runActions step .empty undisturbedHeartbeat).rows.get? (1, 7) = some row ∧
      row.run.toolCallCount = 1 ∧
      (step (runActions step .empty undisturbedHeartbeat)
        (.requestCancel (1, 7) "stop" 12)).rows.get? (1, 7) = some new ∧
      LedgerKept row.run new.run ∧ new.run.toolCallCount ≤ new.run.maxToolCalls := by
  have reached : Reaches step LedgerSafe .empty (runActions step .empty undisturbedHeartbeat) :=
    .decided undisturbedHeartbeat (by decide)
  have next : Reaches step LedgerSafe (runActions step .empty undisturbedHeartbeat)
      (step (runActions step .empty undisturbedHeartbeat) (.requestCancel (1, 7) "stop" 12)) :=
    .step .start _ (by decide)
  have known : ((runActions step .empty undisturbedHeartbeat).rows.get? (1, 7)).map
    (·.run.toolCallCount) = some 1 := by decide
  obtain ⟨row, found, count⟩ := Option.map_eq_some_iff.mp known
  obtain ⟨new, there, kept, -, -, calls, -⟩ := agent_task_ledger_kept reached next found
  exact ⟨row, new, found, count, there, kept, calls⟩

end DomainryAgent.AgentTask
