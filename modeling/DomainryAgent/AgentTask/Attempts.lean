import DomainryAgent.AgentTask.Ledger

/-!
How often the provider is started for a run.

Each claim starts the provider at most once, and the token counts the claims.  A
failed attempt is scheduled again only while attempts are left.  A running row
whose lease ran out is claimed whatever its attempts, so there the bound is a
condition on the claim.
-/

namespace DomainryAgent.AgentTask

open Lib Table

variable {rows : Rows} {action : Action} {w : World} {key : Key}

/-! ### Starts and claims -/

/-- The token of an execution of the run that has not started the provider. -/
def Call.executionOf (key : Key) : Call → Option Nat
  | .execute run => if run.key = key then some run.lease.token else none
  | _ => none

/-- The token of a start of the provider for the run. -/
def Event.startOf (key : Key) : Event → Option Nat
  | .started k token => if k = key then some token else none
  | _ => none

/-- The tokens of the executions in progress. -/
def executionTokens (key : Key) (calls : List Call) : List Nat :=
  calls.filterMap (Call.executionOf key)

/-- The tokens under which the provider was started. -/
def startTokens (key : Key) (log : List Event) : List Nat := log.filterMap (Event.startOf key)

/-- Each token starts the provider once at most, and was taken by a claim. -/
structure StartsOnce (w : World) (key : Key) : Prop where
  nodup : (executionTokens key w.calls ++ startTokens key w.log).Nodup
  taken : ∀ token ∈ executionTokens key w.calls ++ startTokens key w.log,
    ∃ row, w.rows.get? key = some row ∧ 1 ≤ token ∧ token ≤ row.fencingToken

/-- The tokens of a row never go back. -/
def TokensGrow (rows rows' : Rows) (key : Key) : Prop :=
  ∀ row, rows.get? key = some row →
    ∃ new, rows'.get? key = some new ∧ row.fencingToken ≤ new.fencingToken

theorem StartsOnce.of_perm {w' : World} (inv : StartsOnce w key)
    (grow : TokensGrow w.rows w'.rows key)
    (perm : (executionTokens key w'.calls ++ startTokens key w'.log).Subperm
      (executionTokens key w.calls ++ startTokens key w.log)) : StartsOnce w' key where
  nodup := by
    obtain ⟨part, same, sub⟩ := perm
    exact same.nodup_iff.mp (inv.nodup.sublist sub)
  taken := by
    intro token member
    obtain ⟨row, found, one, le⟩ := inv.taken token (perm.subset member)
    obtain ⟨new, there, grown⟩ := grow row found
    exact ⟨new, there, one, Nat.le_trans le grown⟩

theorem left_sublist (w : World) (action : Action) : (action.left w).Sublist w.calls := by
  cases action with
  | resume _ _ _ | crash _ => exact List.erase_sublist
  | _ => exact List.Sublist.refl _

/-- Neither an execution nor a start of the run. -/
structure Startless (key : Key) (calls : List Call) (events : List Event) : Prop where
  calls : executionTokens key calls = []
  events : startTokens key events = []

theorem executionTokens_append (calls calls' : List Call) : executionTokens key (calls ++ calls') =
    executionTokens key calls ++ executionTokens key calls' := List.filterMap_append

theorem startTokens_append (events log : List Event) : startTokens key (events ++ log) =
    startTokens key events ++ startTokens key log := List.filterMap_append

theorem StartsOnce.quiet {t : Turn} (inv : StartsOnce w key) (grow : TokensGrow w.rows t.rows key)
    (none : Startless key t.calls t.events) :
    StartsOnce ⟨t.rows, t.calls ++ action.left w, t.events ++ w.log⟩ key := by
  apply inv.of_perm grow
  apply List.Sublist.subperm
  simp only [executionTokens_append, startTokens_append, none.calls, none.events, List.nil_append]
  exact ((left_sublist w action).filterMap _).append (List.Sublist.refl _)

variable {events : List Event} {calls : List Call} {row new : Row} {now : Time} {copy : TaskRun}
  {call : Call}

theorem executionTokens_of_none (each : ∀ call ∈ calls, call.executionOf key = none) :
    executionTokens key calls = [] :=
  List.filterMap_eq_nil_iff.mpr each

theorem startless_cancelOutcome (run : TaskRun) :
    Startless key (cancelOutcome run).1 (cancelOutcome run).2 := by
  constructor
  · apply executionTokens_of_none
    intro call member
    have none := stored_of_cancelOutcome member
    cases call with
    | execute => cases none
    | _ => rfl
  · apply List.filterMap_eq_nil_iff.mpr
    intro event member
    rw [event_of_cancelOutcome member]
    rfl

theorem executionTokens_notifies (run : TaskRun) : executionTokens key (notifies run) = [] := by
  apply executionTokens_of_none
  intro call member
  rw [(mem_notifies.mp member).1]
  rfl

theorem executionTokens_awaiting (copy : TaskRun) (proposal : Option Id) :
    executionTokens key (proposal.map (Call.awaitApproval copy)).toList = [] := by
  cases proposal <;> rfl

theorem startless_resolvedOutcome (run : TaskRun) (resolver : Resolver) (key : Key) :
    Startless key (resolvedOutcome run resolver).1 (resolvedOutcome run resolver).2 := by
  cases resolver with
  | proposal => exact ⟨executionTokens_notifies run, rfl⟩
  | cancel | deadline => exact ⟨rfl, rfl⟩

/-- Only a start of the provider among the looks. -/
theorem Looks.starts (look : Looks rows action calls events) (key : Key) :
    Startless key calls events ∨ ∃ copy now, action = .resume (.execute copy) .started now ∧
      calls = [.provider copy] ∧ events = [.started copy.key copy.lease.token] := by
  cases look with
  | started => exact .inr ⟨_, _, rfl, rfl, rfl⟩
  | nothing | acknowledged | mark | beatRead | invoke | cancel | cancelMissed | resolve
  | resolveRead | operate | override => exact .inl ⟨rfl, rfl⟩
  | finished => exact .inl ⟨executionTokens_awaiting _ _, rfl⟩
  | cancelSettled | cancelRead => exact .inl (startless_cancelOutcome _)
  | resolveReplayed => exact .inl (startless_resolvedOutcome _ _ _)
  | observe => exact .inl ⟨executionTokens_notifies _, rfl⟩

/-- Only a claim among the writes. -/
theorem Change.starts (change : Change action row new calls events) (key : Key) :
    Startless key calls events ∧ new.fencingToken = row.fencingToken ∨
    ∃ owner now duration, action.Claims owner now duration ∧
      new = claimedRow row owner now duration ∧ calls = [.execute new.run] ∧
        events = [.claimed row.key owner (row.fencingToken + 1)] := by
  cases change with
  | claim asks => exact .inr ⟨_, _, _, asks, rfl, rfl, rfl⟩
  | touch | beat | begin | mark | operate | override => exact .inl ⟨⟨rfl, rfl⟩, rfl⟩
  | save => exact .inl ⟨⟨executionTokens_notifies _, rfl⟩, rfl⟩
  | finish => exact .inl ⟨⟨executionTokens_awaiting _ _, rfl⟩, rfl⟩
  | cancel => exact .inl ⟨startless_cancelOutcome _, rfl⟩
  | @resolve _ _ run _ _ resolver =>
    obtain ⟨calls, events⟩ := startless_resolvedOutcome run resolver key
    refine .inl ⟨⟨calls, ?_⟩, rfl⟩
    unfold startTokens at events ⊢
    rw [List.filterMap_append, events]
    rfl

theorem tokensGrow_put (found : rows.get? row.key = some row) (same : new.key = row.key)
    (le : row.fencingToken ≤ new.fencingToken) : TokensGrow rows (rows.put new) key := by
  intro old there
  by_cases here : key = new.key
  · subst here
    rw [same, found] at there
    cases there
    exact ⟨new, get?_put_self (same.symm ▸ found), le⟩
  · refine ⟨old, ?_, Nat.le_refl _⟩
    rw [get?_put_of_ne here]
    exact there

/-- A claim adds an execution under a fresh token. -/
theorem StartsOnce.claim {owner : Id} {duration : Nat} (inv : StartsOnce w key)
    (found : w.rows.get? row.key = some row) (events' : startTokens key events = []) :
    StartsOnce ⟨w.rows.put (claimedRow row owner now duration),
      [.execute (claimedRow row owner now duration).run] ++ w.calls, events ++ w.log⟩ key := by
  have log : startTokens key (events ++ w.log) = startTokens key w.log := by
    rw [startTokens_append, events', List.nil_append]
  have grow : TokensGrow w.rows (w.rows.put (claimedRow row owner now duration)) key :=
    tokensGrow_put found rfl (Nat.le_succ _)
  have self : (w.rows.put (claimedRow row owner now duration)).get? row.key =
      some (claimedRow row owner now duration) := get?_put_self found
  by_cases here : row.key = key
  · subst here
    have calls : executionTokens row.key
        ([.execute (claimedRow row owner now duration).run] ++ w.calls) =
          (row.fencingToken + 1) :: executionTokens row.key w.calls :=
      List.filterMap_cons_some (if_pos rfl)
    have behind : ∀ token ∈ executionTokens row.key w.calls ++ startTokens row.key w.log,
        1 ≤ token ∧ token ≤ row.fencingToken := by
      intro token member
      obtain ⟨other, there, one, le⟩ := inv.taken token member
      rw [found] at there
      cases there
      exact ⟨one, le⟩
    constructor
    · dsimp only
      rw [calls, log, List.cons_append]
      refine List.nodup_cons.mpr ⟨fun member => ?_, inv.nodup⟩
      have := (behind _ member).2
      omega
    · dsimp only
      rw [calls, log, List.cons_append]
      intro token member
      refine ⟨_, self, ?_⟩
      change 1 ≤ token ∧ token ≤ row.fencingToken + 1
      obtain rfl | earlier := List.mem_cons.mp member
      · omega
      · have := behind token earlier
        omega
  · apply inv.of_perm grow
    have calls : executionTokens key
        ([.execute (claimedRow row owner now duration).run] ++ w.calls) =
          executionTokens key w.calls := List.filterMap_cons_none (if_neg here)
    dsimp only
    rw [calls, log]

/-- A start takes the execution out of the calls and into the log. -/
theorem StartsOnce.start (inv : StartsOnce w key) (member : Call.execute copy ∈ w.calls) :
    StartsOnce ⟨w.rows, [.provider copy] ++ (Action.resume (.execute copy) .started now).left w,
      [.started copy.key copy.lease.token] ++ w.log⟩ key := by
  have grow : TokensGrow w.rows w.rows key := fun row found => ⟨row, found, Nat.le_refl _⟩
  refine inv.of_perm grow ?_
  apply List.Perm.subperm
  have order := (List.perm_cons_erase member).filterMap (Call.executionOf key)
  refine List.Perm.trans ?_ (order.symm.append_right _)
  simp only [executionTokens, startTokens, Action.left, List.singleton_append, List.filterMap_cons,
    Call.executionOf, Event.startOf]
  by_cases here : copy.key = key
  · simp only [if_pos here]
    exact List.perm_middle
  · simp only [if_neg here]
    exact .refl _

theorem startsOnce_step (inv : StartsOnce w key) (action : Action) :
    StartsOnce (step w action) key := by
  refine step_rule (P := fun u => StartsOnce u key) inv fun t outcome taken => ?_
  cases outcome with
  | look look =>
    obtain none | ⟨copy, now, rfl, rfl, rfl⟩ := look.starts key
    · exact inv.quiet (fun row found => ⟨row, found, Nat.le_refl _⟩) none
    · exact inv.start (mem_of_resumed taken)
  | create asked inserted =>
    refine inv.quiet (fun row found => ?_) ⟨rfl, rfl⟩
    exact ⟨row, get?_insert?_of_some inserted found, Nat.le_refl _⟩
  | @write row new calls events found change =>
    obtain ⟨none, token⟩ | ⟨owner, now, duration, asks, rfl, rfl, rfl⟩ := change.starts key
    · exact inv.quiet (tokensGrow_put found change.key (token ▸ Nat.le_refl _)) none
    · have left : action.left w = w.calls := by cases asks <;> rfl
      rw [left]
      exact inv.claim found rfl

/-- The provider was started at most as often as the run was claimed. -/
theorem StartsOnce.length (inv : StartsOnce w key) (found : w.rows.get? key = some row) :
    (startTokens key w.log).length ≤ row.fencingToken := by
  have inside : executionTokens key w.calls ++ startTokens key w.log ⊆
      List.range' 1 row.fencingToken := by
    intro token member
    obtain ⟨other, there, one, le⟩ := inv.taken token member
    rw [found] at there
    cases there
    exact List.mem_range'_1.mpr ⟨one, by omega⟩
  have fits := (List.subperm_of_subset inv.nodup inside).length_le
  rw [List.length_append, List.length_range'] at fits
  omega

/-! ### Attempts and tokens -/

/-- Waiting for a claim, for the first time or again. -/
def Status.due (status : Status) : Prop := status = .pending ∨ status = .retryScheduled

/-- A claim of a running row finds an attempt left. -/
def ReclaimsLeft (w : World) (action : Action) : Prop :=
  ∀ row ∈ action.takes? w.rows, row.status = .running → row.run.attempt < row.run.maxAttempts

instance (w : World) (action : Action) : Decidable (ReclaimsLeft w action) :=
  inferInstanceAs (Decidable (∀ row ∈ action.takes? w.rows, row.status = .running →
    row.run.attempt < row.run.maxAttempts))

/-- The conditions under which attempts are bounded. -/
structure AttemptSafe (w : World) (action : Action) : Prop where
  reclaim : ReclaimsLeft w action
  cancel : CancelFinds w action
  operates : action.operates = false

instance (w : World) (action : Action) : Decidable (AttemptSafe w action) :=
  decidable_of_iff (ReclaimsLeft w action ∧ CancelFinds w action ∧ action.operates = false)
    ⟨fun all => ⟨all.1, all.2.1, all.2.2⟩, fun all => ⟨all.reclaim, all.cancel, all.operates⟩⟩

/-- The attempts of a run are the tokens of its row, as long as it can be claimed. -/
structure Counted (row : Row) : Prop where
  attempt : row.run.attempt = row.run.lease.token
  current : row.status.due ∨ row.status = .running → row.run.lease.token = row.fencingToken
  left : row.status.due → row.fencingToken < row.run.maxAttempts
  bound : row.fencingToken ≤ row.run.maxAttempts

/-- What a call in progress knows of the attempts of its run. -/
structure CountedCall (row : Row) (call : Call) : Prop where
  attempt : ∀ copy, call.copy? = some copy → copy.attempt = copy.lease.token
  beating : Beating (fun copy token => copy.lease.token = token) row call

theorem newRow_counted (request : Request) (now : Time) : Counted (newRow request now) := by
  have one : 1 ≤ (newRun request now).maxAttempts := by
    change 1 ≤ if request.maxAttempts < 1 then 1 else request.maxAttempts
    split <;> omega
  exact ⟨rfl, fun _ => rfl, fun _ => one, Nat.zero_le _⟩

variable {reply : Reply} {run : TaskRun}

/-- A run is scheduled again only with an attempt left. -/
theorem Saves.due (saves : Saves call reply now copy run) (due : run.status.due) :
    copy.attempt < copy.maxAttempts := by
  cases saves with
  | wait => rcases due with due | due <;> cases due
  | complete completes terminal =>
    rename_i completion
    rcases due with due | due
    · rw [show completion.status = .pending from due] at terminal
      cases terminal
    · rw [show completion.status = .retryScheduled from due] at terminal
      cases terminal
  | @fail _ _ _ _ _ retryable _ fails =>
    have same : (failingRun copy retryable).attempt = copy.attempt ∧
        (failingRun copy retryable).maxAttempts = copy.maxAttempts := by
      unfold failingRun; split <;> exact ⟨rfl, rfl⟩
    unfold failedRun at due
    dsimp only at due
    split at due
    · next retry => exact same.1 ▸ same.2 ▸ retry.2.1
    · rcases due with due | due <;> cases due

theorem not_due_of_terminal {status : Status} (terminal : status.terminal = true) :
    ¬(status.due ∨ status = .running) := by
  rintro ((rfl | rfl) | rfl)
  · cases terminal
  · cases terminal
  · cases terminal

/-- A cancel request ends a run that waits for a claim, and only that. -/
theorem cancelledRun_status (copy : TaskRun) (reason : String) (stamp : Time) :
    (cancelledRun copy reason stamp).status = .cancelled ∨
      (cancelledRun copy reason stamp).status = copy.status ∧ ¬copy.status.due := by
  unfold cancelledRun
  dsimp only
  split
  · exact .inl rfl
  · next live => exact .inr ⟨rfl, live⟩

/-- One write keeps the count. -/
theorem Change.counted (change : Change action row new calls events)
    (found : w.rows.get? row.key = some row)
    (target : ∀ owner now duration, action.Claims owner now duration →
      action.takes? w.rows = some row) (safe : AttemptSafe w action)
    (copied : ∀ call reply now, action = .resume call reply now → Copied row call)
    (known : ∀ call reply now, action = .resume call reply now → CountedCall row call)
    (inv : Counted row) : Counted new := by
  have max : new.run.maxAttempts = row.run.maxAttempts :=
    congrArg Contract.maxAttempts (change.contract copied)
  have running : ∀ {status : Status}, status = .running → ¬status.due := by
    rintro status rfl (due | due) <;> cases due
  cases change with
  | claim asks eligible =>
    have waiting : row.status.due ∨ row.status = .running := eligible.imp And.left And.left
    have token := inv.current waiting
    have left : row.fencingToken < row.run.maxAttempts := by
      obtain due | held := waiting
      · exact inv.left due
      · have attempts := safe.reclaim row (target _ _ _ asks) held
        rw [inv.attempt, token] at attempts
        exact attempts
    refine ⟨?_, fun _ => rfl, fun due => absurd due (running rfl), left⟩
    change row.run.attempt + 1 = row.fencingToken + 1
    rw [inv.attempt, token]
  | touch | begin | finish => exact ⟨inv.attempt, inv.current, inv.left, inv.bound⟩
  | beat same leased =>
    have call := known _ _ _ rfl
    have token := call.beating.2 leased
    have count := call.attempt _ rfl
    exact ⟨count, fun _ => token.trans leased.2.2.symm, fun due => absurd due (running leased.1),
      max ▸ inv.bound⟩
  | @save _ _ _ _ copy run saves held same leased =>
    have count : run.attempt = run.lease.token := by
      rw [saves.carries.lease, saves.carries.attempt]
      exact (known _ _ _ rfl).attempt _ saves.copy.1
    have token : run.lease.token = row.fencingToken := by
      rw [saves.carries.lease]
      exact leased.2.2.symm
    refine ⟨count, fun _ => token, fun due => ?_, max ▸ inv.bound⟩
    have left : copy.attempt < copy.maxAttempts := saves.due due
    have same : run.maxAttempts = copy.maxAttempts := congrArg Contract.maxAttempts saves.carries.contract
    change row.fencingToken < run.maxAttempts
    rw [← token, ← count, saves.carries.attempt, same]
    exact left
  | @cancel _ copy reason stamp _ _ same unmoved =>
    obtain ⟨rfl, status⟩ := safe.cancel copy rfl row (same ▸ found) unmoved
    obtain ended | ⟨kept, live⟩ := cancelledRun_status row.run reason stamp
    · have done : ¬((cancelledRun row.run reason stamp).status.due ∨
          (cancelledRun row.run reason stamp).status = .running) :=
        not_due_of_terminal (by rw [ended]; rfl)
      exact ⟨inv.attempt, fun going => absurd going done, fun due => absurd (.inl due) done,
        max ▸ inv.bound⟩
    · have here : (cancelledRun row.run reason stamp).status = row.status := kept.trans status.symm
      refine ⟨inv.attempt, fun going => inv.current (here ▸ going), fun due => ?_, max ▸ inv.bound⟩
      exact absurd (kept ▸ due) live
  | resolve resolves same waiting revision =>
    obtain ⟨approval, result, -, -, -, decided, rfl⟩ := resolvedRun_key_of resolves
    have done := not_due_of_terminal (decisionResult_terminal decided)
    have count := (known _ _ _ rfl).attempt _ rfl
    exact ⟨count, fun going => absurd going done, fun due => absurd (.inl due) done, max ▸ inv.bound⟩
  | mark same terminal status revision | override same terminal status revision =>
    have done := not_due_of_terminal (status ▸ terminal)
    have count := (known _ _ _ rfl).attempt _ rfl
    exact ⟨count, fun going => absurd going done, fun due => absurd (.inl due) done, max ▸ inv.bound⟩
  | operate => cases safe.operates

/-- The system under the conditions. -/
structure AttemptInv (w : World) : Prop where
  contracts : Contracts w
  rows : ∀ key row, w.rows.get? key = some row → Counted row
  calls : ∀ call ∈ w.calls, Held CountedCall w.rows call

/-- The calls a write starts hold counted copies. -/
theorem Change.countedCall (change : Change action row new calls events) (inv : Counted row)
    (known : ∀ call reply now, action = .resume call reply now → CountedCall row call)
    (member : call ∈ calls) (stored : call.stored? = some row.key) : CountedCall new call := by
  refine ⟨fun copy holds => ?_, change.beating member stored⟩
  obtain ⟨owner, now, duration, eligible, rfl⟩ | ⟨earlier, reply, now, source, is, its, carries⟩ :=
    change.copy_cases member stored holds
  · change row.run.attempt + 1 = row.fencingToken + 1
    rw [inv.attempt, inv.current (eligible.imp And.left And.left)]
  · rw [carries.attempt, carries.lease]
    exact (known earlier reply now is).attempt source its

/-- The calls a look starts hold counted copies. -/
theorem Looks.countedCall (look : Looks w.rows action calls events) (taken : action.stray w = false)
    (inv : AttemptInv w) (member : call ∈ calls) (stored : call.stored? = some row.key)
    (found : w.rows.get? row.key = some row) : CountedCall row call := by
  have beats : ∀ call ∈ w.calls,
      Held (Beating fun copy token => copy.lease.token = token) w.rows call := by
    intro call member key stored
    obtain ⟨row, found, known⟩ := inv.calls call member key stored
    exact ⟨row, found, known.beating⟩
  refine ⟨fun copy holds => ?_, look.beating taken beats member stored found ?_⟩
  · -- the copies are of the row itself, or of an earlier call
    obtain none | ⟨other, there, -, same⟩ | ⟨earlier, reply, now, rfl, at', same⟩ :=
      look.origin member
    · rw [none] at stored
      cases stored
    · rw [same] at holds
      cases holds
      exact (inv.rows _ _ there).attempt
    · obtain ⟨other, -, fits⟩ := inv.calls earlier (mem_of_resumed taken) row.key (at'.trans stored)
      obtain none | same := same
      · rw [none] at holds
        cases holds
      · exact fits.attempt copy (same ▸ holds)
  · intro owner token leased
    exact ((inv.rows _ _ found).current (.inr leased.1)).trans leased.2.2

theorem attempt_step (inv : AttemptInv w) (safe : AttemptSafe w action) :
    AttemptInv (step w action) := by
  refine ⟨contracts_step inv.contracts action, ?_, ?_⟩
  · refine step_rule (P := fun u => ∀ key row, u.rows.get? key = some row → Counted row) inv.rows
      fun t outcome taken => ?_
    apply outcome.rows_all inv.rows newRow_counted
    intro row new calls events found change target counted
    exact change.counted found target safe
      (fun _ _ _ is => held_of_change inv.contracts taken found change is)
      (fun _ _ _ is => held_of_change inv.calls taken found change is) counted
  · refine step_rule (P := fun u => ∀ call ∈ u.calls, Held CountedCall u.rows call) inv.calls
      fun t outcome taken => ?_
    apply outcome.calls_all taken inv.calls
    · intro row new calls events found change call member stored known
      exact ⟨known.attempt, known.beating.step change found safe.cancel⟩
    · intro row new calls events found change call member stored
      exact change.countedCall (inv.rows _ _ found)
        (fun _ _ _ is => held_of_change inv.calls taken found change is) member stored
    · intro calls look call member row stored found
      exact look.countedCall taken inv member stored found

/-- When a claim takes a running row only with an attempt left and a cancel
request that goes through finds the run it has read, and no operator retries the
run: the provider is started at most as often as the run has attempts. -/
theorem agent_task_attempts_bounded (reached : Reaches step AttemptSafe .empty w) {row : Row}
    (found : w.rows.get? key = some row) :
    (startTokens key w.log).length ≤ row.run.maxAttempts := by
  have inv : AttemptInv w := by
    refine reached.invariant ?_ fun u inv action safe => attempt_step inv safe
    exact ⟨contracts_empty, fun _ _ none => (nomatch none), fun _ none => (nomatch none)⟩
  have once : StartsOnce w key := by
    refine reached.invariant (P := fun u => StartsOnce u key) ?_
      fun u inv action _ => startsOnce_step inv action
    exact ⟨.nil, fun _ none => (nomatch none)⟩
  exact Nat.le_trans (once.length found) (inv.rows key row found).bound

/-- Three workers claim the task one after the other; each starts the provider
and crashes, and its lease runs out.  The task has two attempts. -/
def crashedWorkers : List Action :=
  let row := newRow sampleRequest 0
  let first := claimedRow row 1 0 10
  let second := claimedRow first 2 20 10
  let third := claimedRow second 3 40 10
  [.start sampleRequest 0,
    .claim (1, 7) 1 0 10, .resume (.execute first.run) .started 1, .crash (.provider first.run),
    .claim (1, 7) 2 20 10, .resume (.execute second.run) .started 21, .crash (.provider second.run),
    .claim (1, 7) 3 40 10, .resume (.execute third.run) .started 41]

/-- The provider is started a third time. -/
theorem expired_leases_exceed_attempts :
    ((runActions step .empty crashedWorkers).rows.get? (1, 7)).map (·.run.maxAttempts) = some 2 ∧
      (startTokens (1, 7) (runActions step .empty crashedWorkers).log).length = 3 := by
  decide

/-- A worker crashes, the next one fails for good. -/
def failedTwice : List Action :=
  let row := newRow sampleRequest 0
  let first := claimedRow row 1 0 10
  let second := claimedRow first 2 20 10
  [.start sampleRequest 0,
    .claim (1, 7) 1 0 10, .resume (.execute first.run) .started 1, .crash (.provider first.run),
    .claim (1, 7) 2 20 10, .resume (.execute second.run) .started 21,
    .resume (.provider second.run) (.failed "provider" true 22) 23, .claim (1, 7) 3 40 10]

theorem agent_task_attempts_bounded_failed :
    startTokens (1, 7) (runActions step .empty failedTwice).log = [2, 1] ∧
    ∃ row, (runActions step .empty failedTwice).rows.get? (1, 7) = some row ∧
      row.status = .deadLetter ∧
      (startTokens (1, 7) (runActions step .empty failedTwice).log).length ≤
        row.run.maxAttempts := by
  have reached : Reaches step AttemptSafe .empty (runActions step .empty failedTwice) :=
    .decided failedTwice (by decide)
  have known : ((runActions step .empty failedTwice).rows.get? (1, 7)).map (·.status) =
    some .deadLetter := by decide
  obtain ⟨row, found, status⟩ := Option.map_eq_some_iff.mp known
  exact ⟨by decide, row, found, status, agent_task_attempts_bounded reached found⟩

end DomainryAgent.AgentTask
