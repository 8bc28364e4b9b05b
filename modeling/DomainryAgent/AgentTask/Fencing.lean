import DomainryAgent.AgentTask.Invariants

/-!
Fencing of agent tasks.

A claim takes the next token of a row, and the pair of owner and token in the
columns guards every write of a worker.  An approval is resolved under the status
and the revision instead: that it has one decision comes from the order of
statuses within one token, which only a cancel request could turn back.
-/

namespace DomainryAgent.AgentTask

open Lib

variable {rows : Rows} {action : Action} {t : Turn} {w v : World} {key : Key}

/-! ### Who writes -/

/-- The action is a statement of `RequestCancel`. -/
def Action.cancels : Action → Bool
  | .requestCancel _ _ _ | .resume (.cancelWrite _ _ _) _ _ => true
  | _ => false

/-- The pair of owner and token under which an action writes. -/
def Action.holder? : Action → Option (Option Id × Nat)
  | .heartbeat _ owner token _ _ | .resume (.heartbeatWrite _ owner token _ _) _ _ =>
    some (owner, token)
  | .resume (.execute copy) _ _ | .resume (.provider copy) _ _ | .resume (.beginTool copy _ _ _) _ _
  | .resume (.finishTool copy _) _ _ | .resume (.awaitApproval copy _) _ _ =>
    some (copy.lease.owner, copy.lease.token)
  | _ => none

/-- A worker saves a copy under the pair the copy was claimed with. -/
theorem Saves.holder {call : Call} {reply : Reply} {now : Time} {copy run : TaskRun}
    (saves : Saves call reply now copy run) :
    (Action.resume call reply now).holder? = some (copy.lease.owner, copy.lease.token) := by
  cases saves with
  | wait => rfl
  | fail fails => cases fails <;> rfl
  | complete completes => cases completes <;> rfl

variable {row new : Row} {calls : List Call} {events : List Event}

/-- A worker writes only the row it holds. -/
theorem Change.leased (change : Change action row new calls events) {owner : Option Id}
    {token : Nat} (holder : action.holder? = some (owner, token)) : row.leased owner token := by
  cases change with
  | claim asks => cases asks <;> cases holder
  | cancel | resolve | mark | operate | override => cases holder
  | touch leased | beat same leased | begin same leased | finish same leased =>
    cases holder
    exact leased
  | save saves running same leased =>
    cases saves.holder.symm.trans holder
    exact leased

/-! ### Tokens along a run -/

/-- An event that is neither a claim nor a decision. -/
def Event.plain : Event → Prop
  | .claimed _ _ _ | .resolved _ _ _ => False
  | _ => True

/-- What a write does to the token and the status of its row. -/
inductive FenceStep (row new : Row) (events : List Event) : Prop
  | claim (owner : Id) (token : new.fencingToken = row.fencingToken + 1)
      (event : events = [.claimed row.key owner (row.fencingToken + 1)])
  | resolve (plain : List Event) (decision : Decision) (waiting : row.status.active)
      (token : new.fencingToken = row.fencingToken) (done : ¬new.status.active)
      (quiet : ∀ event ∈ plain, event.plain)
      (event : events = plain ++ [.resolved row.key row.fencingToken decision])
  | keep (token : new.fencingToken = row.fencingToken)
      (order : ¬row.status.active → ¬new.status.active) (quiet : ∀ event ∈ events, event.plain)

theorem Change.fence (change : Change action row new calls events)
    (allowed : action.cancels = false) : FenceStep row new events := by
  have none : ∀ event ∈ ([] : List Event), event.plain := fun event member => nomatch member
  cases change with
  | claim asks eligible => exact .claim _ rfl rfl
  | touch | beat | begin | finish | override => exact .keep rfl id none
  | save saves running same leased => exact .keep rfl (fun idle => absurd (.inl leased.1) idle) none
  | cancel => cases allowed
  | resolve resolves same waiting revision =>
    obtain ⟨approval, result, -, -, -, decided, rfl⟩ := resolvedRun_key_of resolves
    refine .resolve _ _ (.inr waiting) rfl
      (not_active_of_terminal (decisionResult_terminal decided)) ?_ rfl
    intro event member
    rw [event_of_resolvedOutcome member]
    trivial
  | mark =>
    refine .keep rfl id fun event member => ?_
    rw [List.mem_singleton.mp member]
    trivial
  | operate operates =>
    obtain ⟨operated, made, rfl⟩ := operatedRun_key_of operates
    exact .keep rfl (fun _ => operatedRun_active made) none

theorem Looks.plain (look : Looks rows action calls events) : ∀ event ∈ events, event.plain := by
  intro event member
  cases look with
  | nothing | mark | beatRead | finished | invoke | cancel | cancelMissed | resolve | resolveRead
  | operate | override | observe => cases member
  | started | acknowledged =>
    rw [List.mem_singleton.mp member]
    trivial
  | cancelSettled | cancelRead =>
    rw [event_of_cancelOutcome member]
    trivial
  | resolveReplayed =>
    rw [event_of_resolvedOutcome member]
    trivial

/-- The token of an event that claims the run. -/
def Event.claimOf (key : Key) : Event → Option Nat
  | .claimed k _ token => if k = key then some token else none
  | _ => none

/-- The token of an event that decides the run. -/
def Event.resolutionOf (key : Key) : Event → Option Nat
  | .resolved k token _ => if k = key then some token else none
  | _ => none

/-- The tokens a run was claimed with, the newest first. -/
def claimTokens (key : Key) (log : List Event) : List Nat := log.filterMap (Event.claimOf key)

/-- The tokens under which an approval of a run was decided, the newest first. -/
def resolutionTokens (key : Key) (log : List Event) : List Nat :=
  log.filterMap (Event.resolutionOf key)

theorem claimTokens_append (key : Key) (events log : List Event) :
    claimTokens key (events ++ log) = claimTokens key events ++ claimTokens key log :=
  List.filterMap_append

theorem resolutionTokens_append (key : Key) (events log : List Event) :
    resolutionTokens key (events ++ log) = resolutionTokens key events ++ resolutionTokens key log :=
  List.filterMap_append

/-- The events say nothing about the tokens of the run. -/
structure Silent (key : Key) (events : List Event) : Prop where
  claims : claimTokens key events = []
  resolutions : resolutionTokens key events = []

theorem silent_of_plain (plain : ∀ event ∈ events, event.plain) : Silent key events := by
  constructor
  all_goals
    apply List.filterMap_eq_nil_iff.mpr
    intro event member
    have quiet := plain event member
    cases event with
    | claimed | resolved => cases quiet
    | _ => rfl

/-- A write of one run says nothing about the tokens of another. -/
theorem FenceStep.silent (fence : FenceStep row new events) (other : key ≠ row.key) :
    Silent key events := by
  have elsewhere : ¬row.key = key := fun same => other same.symm
  cases fence with
  | claim owner token event =>
    subst event
    exact ⟨by simp [claimTokens, Event.claimOf, elsewhere], rfl⟩
  | resolve plain decision waiting token done quiet event =>
    subst event
    have before : Silent key plain := silent_of_plain quiet
    constructor
    · rw [claimTokens_append, before.claims]
      rfl
    · rw [resolutionTokens_append, before.resolutions]
      simp [resolutionTokens, Event.resolutionOf, elsewhere]
  | keep token order quiet => exact silent_of_plain quiet

/-- Tokens in the log are behind the token of the row, and one under which a
decision fell is no longer in use. -/
structure Fenced (w : World) (key : Key) : Prop where
  claims : (claimTokens key w.log).Pairwise (· > ·)
  claimed : ∀ token ∈ claimTokens key w.log, ∃ row, w.rows.get? key = some row ∧
    token ≤ row.fencingToken
  resolutions : (resolutionTokens key w.log).Pairwise (· > ·)
  resolved : ∀ token ∈ resolutionTokens key w.log, ∃ row, w.rows.get? key = some row ∧
    token ≤ row.fencingToken ∧ (token = row.fencingToken → ¬row.status.active)

/-- Nothing is said about the tokens, and the row keeps its own. -/
theorem Fenced.keep {rows : Rows} (inv : Fenced w key) (silent : Silent key events)
    (rowKept : ∀ row, w.rows.get? key = some row → ∃ new, rows.get? key = some new ∧
      new.fencingToken = row.fencingToken ∧ (¬row.status.active → ¬new.status.active)) :
    Fenced ⟨rows, calls, events ++ w.log⟩ key where
  claims := by
    rw [claimTokens_append, silent.claims]
    exact inv.claims
  claimed := by
    rw [claimTokens_append, silent.claims]
    intro token member
    obtain ⟨row, found, behind⟩ := inv.claimed token member
    obtain ⟨new, there, same, -⟩ := rowKept row found
    exact ⟨new, there, same ▸ behind⟩
  resolutions := by
    rw [resolutionTokens_append, silent.resolutions]
    exact inv.resolutions
  resolved := by
    rw [resolutionTokens_append, silent.resolutions]
    intro token member
    obtain ⟨row, found, behind, idle⟩ := inv.resolved token member
    obtain ⟨new, there, same, order⟩ := rowKept row found
    exact ⟨new, there, same ▸ behind, fun at' => order (idle (at'.trans same))⟩

/-- A claim of the run takes a token beyond those in the log. -/
theorem Fenced.claim {rows : Rows} {owner : Id} (inv : Fenced w row.key)
    (found : w.rows.get? row.key = some row) (there : rows.get? row.key = some new)
    (token : new.fencingToken = row.fencingToken + 1) :
    Fenced ⟨rows, calls, [.claimed row.key owner (row.fencingToken + 1)] ++ w.log⟩ row.key := by
  have taken : claimTokens row.key ([.claimed row.key owner (row.fencingToken + 1)] ++ w.log) =
      (row.fencingToken + 1) :: claimTokens row.key w.log := by
    simp [claimTokens, Event.claimOf]
  have decided : resolutionTokens row.key
      ([.claimed row.key owner (row.fencingToken + 1)] ++ w.log) =
        resolutionTokens row.key w.log := by
    rw [resolutionTokens_append]
    rfl
  have behind : ∀ old ∈ claimTokens row.key w.log, old ≤ row.fencingToken := by
    intro old member
    obtain ⟨other, at', le⟩ := inv.claimed old member
    rw [found] at at'
    cases at'
    exact le
  constructor
  · rw [taken]
    exact List.pairwise_cons.mpr ⟨fun old member => Nat.lt_succ_of_le (behind old member), inv.claims⟩
  · rw [taken]
    intro old member
    refine ⟨new, there, ?_⟩
    obtain rfl | earlier := List.mem_cons.mp member
    · omega
    · have := behind old earlier
      omega
  · rw [decided]
    exact inv.resolutions
  · rw [decided]
    intro old member
    obtain ⟨other, at', le, -⟩ := inv.resolved old member
    rw [found] at at'
    cases at'
    exact ⟨new, there, by omega, fun same => by omega⟩

/-- A decision falls under a token that had none. -/
theorem Fenced.resolve {rows : Rows} {plain : List Event} {decision : Decision}
    (inv : Fenced w row.key) (found : w.rows.get? row.key = some row)
    (there : rows.get? row.key = some new) (waiting : row.status.active)
    (token : new.fencingToken = row.fencingToken) (done : ¬new.status.active)
    (quiet : ∀ event ∈ plain, event.plain) :
    Fenced ⟨rows, calls, (plain ++ [.resolved row.key row.fencingToken decision]) ++ w.log⟩
      row.key := by
  have silent : Silent row.key plain := silent_of_plain quiet
  have taken : claimTokens row.key
      ((plain ++ [.resolved row.key row.fencingToken decision]) ++ w.log) =
        claimTokens row.key w.log := by
    rw [claimTokens_append, claimTokens_append, silent.claims]
    rfl
  have decided : resolutionTokens row.key
      ((plain ++ [.resolved row.key row.fencingToken decision]) ++ w.log) =
        row.fencingToken :: resolutionTokens row.key w.log := by
    rw [resolutionTokens_append, resolutionTokens_append, silent.resolutions]
    simp [resolutionTokens, Event.resolutionOf]
  have before : ∀ old ∈ resolutionTokens row.key w.log, old < row.fencingToken := by
    intro old member
    obtain ⟨other, at', le, idle⟩ := inv.resolved old member
    rw [found] at at'
    cases at'
    exact Nat.lt_of_le_of_ne le fun same => idle same waiting
  constructor
  · rw [taken]
    exact inv.claims
  · rw [taken]
    intro old member
    obtain ⟨other, at', le⟩ := inv.claimed old member
    rw [found] at at'
    cases at'
    exact ⟨new, there, token ▸ le⟩
  · rw [decided]
    exact List.pairwise_cons.mpr ⟨before, inv.resolutions⟩
  · rw [decided]
    intro old member
    refine ⟨new, there, ?_, fun _ => done⟩
    obtain rfl | earlier := List.mem_cons.mp member
    · omega
    · have := before old earlier
      omega

theorem fenced_step (allowed : action.cancels = false) (inv : Fenced w key) :
    Fenced (step w action) key := by
  refine step_rule (P := fun u => Fenced u key) inv fun t outcome taken => ?_
  cases outcome with
  | look look => exact inv.keep (silent_of_plain look.plain) fun row found => ⟨row, found, rfl, id⟩
  | create asked inserted =>
    refine inv.keep (⟨rfl, rfl⟩ : Silent key []) fun row found => ?_
    exact ⟨row, Table.get?_insert?_of_some inserted found, rfl, id⟩
  | @write row new calls events found change =>
    have fence := change.fence allowed
    have self : (w.rows.put new).get? row.key = some new :=
      change.key ▸ Table.get?_put_self (change.key.symm ▸ found)
    by_cases here : key = row.key
    · subst here
      cases fence with
      | claim owner token event =>
        subst event
        exact inv.claim found self token
      | resolve plain decision waiting token done quiet event =>
        subst event
        exact inv.resolve found self waiting token done quiet
      | keep token order quiet =>
        refine inv.keep (silent_of_plain quiet) fun old at' => ?_
        rw [found] at at'
        cases at'
        exact ⟨new, self, token, order⟩
    · refine inv.keep (fence.silent here) fun old at' => ⟨old, ?_, rfl, id⟩
      rw [Table.get?_put_of_ne (change.key.symm ▸ here)]
      exact at'

theorem token_step (action : Action) (found : w.rows.get? key = some row) :
    ∃ new, (step w action).rows.get? key = some new ∧ row.fencingToken ≤ new.fencingToken := by
  refine step_rule (P := fun u => ∃ new, u.rows.get? key = some new ∧
    row.fencingToken ≤ new.fencingToken) ⟨row, found, Nat.le_refl _⟩ fun t outcome taken => ?_
  obtain ⟨new, there, rfl | ⟨calls, events, change⟩⟩ := outcome.row_kept found
  · exact ⟨new, there, Nat.le_refl _⟩
  · exact ⟨new, there, change.token_le⟩

theorem token_grows {allowed : World → Action → Prop} (later : Reaches step allowed w v)
    (found : w.rows.get? key = some row) :
    ∃ new, v.rows.get? key = some new ∧ row.fencingToken ≤ new.fencingToken := by
  refine later.invariant (P := fun u => ∃ new, u.rows.get? key = some new ∧
    row.fencingToken ≤ new.fencingToken) ⟨row, found, Nat.le_refl _⟩ ?_
  rintro u ⟨new, there, le⟩ action -
  obtain ⟨next, found', le'⟩ := token_step action there
  exact ⟨next, found', Nat.le_trans le le'⟩

/-! ### Fencing -/

/-- The action is no statement of a cancel request. -/
def Uncancelled (_ : World) (action : Action) : Prop := action.cancels = false

/-- In every history of starts, claims, heartbeats, lease expiries, tool calls,
completions, failures, approval waits and resolutions, notifications and
operator commands: the tokens of a run strictly increase, and so do those under
which its approvals are decided; a worker changes a run only under the pair in
its columns, while it is running; and a pair whose token was passed changes
nothing of the run ever after. -/
theorem agent_task_fencing (reached : Reaches step Uncancelled .empty w) (key : Key) :
    (claimTokens key w.log).Pairwise (· > ·) ∧
    (resolutionTokens key w.log).Pairwise (· > ·) ∧
    (∀ action owner token row, action.holder? = some (owner, token) →
      w.rows.get? key = some row → (step w action).rows.get? key ≠ some row →
        row.status = .running ∧ row.leaseOwner = owner ∧ row.fencingToken = token) ∧
    ∀ row, w.rows.get? key = some row → ∀ v, Reaches step Uncancelled w v →
      ∀ action owner token, action.holder? = some (owner, token) → token < row.fencingToken →
        (step v action).rows.get? key = v.rows.get? key := by
  have fenced : Fenced w key := by
    refine reached.invariant (P := fun u => Fenced u key) ?_ ?_
    · exact ⟨.nil, fun _ none => (nomatch none), .nil, fun _ none => (nomatch none)⟩
    · exact fun u inv action may => fenced_step may inv
  have held : ∀ (u : World) (action : Action) (owner : Option Id) (token : Nat) (row : Row),
      action.holder? = some (owner, token) → u.rows.get? key = some row →
        (step u action).rows.get? key ≠ some row → row.leased owner token := by
    intro u action owner token row holder found
    -- What an action changes it found stored, and changed by a write.
    apply step_rule (P := fun u => u.rows.get? key ≠ some row → row.leased owner token)
    · exact fun changed => absurd found changed
    · intro t outcome taken changed
      obtain ⟨new, there, same | ⟨calls, events, change⟩⟩ := outcome.row_kept found
      · exact absurd (same ▸ there) changed
      · exact change.leased holder
  refine ⟨fenced.claims, fenced.resolutions, held w, ?_⟩
  intro row found v later action owner token holder passed
  obtain ⟨new, there, le⟩ := token_grows later found
  by_contra changed
  rw [there] at changed
  have current := (held v action owner token new holder there changed).2.2
  omega

/-- A task of a workflow with two attempts. -/
def sampleRequest : Request where
  id := 7
  workspaceID := 1
  processID := some 3
  maxAttempts := 2
  maxToolCalls := 4
  costBudget := .low
  authorization := 0

/-- Worker 1 claims the task, its lease runs out, and worker 2 claims it. -/
def reclaimed : List Action :=
  [.start sampleRequest 0, .claim (1, 7) 1 0 10, .claim (1, 7) 2 20 10]

/-- The failed attempt of worker 1, after worker 2 has claimed the task. -/
def lateFailure : Action :=
  .resume (.execute (claimedRow (newRow sampleRequest 0) 1 0 10).run) (.failed "provider" true 20) 21

theorem agent_task_fencing_reclaimed :
    claimTokens (1, 7) (runActions step .empty reclaimed).log = [2, 1] ∧
    (claimTokens (1, 7) (runActions step .empty reclaimed).log).Pairwise (· > ·) ∧
    (step (runActions step .empty reclaimed) lateFailure).rows.get? (1, 7) =
      (runActions step .empty reclaimed).rows.get? (1, 7) := by
  have free : ∀ action ∈ reclaimed, action.cancels = false := by decide
  have reached : Reaches step Uncancelled .empty (runActions step .empty reclaimed) :=
    Reaches.start.runActions reclaimed fun action member _ => free action member
  have fencing := agent_task_fencing reached (1, 7)
  refine ⟨by decide, fencing.1, ?_⟩
  have known : ((runActions step .empty reclaimed).rows.get? (1, 7)).map (·.fencingToken) =
    some 2 := by decide
  obtain ⟨row, found, token⟩ := Option.map_eq_some_iff.mp known
  exact fencing.2.2.2 row found _ .start lateFailure (some 1) 1 rfl (by omega)

end DomainryAgent.AgentTask
