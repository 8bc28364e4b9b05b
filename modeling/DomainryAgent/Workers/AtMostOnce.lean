import DomainryAgent.Protocol.Calls
import DomainryAgent.Workers.Fencing

/-!
At most one external write: the host is asked to invoke a call whose definition
declares reconciliation at most once, whoever crashes, stalls or takes over in
between.

The first beginning of a call is the only one that is not a replay, and it
leaves a durable record before anything reaches the host.  So the invocations
that were made and those a worker may still make are never more than one
together (`World.Dispatched`).
-/

namespace DomainryAgent

open Lib Protocol Refinement

variable {w : World} {s : Db} {k : CallKey}

/-! ### What identifies a call -/

/-- The call is recorded under this idempotency key, and its step froze this
definition for it. -/
def Recorded (s : Core) (k : CallKey) (key : IdempotencyKey) (definition : ToolDefinition) : Prop :=
  ∃ record, s.tools.get? k = some record ∧ record.idempotencyKey = key ∧
    frozenDefinition s.steps k.1 k.2.1 record.call.name = some definition

variable {definition : ToolDefinition} {t : Core} {d : Dispatch}

variable {number : Nat} {key : IdempotencyKey} {op : Op} {e : HostCall}

/-- A step keeps the definitions it froze. -/
theorem frozenDefinition_kept {steps steps' : Table ExecutionStep.key}
    (kept : StepsKept steps steps') {runID : Id} {name : Id}
    (frozen : frozenDefinition steps runID number name = some definition) :
    frozenDefinition steps' runID number name = some definition := by
  obtain ⟨step, found, chosen⟩ := Option.bind_eq_some_iff.mp frozen
  obtain ⟨next, found', input, _⟩ := kept _ step found
  exact Option.bind_eq_some_iff.mpr ⟨next, found', input ▸ chosen⟩

theorem Recorded.kept {s : Core} (recorded : Recorded s k key definition)
    (tools : ToolsKept s.tools t.tools) (steps : StepsKept s.steps t.steps) :
    Recorded t k key definition := by
  obtain ⟨record, found, rfl, frozen⟩ := recorded
  obtain ⟨next, found', same, _⟩ := tools k record found
  refine ⟨next, found', same.key, ?_⟩
  rw [same.call]
  exact frozenDefinition_kept steps frozen

theorem Recorded.unique {s : Core} {key' : IdempotencyKey} {definition' : ToolDefinition}
    (recorded : Recorded s k key definition) (recorded' : Recorded s k key' definition') :
    key' = key ∧ definition' = definition := by
  obtain ⟨record, found, rfl, frozen⟩ := recorded
  obtain ⟨record', found', rfl, frozen'⟩ := recorded'
  rw [found] at found'
  cases found'
  rw [frozen] at frozen'
  exact ⟨rfl, (Option.some.inj frozen').symm⟩

/-! ### Invocations -/

/-- The call was begun. -/
def startedCall (tools : Table ToolExecution.key) (k : CallKey) : Bool :=
  (tools.get? k).any (fun record => record.state ≠ .queued)

/-- First beginnings of a call that a worker still holds. -/
def World.firstBegun (w : World) (k : CallKey) : Nat :=
  w.inFlight.countP (fun d => d.key = k ∧ d.replayed = false)

/-- Invocations of a call under reconciliation. -/
def World.invoked (w : World) (k : CallKey) : Nat :=
  w.log.countP (fun e => e.key = k ∧ e.mode = .invoke ∧ e.definition.idempotency = .reconcile)

/-- What holds of the dispatches. -/
structure World.Dispatched (w : World) : Prop where
  inFlight : ∀ d ∈ w.inFlight, Recorded w.db.toCore d.key d.record.idempotencyKey d.frozen
  log : ∀ e ∈ w.log, Recorded w.db.toCore e.key e.idempotencyKey e.definition
  once : ∀ k, w.firstBegun k + w.invoked k ≤ if startedCall w.db.tools k then 1 else 0

/-- What an operation puts in flight: nothing, or the call it began. -/
inductive InFlight (s : Db) (op : Op) : List Dispatch → Prop
  | none : InFlight s op []
  | begun {d : Dispatch}
      (begun : Begun s.toCore (s.step op).toCore d.claim d.number d.callID d.record d.replayed)
      (frozen : frozenDefinition s.steps d.claim.runID d.number d.record.call.name =
        some d.frozen) : InFlight s op [d]

theorem begunCalls_inFlight (s : Db) (op : Op) :
    InFlight s op (begunCalls s.steps op ((exec op).result? s)) := by
  unfold begunCalls
  split
  · next c number callID record replayed begins outcome =>
    -- A beginning answers as `Begun` says.
    have ensures : (exec op).Ensures s (fun out t => ∀ record replayed,
        out = .began record replayed →
          Begun s.toCore t.toCore c number callID record replayed) := by
      cases op
      all_goals cases begins
      all_goals simp only [exec, Tx.ensures_map]
      · refine Tx.Ensures.mono (@beginExecutionSubtool_begins (fun _ => True) _ _ _ _ trivial) ?_
        rintro ⟨_, _⟩ t ⟨_, begun⟩ _ _ ⟨⟩
        exact begun
      · refine Tx.Ensures.mono
          (@beginExecutionTool_begins (fun _ => True) _ _ _ _ _ trivial trivial) ?_
        rintro ⟨_, _⟩ t ⟨_, begun⟩ _ _ ⟨⟩
        exact begun
    obtain ⟨s', ok, commit⟩ := Tx.result?_eq_some outcome
    have after : (s.step op).toCore = s'.toCore := congrArg Db.toCore commit
    cases frozen : frozenDefinition s.steps c.runID number record.call.name with
    | none => exact .none
    | some definition => exact .begun (after ▸ ensures _ s' ok record replayed rfl) frozen
  · exact .none

/-- A store operation makes no invocation, and starts at most the one call that
was not started before. -/
theorem World.Dispatched.store (inv : w.Dispatched) (wf : WellFormed w.db) :
    (w.store op).Dispatched := by
  have steps := wf.steps op
  have tools : ToolsKept w.db.tools (w.db.step op).tools := steps.toolsKept
  have kept : ∀ k key definition, Recorded w.db.toCore k key definition →
      Recorded (w.db.step op).toCore k key definition :=
    fun _ _ _ recorded => recorded.kept tools steps.stepsKept
  have earlier : ∀ k, w.firstBegun k + w.invoked k ≤
      if startedCall (w.db.step op).tools k then 1 else 0 := by
    intro k
    refine (inv.once k).trans ?_
    cases started : startedCall w.db.tools k with
    | false => simp
    | true =>
      obtain ⟨record, found, state⟩ := (Option.any_eq_true _ _).mp started
      obtain ⟨next, found', same, _⟩ := tools k record found
      have goes : startedCall (w.db.step op).tools k = true := by
        refine (Option.any_eq_true _ _).mpr ⟨next, found', ?_⟩
        simpa using same.started (by simpa using state)
      simp [goes]
  obtain ⟨new, inFlight, calls⟩ : ∃ new, (w.store op).inFlight = new ++ w.inFlight ∧
      InFlight w.db op new := ⟨_, rfl, begunCalls_inFlight w.db op⟩
  refine ⟨fun d member => ?_, fun e member => kept _ _ _ (inv.log e member), fun k => ?_⟩
  · rw [inFlight] at member
    rcases List.mem_append.mp member with new | old
    · cases calls with
      | none => cases new
      | begun begun frozen =>
        obtain rfl := List.mem_singleton.mp new
        exact ⟨d.record, begun.stored, rfl, frozenDefinition_kept steps.stepsKept frozen⟩
    · exact kept _ _ _ (inv.inFlight d old)
  · have total : (w.store op).firstBegun k + (w.store op).invoked k =
        new.countP (fun d => d.key = k ∧ d.replayed = false) + (w.firstBegun k + w.invoked k) := by
      simp only [World.firstBegun, inFlight, List.countP_append, Nat.add_assoc]
      rfl
    rw [total]
    show _ ≤ if startedCall (w.db.step op).tools k then 1 else 0
    cases calls with
    | none => simpa using earlier k
    | @begun d begun frozen =>
      by_cases here : d.key = k ∧ d.replayed = false
      · obtain ⟨rfl, first⟩ := here
        have none := inv.once d.key
        have fresh : startedCall w.db.tools d.key = false := by
          unfold startedCall
          cases found : w.db.tools.get? d.key with
          | none => rfl
          | some old => simpa using begun.fresh first old found
        have starts : startedCall (w.db.step op).tools d.key = true :=
          (Option.any_eq_true _ _).mpr ⟨d.record, begun.stored, by simpa using begun.started first⟩
        rw [fresh] at none
        simp only [Bool.false_eq_true, if_false, Nat.le_zero_eq] at none
        simp [none, first, starts]
      · have zero : [d].countP (fun d => d.key = k ∧ d.replayed = false) = 0 := by simp [here]
        rw [zero, Nat.zero_add]
        exact earlier k

theorem hostCall_recorded (call : d.hostCall = some e) :
    e.key = d.key ∧ e.idempotencyKey = d.record.idempotencyKey ∧ e.definition = d.frozen := by
  unfold Dispatch.hostCall at call
  split at call
  · cases call
  · split at call
    · cases call
    · cases call
      exact ⟨rfl, rfl, rfl⟩

/-- A dispatch turns a call in flight into at most one request. -/
theorem World.Dispatched.dispatch (inv : w.Dispatched) (member : d ∈ w.inFlight) : World.Dispatched
      { w with inFlight := w.inFlight.erase d, log := w.log ++ d.hostCall.toList } := by
  refine ⟨fun d' there => inv.inFlight d' (List.mem_of_mem_erase there), fun e there => ?_,
    fun k => ?_⟩
  · rcases List.mem_append.mp there with old | new
    · exact inv.log e old
    · have call : d.hostCall = some e := by simpa using new
      obtain ⟨key, idempotency, definition⟩ := hostCall_recorded call
      rw [key, idempotency, definition]
      exact inv.inFlight d member
  · refine le_trans ?_ (inv.once k)
    simp only [World.firstBegun, World.invoked, List.countP_append]
    have request : d.hostCall.toList.countP (fun e =>
        e.key = k ∧ e.mode = .invoke ∧ e.definition.idempotency = .reconcile) ≤
        if d.key = k ∧ d.replayed = false then 1 else 0 := by
      cases call : d.hostCall with
      | none => simp
      | some e =>
        by_cases counts : e.key = k ∧ e.mode = .invoke ∧ e.definition.idempotency = .reconcile
        · have key := (hostCall_recorded call).1
          -- An invocation under reconciliation is that of a first beginning.
          have first : d.replayed = false := by
            obtain ⟨-, invokes, reconciles⟩ := counts
            unfold Dispatch.hostCall at call
            split at call
            · cases call
            · split at call <;> cases call
              by_contra replayed
              simp only [Bool.not_eq_false] at replayed reconciles
              simp [replayed, reconciles] at invokes
          simp [counts, first, ← key]
        · simp [counts]
    have erased : w.inFlight.countP (fun d => d.key = k ∧ d.replayed = false) =
        (w.inFlight.erase d).countP (fun d => d.key = k ∧ d.replayed = false) +
          if d.key = k ∧ d.replayed = false then 1 else 0 := by
      rw [(List.perm_cons_erase member).countP_eq, List.countP_cons]
      simp only [decide_eq_true_eq]
    omega

theorem World.Dispatched.crash (inv : w.Dispatched) (d : Dispatch) :
    World.Dispatched { w with inFlight := w.inFlight.erase d } := by
  refine ⟨fun d' there => inv.inFlight d' (List.mem_of_mem_erase there), inv.log, fun k => ?_⟩
  refine le_trans (Nat.add_le_add_right ?_ _) (inv.once k)
  exact (List.erase_sublist (a := d)).countP_le

theorem World.Dispatched.initial (now : Time) (limits : Option ExecutionLimits) :
    (World.initial now limits).Dispatched := by
  refine ⟨?_, ?_, fun k => ?_⟩ <;> simp [World.firstBegun, World.invoked, World.initial]

theorem World.Reachable.dispatched (reached : w.Reachable) : w.Dispatched := by
  refine (reached.invariant .initial fun u action wf inv => ?_).2
  cases action with
  | store op => exact inv.store wf
  | dispatch d =>
    simp only [World.step]
    split
    · next member => exact inv.dispatch member
    · exact inv
  | crash d => exact inv.crash d

/-! ### At most one invocation -/

/-- **At most one external write.**  Over every interleaving of workers,
crashes, takeovers, cancellations and resumptions: a call whose definition
declares reconciliation is invoked at most once, every other dispatch of it
reconciles, and all dispatches of one call carry one definition and one
idempotency key. -/
theorem invoked_at_most_once (reached : w.Reachable) :
    (∀ e ∈ w.log, e.definition.idempotency = .reconcile →
      w.log.countP (fun e' => e'.key = e.key ∧ e'.mode = .invoke) ≤ 1) ∧
    (∀ before e after, w.log = before ++ e :: after → e.definition.idempotency = .reconcile →
      e.mode = .invoke → ∀ e' ∈ before ++ after, e'.key = e.key → e'.mode = .reconcile) ∧
    (∀ e ∈ w.log, ∀ e' ∈ w.log, e'.key = e.key →
      e'.idempotencyKey = e.idempotencyKey ∧ e'.definition = e.definition) := by
  have inv := reached.dispatched
  have same : ∀ e ∈ w.log, ∀ e' ∈ w.log, e'.key = e.key →
      e'.idempotencyKey = e.idempotencyKey ∧ e'.definition = e.definition := by
    intro e member e' member' key
    exact (inv.log e member).unique (key ▸ inv.log e' member')
  have once : ∀ e ∈ w.log, e.definition.idempotency = .reconcile →
      w.log.countP (fun e' => e'.key = e.key ∧ e'.mode = .invoke) ≤ 1 := by
    intro e member reconciles
    have counted : w.log.countP (fun e' => e'.key = e.key ∧ e'.mode = .invoke) =
        w.invoked e.key := by
      refine List.countP_congr fun e' member' => ?_
      simp only [decide_eq_true_eq]
      refine ⟨fun ⟨key, invokes⟩ => ⟨key, invokes, ?_⟩, fun ⟨key, invokes, _⟩ => ⟨key, invokes⟩⟩
      rw [(same e member e' member' key).2]
      exact reconciles
    have bound := inv.once e.key
    rw [counted]
    split at bound <;> omega
  refine ⟨once, ?_, same⟩
  intro before e after log reconciles invokes e' member' key
  have bound := once e (log ▸ List.mem_append_right _ List.mem_cons_self) reconciles
  by_contra other
  have invokes' : e'.mode = .invoke := by
    cases mode : e'.mode with
    | invoke => rfl
    | reconcile => exact absurd mode other
  have second : 0 < (before ++ after).countP (fun e' => e'.key = e.key ∧ e'.mode = .invoke) :=
    List.countP_pos_iff.mpr ⟨e', member', by simp [key, invokes']⟩
  rw [log, List.countP_append, List.countP_cons] at bound
  rw [List.countP_append] at second
  simp only [invokes, and_self, decide_true, if_true] at bound
  omega

/-! A worker invokes the tool and stalls; its lease expires, and the worker that
takes over begins the call again. -/

def sampleRecord : ToolExecution :=
  newToolExecution sampleClaim 0 ⟨30, 5, 0, 0⟩ sampleTool .started

def stalledCall : List Action :=
  (launchedTask ++ calledTool ++ [Op.beginExecutionTool sampleClaim 0 30 1]).map Action.store ++
    [.dispatch ⟨sampleClaim, 0, 30, sampleRecord, false, sampleTool⟩, .store (.tick 2000),
      .store (.claim 1 8 1000 []),
      .store (.beginExecutionTool { sampleClaim with owner := 8, fence := 2 } 0 30 1),
      .dispatch ⟨{ sampleClaim with owner := 8, fence := 2 }, 0, 30,
        { sampleRecord with leaseOwner := some 8, fence := 2 }, true, sampleTool⟩]

/-- The first dispatch invokes, the second reconciles. -/
theorem stalled_call_invoked_once :
    (worldAfter stalledCall).log.map (·.mode) = [.invoke, .reconcile] ∧
      (∀ e ∈ (worldAfter stalledCall).log, e.definition.idempotency = .reconcile →
        (worldAfter stalledCall).log.countP (fun e' => e'.key = e.key ∧ e'.mode = .invoke) ≤ 1) := by
  have reached : (worldAfter stalledCall).Reachable := reachable_worldAfter (by decide)
  exact ⟨by decide +kernel, (invoked_at_most_once reached).1⟩

end DomainryAgent
