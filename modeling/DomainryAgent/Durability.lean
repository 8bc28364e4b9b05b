import DomainryAgent.Refinement.Operations
import DomainryAgent.Protocol.Agreements
import DomainryAgent.Protocol.Assignments

/-!
Whole runs of the store: they follow the protocol, lose no record, number the
steps in order, and apply a call of one of the store's own tools at most once.
-/

namespace DomainryAgent

open Lib Tx Protocol Refinement Table

variable {s : Db} {op : Op} {x y z : Core} {allowed : Hazard → Prop}
variable (now : Time) (limits : Option ExecutionLimits) (ops later : List Op)

/-- The store after the operations `ops`. -/
def history : Db := runActions Db.step (Db.initial now limits) ops

theorem leadsTo_run (s : Db) : LeadsTo s (runActions Db.step s ops) :=
  .runActions .start ops fun _ _ _ => trivial

theorem history_reachable : Reachable (history now limits ops) :=
  ⟨now, limits, leadsTo_run ops _⟩

/-- **The store refines the protocol.**  Whatever was done before, an operation takes the store
on by steps of the protocol, with no hazard but those it raises there. -/
theorem store_refines_protocol (op : Op) : Steps (Raises (history now limits ops) op)
    (history now limits ops).toCore ((history now limits ops).step op).toCore :=
  (history_reachable now limits ops).wellFormed.steps op

/-! ### Records -/

/-- What is left of the records of `x`. -/
structure Remembers (x y : Core) : Prop where
  runs : Stays SameRun x.runs y.runs
  tasks : Stays SameTask x.tasks y.tasks
  conversations : Stays SameConversation x.conversations y.conversations
  delegations : Stays AgreementOrder x.delegations y.delegations
  steps : StepsKept x.steps y.steps
  tools : ToolsKept x.tools y.tools

theorem Remembers.refl (x : Core) : Remembers x x :=
  ⟨.refl .refl, .refl .refl, .refl .refl, .refl .refl, .refl _, .refl _⟩

theorem Remembers.step (before : Remembers x y) (step : Step allowed y z) : Remembers x z where
  runs := before.runs.trans SameRun.trans fun _ _ => step.run_stays
  tasks := before.tasks.trans (fun a b => ⟨b.id.trans a.id, b.authority.trans a.authority,
    b.delegation.trans a.delegation, b.conversation.trans a.conversation, b.asked.trans a.asked,
    b.handoff.trans a.handoff⟩) fun _ _ => step.task_stays
  conversations := before.conversations.trans SameConversation.trans
    fun _ _ => step.conversation_stays
  delegations := before.delegations.trans AgreementOrder.trans fun _ _ => step.agreementOrder
  steps := before.steps.trans step.stepsKept
  tools := before.tools.trans step.toolsKept

theorem WellFormed.remembers (wf : WellFormed s) :
    Remembers s.toCore (runActions Db.step s later).toCore :=
  ((leadsTo_run later s).keeps (P := Remembers s.toCore) wf (fun step before => before.step step)
    (.refl _)).2

/-- Up to a stored step, each was opened when the one before it was done. -/
def Numbered (x : Core) : Prop :=
  ∀ r n step, x.steps.get? (r, n) = some step → ∀ k ≤ n, PreviousDone x r k

theorem PreviousDone.stays {r : Id} {n : Nat} (done : PreviousDone x r n) (kept : Remembers x y) :
    PreviousDone y r n := by
  intro k here
  obtain ⟨step, result, found, answered, reason, calls⟩ := done k here
  obtain ⟨next, found', _, stays⟩ := kept.steps _ _ found
  refine ⟨next, result, found', stays _ answered, reason, fun call asked => ?_⟩
  obtain ⟨record, there, completed⟩ := calls call asked
  obtain ⟨_, there', _, same⟩ := kept.tools _ _ there
  cases same completed
  exact ⟨record, there', completed⟩

theorem Step.numbered (step : Step allowed x y) (inv : Numbered x) : Numbered y := by
  intro r n v there k within
  refine PreviousDone.stays ?_ ((Remembers.refl x).step step)
  cases step with
  | move move =>
    cases move with
    | steps change =>
      cases change with
      | opens _ _ _ previous inserted =>
        rcases get?_insert?_some inserted there with ⟨here, rfl⟩ | ⟨_, there⟩
        · -- The new step rests on the one before it, and so on all the earlier ones.
          cases here
          rcases within.eq_or_lt with rfl | earlier
          · exact previous
          · obtain ⟨m, here⟩ := Nat.exists_eq_add_one_of_ne_zero (Nat.ne_zero_of_lt earlier)
            obtain ⟨_, _, before, _⟩ := previous m here
            exact inv _ m _ before k (by omega)
        · exact inv r n v there k within
      | completes _ _ found =>
        rcases get?_put_some there with ⟨here, rfl, _⟩ | ⟨_, there⟩
        · exact inv r n _ (here ▸ found) k within
        · exact inv r n v there k within
    | _ => exact inv r n v there k within
  | _ => exact inv r n v there k within

/-- **The steps of a run are numbered without gaps.**  Wherever the store gets, the steps
before a stored one are all there; each has a result that asked for tools, and a completed
receipt for every call in it. -/
theorem steps_are_numbered : Numbered (history now limits ops).toCore :=
  (history_reachable now limits ops).invariant (fun _ _ _ _ _ found => nomatch found)
    fun _ _ _ _ _ _ step _ _ => Step.numbered step

/-! ### Tools the store runs itself -/

/-- The call that an operation applies in the store. -/
def localCall : Op → Option (Id × Nat × Id)
  | .startTask q _ | .updatePlan q _ _ | .submitCompletion q _ _ _ =>
    some (q.claim.runID, q.step, q.call.id)
  | _ => none

/-- The operation sends the call, and the store is changed by it. -/
def Applies (k : Id × Nat × Id) (s : Db) (op : Op) : Prop := localCall op = some k ∧ s.step op ≠ s

/-- The call has a receipt. -/
def Answered (k : Id × Nat × Id) (s : Db) : Prop :=
  ∃ record, s.tools.get? k = some record ∧ record.state = .completed

variable {q : ToolRequest} {k : Id × Nat × Id}

theorem localCall_applies (calls : localCall op = some k) : ∃ q kind apply,
    k = (q.claim.runID, q.step, q.call.id) ∧ exec op = applyLocalTool q kind apply *> pure .done ∧
      ∀ s, apply.Ensures s fun result _ => result.status = .completed := by
  cases op with
  | startTask q | updatePlan q | submitCompletion q =>
    cases calls
    refine ⟨q, _, _, rfl, rfl, fun s => ?_⟩
    simp [startBackgroundTask, updatePlan, submitCompletion]
  | _ => cases calls

/-- What is recorded of an effect, applied or refused, is a receipt. -/
theorem recordLocalOutcome_completes {outcome : Except Error ToolResult}
    (certain : ∀ result, outcome = .ok result → result.status = .completed) :
    (recordLocalOutcome q outcome).Ensures s
      fun _ => Answered (q.claim.runID, q.step, q.call.id) := by
  simp only [recordLocalOutcome, wp, ensures_claimed]
  intro result ok row _
  have settled : result.status ≠ .uncertain := by
    unfold localResult at ok
    grind
  refine finishExecutionToolReceipt_receives.mono ?_
  rintro _ t ⟨record, there, ⟨completed, rfl⟩ | ⟨_, v, _, core⟩⟩
  · exact ⟨record, there, completed⟩
  · rw [Answered, core]
    exact ⟨_, get?_put_at there rfl, if_neg settled⟩

/-- A change leaves a receipt. -/
theorem Applies.answered (applies : Applies k s op) : Answered k (s.step op) := by
  obtain ⟨calls, changes⟩ := applies
  obtain ⟨q, _, apply, rfl, runs, certain⟩ := localCall_applies calls
  refine (Ensures.commit (P := fun t => t = s ∨ Answered _ t) ?_ (.inl rfl)).resolve_left changes
  simp only [runs, applyLocalTool, wp, ensures_conversationAuthority, ensures_claimed]
  intro _ _ _ _ _ _ _
  refine ensures_ite.mpr ⟨fun _ => ensures_pure.mpr (.inl rfl), fun _ => ?_⟩
  rw [ensures_bind, ensures_attempt]
  refine ⟨(certain s).mono fun _ _ _ => ?_, fun _ _ => ?_⟩ <;>
    exact (recordLocalOutcome_completes (by grind)).mono fun _ _ => .inr

/-- **A local call is applied once.**  Of the operations that send one call of such a tool, at
most one changes the store, whatever is done before and between. -/
theorem local_calls_apply_once (again : Op) : ¬(Applies k (history now limits ops) op ∧
    Applies k (runActions Db.step (history now limits ops) (op :: later)) again) := by
  rintro ⟨applies, repeats, changed⟩
  have reached : Reachable ((history now limits ops).step op) :=
    ⟨now, limits, .step (leadsTo_run ops _) op trivial⟩
  have receipts := reached.invariant (P := (Receipted ·.tools)) (fun _ _ => .empty)
    fun _ _ _ _ _ _ step _ _ => step.receipted
  generalize history now limits ops = s at *
  obtain ⟨q, _, _, same, runs, _⟩ := localCall_applies repeats
  -- The first operation leaves a completed record, and that stays.
  obtain ⟨record, found, completed⟩ := applies.answered
  obtain ⟨_, known, _⟩ := (receipts.known _ _ found).mp completed
  obtain ⟨_, there, _, kept⟩ := (WellFormed.remembers later reached.wellFormed).tools _ _ found
  cases kept completed
  refine changed (Ensures.commit (P := (· = _)) ?_ rfl)
  simp only [runs, applyLocalTool, wp, ensures_conversationAuthority, ensures_claimed]
  intro _ _ _ _ found _ _
  cases there.symm.trans ((congrArg _ same).trans found)
  rw [if_pos ⟨completed, by simp [known]⟩, ensures_pure]

end DomainryAgent
