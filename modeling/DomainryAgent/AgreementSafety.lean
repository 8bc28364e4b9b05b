import DomainryAgent.PlanIntegrity
import DomainryAgent.Protocol.Agreements
import DomainryAgent.Refinement.Claims

/-!
Agreements between delegations and their executors, over every run of the
store.

A revision names one agreement, and work launched under an agreement that was
left behind is refused from then on: its worker can do no more than report the
outcome of the call that the change interrupted.
-/

namespace DomainryAgent

open Lib Tx Protocol Refinement

variable {s t : Db}

/-! ### A revision names one agreement -/

/-- **Agreement history.**  The recorded revisions of a delegation are `1` to
its current one, its terms are those of the current record, its task carries
the brief and the input of the record it is numbered by, and no record ever
changes. -/
theorem revision_names_one_agreement (reached : Reachable s) :
    (∀ d ∈ s.delegations.rows,
      (∀ v, (∃ entry, s.agreements.get? (d.id, v) = some entry) ↔
        1 ≤ v ∧ v ≤ d.agreementRevision) ∧
      (∃ entry, s.agreements.get? (d.id, d.agreementRevision) = some entry ∧
        entry.brief = d.brief ∧ entry.structuredInput = d.structuredInput ∧
        entry.inputSource = d.inputSource ∧ entry.dependencies = d.dependencies) ∧
      ∃ task entry, s.tasks.get? d.taskID = some task ∧
        s.agreements.get? (d.id, task.agreementRevision) = some entry ∧
        entry.brief = task.brief ∧ entry.structuredInput = task.structuredInput) ∧
    ∀ t, LeadsTo s t → ∀ k entry, s.agreements.get? k = some entry →
      t.agreements.get? k = some entry := by
  have history := reached.invariant
    (P := fun c => AgreementHistory c.tasks c.delegations c.agreements) (fun _ _ => .empty)
    fun _ _ _ _ _ _ step routed _ inv => step.agreementHistory routed inv
  have wf := reached.wellFormed
  constructor
  · intro d member
    have found := Table.get?_of_mem member
    obtain ⟨entry, recorded, records⟩ := history.current found
    obtain ⟨task, assigned, _⟩ := wf.routed.assigned found
    obtain ⟨given, carried, gives⟩ := history.carried found assigned
    exact ⟨history.revisions found,
      ⟨entry, recorded, records.brief, records.input, records.inputSource, records.dependencies⟩,
      task, given, assigned, carried, gives.brief, gives.input⟩
  · intro t leads k entry recorded
    exact (leads.keeps (P := fun c => c.agreements.get? k = some entry) wf
      (fun step found => step.agreements_kept found) recorded).2

/-- A delegation whose brief was updated once: two records. -/
def amendedDelegation : List Op :=
  launchedDelegation ++
    [sampleUpdate (.updateBrief { sampleBrief with version := 2, goal := "memo" }) 2]

theorem amended_delegation_records :
    ((afterOps amendedDelegation).delegations.get? 3).any (·.agreementRevision = 2) = true ∧
    (∀ d ∈ (afterOps amendedDelegation).delegations.rows,
      (∀ v, (∃ entry, (afterOps amendedDelegation).agreements.get? (d.id, v) = some entry) ↔
        1 ≤ v ∧ v ≤ d.agreementRevision) ∧
      (∃ entry, (afterOps amendedDelegation).agreements.get? (d.id, d.agreementRevision) =
          some entry ∧
        entry.brief = d.brief ∧ entry.structuredInput = d.structuredInput ∧
        entry.inputSource = d.inputSource ∧ entry.dependencies = d.dependencies) ∧
      ∃ task entry, (afterOps amendedDelegation).tasks.get? d.taskID = some task ∧
        (afterOps amendedDelegation).agreements.get? (d.id, task.agreementRevision) = some entry ∧
        entry.brief = task.brief ∧ entry.structuredInput = task.structuredInput) ∧
    ∀ t, LeadsTo (afterOps amendedDelegation) t → ∀ k entry,
      (afterOps amendedDelegation).agreements.get? k = some entry →
      t.agreements.get? k = some entry :=
  ⟨by decide +kernel, revision_names_one_agreement (reachable_afterOps _)⟩

/-! ### Work under an agreement that was left behind -/

variable {op : Op} {claim : Claim} {number : Nat} {callID : Id} {result : ToolResult} {row : RunRow}

/-- What the receipt of a call leaves: the record of that call, and its own event
after the one of a reconciliation it resolves. -/
structure Receipt (claim : Claim) (number : Nat) (callID : Id) (s t : Db) : Prop where
  tasks : t.tasks = s.tasks
  tools : ∀ key, key ≠ (claim.runID, number, callID) → t.tools.get? key = s.tools.get? key
  events : t.events = s.events ∨ ∃ noted : Table Event.key,
    (noted = s.events ∨
      ∃ seq, s.events.insert? ⟨claim.runID, seq, .interaction .resolved⟩ = some noted) ∧
    ∃ seq state, noted.insert? ⟨claim.runID, seq, .tool state⟩ = some t.events

theorem Receipt.refl (s : Db) : Receipt claim number callID s s := ⟨rfl, fun _ _ => rfl, .inl rfl⟩

theorem resolveReconciliation_events {record : ToolExecution} :
    (resolveReconciliation record row).Ensures s (fun v t => v.run.id = row.run.id ∧
      t.tasks = s.tasks ∧ t.tools = s.tools ∧ (t.events = s.events ∨
        ∃ seq, s.events.insert? ⟨row.run.id, seq, .interaction .resolved⟩ = some t.events)) := by
  unfold resolveReconciliation closeRunInteraction
  refine Tx.ensures_ite.mpr ⟨fun _ => ?_, fun _ => by simp⟩
  split
  · simp
  · refine Tx.ensures_ite.mpr ⟨fun _ => ?_, fun _ => by simp⟩
    simp only [wp, ensures_event]
    intro _ _ _ grown inserted
    exact ⟨trivial, trivial, trivial, .inr ⟨_, inserted⟩⟩

theorem finishExecutionToolReceipt_keeps (own : row.run.id = claim.runID) :
    (finishExecutionToolReceipt claim number callID result row).Ensures s
      (fun _ t => Receipt claim number callID s t) := by
  simp only [finishExecutionToolReceipt, wp]
  intro record found
  refine Tx.ensures_ite.mpr ⟨fun _ => Tx.ensures_demand.mpr fun _ => .refl s, fun _ => ?_⟩
  simp only [wp, ensures_writeTool]
  intro _ _
  refine resolveReconciliation_events.mono ?_
  rintro v u ⟨same, tasks, tools, events⟩
  simp only [ensures_event, ensures_saveRun]
  intro grown inserted _ _ _ _ _ _
  rw [same, own] at inserted
  refine ⟨tasks, fun key other => ?_, .inr ⟨u.events, own ▸ events, _, _, inserted⟩⟩
  have key' : record.key = (claim.runID, number, callID) := Table.key_of_get? found
  exact (congrArg (·.get? key) tools).trans (Table.get?_put_of_ne (key' ▸ other))

theorem finishExecutionTool_keeps : (finishExecutionTool claim number callID result).Ensures s
    (fun _ t => Receipt claim number callID s t) := by
  simp only [finishExecutionTool, wp]
  intro _
  refine receiptRow_finds.mono ?_
  rintro row _ ⟨rfl, accepted | interrupted⟩
  · exact finishExecutionToolReceipt_keeps (Table.key_of_get? accepted.found : row.key = _)
  · exact finishExecutionToolReceipt_keeps (Table.key_of_get? interrupted.found : row.key = _)

/-- An operation under a claim the check refuses appends no event, begins no
tool and ends no task; the receipt of an interrupted call keeps to that call. -/
theorem refused_quiet (presents : op.presents = some claim)
    (refused : ∀ row, ¬Accepted s.toCore claim row) :
    ((s.step op).events = s.events ∧ (s.step op).tools = s.tools ∧ (s.step op).tasks = s.tasks) ∨
      ∃ number callID result row, op = .finishExecutionTool claim number callID result ∧
        Interrupted s.toCore claim number callID row ∧
        Receipt claim number callID s (s.step op) := by
  have outcome : Refused s claim op (s.step op) := (exec_refuses presents refused).commit .unchanged
  generalize after : s.step op = u at outcome
  cases outcome with
  | unchanged => exact .inl ⟨rfl, rfl, rfl⟩
  | @heartbeat ttl =>
    have quiet : (exec (.heartbeat claim ttl)).Ensures s (fun _ t => t.events = s.events ∧
        t.tools = s.tools ∧ t.tasks = s.tasks) := by
      simp only [exec, heartbeat, Tx.ensures_seqRight, Tx.ensures_pure, Tx.ensures_bind,
        Tx.ensures_demand, Tx.ensures_read]
      intro _
      split
      · simp
      · simp
    exact .inl (after ▸ quiet.commit ⟨rfl, rfl, rfl⟩)
  | @receipt number callID result _ _ interrupted =>
    have receipt : (exec (.finishExecutionTool claim number callID result)).Ensures s
        (fun _ t => Receipt claim number callID s t) := by
      simp only [exec, wp]
      exact finishExecutionTool_keeps
    exact .inr ⟨_, _, _, _, rfl, interrupted, after ▸ receipt.commit (.refl s)⟩

/-- **Superseded agreements are fenced.**  Once an operation has raised a
delegation's revision, changed its brief's version or replaced its task, the
claim check accepts no claim on a run launched before, ever again; and nothing
presented under such a claim appends an event, touches a tool or ends a task,
except that the receipt of a call that a cancellation interrupted completes that
call and appends its event. -/
theorem superseded_agreement_fenced (reached : Reachable s) {op : Op} {d d' : Delegation}
    (before : s.delegations.get? d.id = some d)
    (after : (s.step op).delegations.get? d.id = some d')
    (changed : d.agreementRevision < d'.agreementRevision ∨ d'.brief.version ≠ d.brief.version ∨
      d'.taskID ≠ d.taskID) {claim : Claim} {row : RunRow} {b : TaskExecution}
    (launched : s.runs.get? claim.runID = some row) (background : row.run.background = some b)
    (belongs : b.delegationID = some d.id) (leads : LeadsTo (s.step op) t) :
    (∀ row', (claimed claim).peek t ≠ .ok row') ∧
      ∀ op', op'.presents = some claim →
        ((t.step op').events = t.events ∧ (t.step op').tools = t.tools ∧
          (t.step op').tasks = t.tasks) ∨
        ∃ number callID result row', op' = .finishExecutionTool claim number callID result ∧
          Interrupted t.toCore claim number callID row' ∧
          Receipt claim number callID t (t.step op') := by
  have wf := reached.wellFormed
  obtain ⟨d'', found, order⟩ := (wf.steps op).agreementOrder before
  rw [after] at found
  cases found
  have raised : d.agreementRevision < d'.agreementRevision := by
    rcases changed with raised | brief | task
    · exact raised
    · have lower := order.revision
      by_contra still
      exact brief (congrArg Brief.version (order.same (by omega)).1)
    · have lower := order.revision
      by_contra still
      exact task (order.same (by omega)).2
  -- No run was ahead of the agreement: its revision is at most its task's, and
  -- that at most the delegation's.
  have older : max 1 b.agreementRevision ≤ d.agreementRevision := by
    obtain ⟨task, named, executes, revision⟩ := wf.routed.run_task launched background
    have positive := wf.routed.positive named
    obtain ⟨e, at_e, newer⟩ := wf.routed.delegated named (executes.delegation ▸ belongs)
    rw [before] at at_e
    cases at_e
    omega
  obtain ⟨row', there', background'⟩ : ∃ row', (s.step op).runs.get? claim.runID = some row' ∧
      row'.run.background = some b := by
    have keeps := wf.steps op
    generalize (s.step op).toCore = u at keeps ⊢
    induction keeps with
    | refl => exact ⟨row, launched, background⟩
    | tail _ step ih =>
      obtain ⟨mid, at_mid, same⟩ := ih
      exact step.runs.keeps (P := fun row => row.run.background = some b)
        (fun _ _ same _ before => same.background.trans before) at_mid same
  have left : LeftBehind (s.step op).toCore claim.runID :=
    ⟨row', b, d.id, d', there', background', belongs, after, by omega⟩
  obtain ⟨_, still⟩ := leads.keeps (P := fun c => LeftBehind c claim.runID) (wf.step op)
    (fun step left => step.leftBehind left) left
  have refused := still.refused
  constructor
  · intro row' accepted
    exact refused row' (accepted_of_claimed accepted)
  · exact fun op' presents => refused_quiet presents refused

/-! The delegated run has begun a call of its host when its brief is replaced.
The update cancels the run; the host's answer arrives afterwards. -/

def begunDelegation : List Op :=
  launchedDelegation ++
    [.executionStep delegatedClaim 0
        { tools := [sampleTool], maxToolCalls := 4, maxParallelTools := 0, payload := 0 },
      .completeExecutionStep delegatedClaim 0
        { finishReason := .toolCalls, content := "", calls := [⟨30, 5, 0, 0⟩]
          usage := ⟨none, none, []⟩ },
      .beginExecutionTool delegatedClaim 0 30 1]

def newBrief : Op :=
  sampleUpdate (.updateBrief { sampleBrief with version := 2, goal := "memo" }) 3

def lateReceipt : Op := .finishExecutionTool delegatedClaim 0 30 ⟨.completed, "", "sent", false⟩

/-- The delegation and the run before the update, and the delegation after. -/
theorem newBrief_raises :
    ∃ d d' row b, (afterOps begunDelegation).delegations.get? d.id = some d ∧
      ((afterOps begunDelegation).step newBrief).delegations.get? d.id = some d' ∧
      d.agreementRevision < d'.agreementRevision ∧
      (afterOps begunDelegation).runs.get? delegatedClaim.runID = some row ∧
      row.run.background = some b ∧ b.delegationID = some d.id := by
  obtain ⟨d, before, d', after, raised⟩ : ∃ d,
      (afterOps begunDelegation).delegations.get? 3 = some d ∧
      ∃ d', ((afterOps begunDelegation).step newBrief).delegations.get? 3 = some d' ∧
        d.agreementRevision < d'.agreementRevision := by decide +kernel
  obtain ⟨row, found, b, background, belongs⟩ : ∃ row,
      (afterOps begunDelegation).runs.get? delegatedClaim.runID = some row ∧
      ∃ b, row.run.background = some b ∧ b.delegationID = some 3 := by decide +kernel
  have named : d.id = 3 := Table.key_of_get? before
  rw [← named] at before after belongs
  exact ⟨d, d', row, b, before, after, raised, found, background, belongs⟩

/-- The late receipt completes the call and appends an event. -/
theorem late_receipt_appends :
    ∃ s d d' row b, Reachable s ∧ s.delegations.get? d.id = some d ∧
      (s.step newBrief).delegations.get? d.id = some d' ∧
      d.agreementRevision < d'.agreementRevision ∧
      s.runs.get? delegatedClaim.runID = some row ∧ row.run.background = some b ∧
      b.delegationID = some d.id ∧ lateReceipt.presents = some delegatedClaim ∧
      ((s.step newBrief).step lateReceipt).events ≠ (s.step newBrief).events := by
  obtain ⟨d, d', row, b, before, after, raised, found, background, belongs⟩ := newBrief_raises
  refine ⟨afterOps begunDelegation, d, d', row, b, reachable_afterOps _, before, after, raised,
    found, background, belongs, rfl, ?_⟩
  intro same
  have longer : (((afterOps begunDelegation).step newBrief).step lateReceipt).events.rows.length ≠
      ((afterOps begunDelegation).step newBrief).events.rows.length := by decide +kernel
  exact longer (by rw [same])

/-- After the new brief no later claim check accepts the delegated run. -/
theorem new_brief_fences_run :
    (∃ row, (claimed delegatedClaim).peek (afterOps begunDelegation) = .ok row) ∧
      ∀ t, LeadsTo ((afterOps begunDelegation).step newBrief) t →
        (∀ row, (claimed delegatedClaim).peek t ≠ .ok row) ∧
        ∀ op', op'.presents = some delegatedClaim →
          ((t.step op').events = t.events ∧ (t.step op').tools = t.tools ∧
            (t.step op').tasks = t.tasks) ∨
          ∃ number callID result row',
            op' = .finishExecutionTool delegatedClaim number callID result ∧
            Interrupted t.toCore delegatedClaim number callID row' ∧
            Receipt delegatedClaim number callID t (t.step op') := by
  constructor
  · have accepted : ((claimed delegatedClaim).peek (afterOps begunDelegation)).isOk = true := by
      decide +kernel
    cases check : (claimed delegatedClaim).peek (afterOps begunDelegation) with
    | ok row => exact ⟨row, rfl⟩
    | error e => simp [check, Except.isOk, Except.toBool] at accepted
  · intro t leads
    obtain ⟨d, d', row, b, before, after, raised, found, background, belongs⟩ := newBrief_raises
    exact superseded_agreement_fenced (reachable_afterOps _) before after (.inl raised) found
      background belongs leads

end DomainryAgent
