import DomainryAgent.Lib.Search
import DomainryAgent.Refinement.Ledgers

/-!
The operations of a worker on its run follow the protocol: steps, tool calls
and their receipts, and the tools the store runs itself.

Whatever they record about a call keeps the call's identity (`ToolsKept`), and
whatever they write on the run is a touch (`Noted`).
-/

namespace DomainryAgent.Refinement

open Lib Tx Table Protocol

variable {allowed : Hazard → Prop} {s : Db}

/-! ### Steps -/

variable {run : Run} {claim : Claim} {number : Nat} {input : StepRequest} {row : RunRow}
  {result : StepResult} {step : ExecutionStep} {callID : Id} {call : ToolCall}
  {definition : ToolDefinition}

variable {a : Authority} {ids : List PeerMessageID} {t : Db} {record : ToolExecution} {width : Nat}
  {calls : List ToolCall} {request : ToolRequest} {prepared : Plan} {update : PlanUpdate}
  {task : Task} {submit : CompletionSubmit} {effect : DelegationEffect} {delegationID : Id}

theorem recordAgreementAdoption_touches :
    (recordAgreementAdoption run a).Ensures s (fun _ s' => ∃ delegations,
      Touched s.runs s.delegations delegations ∧ s' = { s with delegations := delegations }) := by
  unfold recordAgreementAdoption
  split
  · rw [ensures_pure]
    exact ⟨s.delegations, .none, rfl⟩
  · simp only [wp, ensures_conversationDelegation, ensures_onlyIf,
      ensures_saveConversationDelegation]
    intro d visible _
    refine ⟨fun _ _ _ _ _ => ?_, fun _ => ⟨s.delegations, .none, rfl⟩⟩
    have found := get?_key (get?_of_conversationDelegation visible)
    refine ⟨s.delegations.put { d with
        adoptedAgreementRevision := d.agreementRevision, revision := d.revision + 1 },
      .one found ⟨rfl, rfl, rfl, rfl, rfl, rfl⟩ ⟨rfl, rfl⟩ ⟨rfl, rfl, rfl, rfl, rfl⟩ .inl
        fun current accepted => ?_, rfl⟩
    obtain ⟨delivery, settled, agreed⟩ := current accepted
    exact ⟨delivery, settled, agreed⟩

theorem previousStepDone_done (passed : previousStepDone s claim number = .ok ()) :
    PreviousDone s.toCore claim.runID number := by
  rintro k rfl
  simp only [previousStepDone] at passed
  split at passed
  · cases passed
  · next result recorded =>
    split at passed
    · cases passed
    · next asked =>
      split at passed
      · next completed =>
        obtain ⟨step, found, has⟩ := Option.bind_eq_some_iff.mp recorded
        refine ⟨step, result, found, has, not_not.mp asked, fun call member => ?_⟩
        have done := List.all_eq_true.mp completed call member
        obtain ⟨record, stored, state⟩ := Option.any_eq_true _ _ |>.mp done
        exact ⟨record, stored, beq_iff_eq.mp state⟩
      · cases passed

theorem consumeInbox_takes {seen : List PeerMessageID} :
    (consumeInbox claim number ids seen).Ensures s (fun _ s' => ∃ messages,
      InboxTaken s.toCore claim number ids s.peerMessages messages ∧
        s' = { s with peerMessages := messages }) := by
  induction ids generalizing s seen with
  | nil => exact ensures_pure.mpr ⟨s.peerMessages, .nil, rfl⟩
  | cons id rest ih =>
    simp only [consumeInbox, consumePeerMessage, wp, (readOnly_peerMessageReady _ _).ensures,
      Option.filter_eq_some_iff, decide_eq_true_eq]
    rintro _ m ⟨found, _, here, pending⟩ _ ready ⟨rfl, apart⟩
    have deliverable : Deliverable s.toCore m :=
      (peerMessageReady_delivers.peek (readOnly_peerMessageReady _ _) ready).2 rfl
    refine ih.mono ?_
    rintro _ _ ⟨messages, taken, rfl⟩
    have named : m.id = id := key_of_get? found
    subst named
    exact ⟨messages, .cons found pending deliverable apart here (taken.transfer rfl rfl), rfl⟩

/-- What opening a step leaves: the store as it was, or the step with the
messages it takes, under the agreement it adopts. -/
inductive StepOpened (s : Db) (claim : Claim) (number : Nat) (input : StepRequest) (t : Db) : Prop
  | again (unchanged : t = s)
  | opened {row v : RunRow} {steps : Table ExecutionStep.key} {messages : Table PeerMessage.id}
      {delegations : Table Delegation.id} (accepted : Accepted s.toCore claim row)
      (previous : PreviousDone s.toCore claim.runID number)
      (taken : InboxTaken s.toCore claim number input.inbox s.peerMessages messages)
      (inserted : s.steps.insert?
        { runID := claim.runID, number := number, input := input, result := none } = some steps)
      (adopted : Touched s.runs s.delegations delegations) (noted : Noted row v)
      (core : t.toCore = { s.toCore with
        steps := steps, peerMessages := messages, delegations := delegations
        runs := s.runs.put v })

theorem executionStep_opens : (executionStep claim number input).Ensures s
      (fun _ t => StepOpened s claim number input t) := by
  simp only [executionStep, wp, ensures_claimed]
  intro _ row checked
  have accepted := accepted_of_claimed checked
  split
  · exact ensures_demand.mpr (fun _ => .again rfl)
  · simp only [consumeConversationPeerInbox, wp]
    intro _ _ done _
    refine consumeInbox_takes.mono ?_
    rintro _ _ ⟨messages, taken, rfl⟩
    refine recordAgreementAdoption_touches.mono ?_
    rintro _ _ ⟨delegations, adopted, rfl⟩
    simp only [ensures_insertRow, ensures_event, ensures_saveRun]
    intro steps inserted _ _ _ _ _ _ _ _
    exact .opened accepted (previousStepDone_done done) taken inserted adopted (.event row) rfl

theorem StepOpened.moves (opened : StepOpened s claim number input t) (worker : allowed .opens)
    (acts : allowed (.acts claim.runID)) : Moves allowed s.toCore t.toCore := by
  cases opened with
  | again unchanged => exact unchanged ▸ .refl
  | @opened row v steps messages delegations accepted previous taken inserted adopted noted core =>
    rw [core]
    have opens : Move allowed s.toCore { s.toCore with steps := steps, peerMessages := messages } :=
      .steps (.opens accepted rfl rfl previous inserted taken worker acts)
    have adopts : Moves allowed { s.toCore with steps := steps, peerMessages := messages }
        { s.toCore with steps := steps, peerMessages := messages, delegations := delegations } :=
      Touched.moves (s := { s.toCore with steps := steps, peerMessages := messages }) adopted
    exact .head opens (adopts.trans (noted.moves (get?_key accepted.found)))

/-! ### Results of steps -/

theorem chargeStep_draws (allowed : Hazard → Prop) {step : Nat}
    (accepted : Accepted s.toCore claim row) (completing : completes s claim step = true)
    (reserved : row.run.delegated ≠ none →
      HoldsReservation s.toCore claim step ∨ allowed .unreserved) :
    (chargeStep row claim step result).Ensures s (fun _ s' => ∃ ledgers,
      (row.run.delegated = none ∧ ledgers = s.ledgers ∨
        Drawn allowed s.toCore claim (workEvents s (.completeExecutionStep claim step result))
          ledgers) ∧ s' = { s with ledgers := ledgers }) := by
  unfold chargeStep
  split
  · next alone =>
    rw [ensures_pure]
    exact ⟨s.ledgers, .inl ⟨alone, rfl⟩, rfl⟩
  · next delegated =>
    refine (completeConversationWorkStep_draws accepted completing
      (reserved (by rw [delegated]; exact Option.some_ne_none _))).mono ?_
    rintro _ _ ⟨ledgers, drawn, rfl⟩
    exact ⟨ledgers, .inr drawn, rfl⟩

/-- What a completion leaves: the store as it was, or the step with its result
and the ledger of its root charged. -/
inductive StepCompleted (allowed : Hazard → Prop) (s : Db) (claim : Claim) (number : Nat)
    (result : StepResult) (t : Db) : Prop
  | again (earlier : completes s claim number = false) (unchanged : t = s)
  | recorded {row v : RunRow} {step : ExecutionStep} {ledgers : Table WorkLedger.key}
      (accepted : Accepted s.toCore claim row) (found : readExecutionStep s claim number = some step)
      (missing : step.result = none) (valid : validateExecutionResult step result = true)
      (drawn : row.run.delegated = none ∧ ledgers = s.ledgers ∨
        Drawn allowed s.toCore claim (workEvents s (.completeExecutionStep claim number result))
          ledgers)
      (noted : Noted row v)
      (core : t.toCore = { s.toCore with
        ledgers := ledgers, steps := s.steps.put { step with result := some result }
        runs := s.runs.put v })

theorem completeExecutionStep_completes
    (reserved : ∀ row, s.runs.get? claim.runID = some row → row.run.delegated ≠ none →
      completes s claim number = true →
        HoldsReservation s.toCore claim number ∨ allowed .unreserved) :
    (completeExecutionStep claim number result).Ensures s
      (fun _ t => StepCompleted allowed s claim number result t) := by
  simp only [completeExecutionStep, wp, ensures_claimed]
  intro row checked step found
  have accepted := accepted_of_claimed checked
  split
  · next earlier has =>
    exact ensures_demand.mpr (fun _ => .again (by simp [completes, found, has]) rfl)
  · next missing =>
    simp only [ensures_bind, ensures_demand]
    intro valid
    have completing : completes s claim number = true := by simp [completes, found, missing]
    refine (chargeStep_draws allowed accepted completing fun delegated =>
      reserved row accepted.found delegated completing).mono ?_
    rintro _ _ ⟨ledgers, drawn, rfl⟩
    simp only [wp, ensures_event, ensures_saveRun]
    intro _ _ _ _ _ _ _ _
    exact .recorded accepted found missing valid drawn (.event row) rfl

/-- The result a worker records for a step. -/
theorem completes_move {s : Core} (accepted : Accepted s claim row)
    (found : s.steps.get? (claim.runID, number) = some step) (missing : step.result = none)
    (valid : validateExecutionResult step result = true) (acts : allowed (.acts claim.runID)) :
    Move allowed s { s with steps := s.steps.put { step with result := some result } } := by
  have key : step.key = (claim.runID, number) := key_of_get? found
  have run : step.runID = claim.runID := congrArg Prod.fst key
  exact .steps (.completes accepted run (get?_key found) missing valid (run ▸ acts))

theorem StepCompleted.moves (completed : StepCompleted allowed s claim number result t)
    (draws : allowed .draw) (acts : allowed (.acts claim.runID)) :
    Moves allowed s.toCore t.toCore := by
  cases completed with
  | again _ unchanged => exact unchanged ▸ .refl
  | @recorded row v step ledgers accepted found missing valid drawn noted core =>
    rw [core]
    have charged : Moves allowed s.toCore { s.toCore with ledgers := ledgers } := by
      rcases drawn with ⟨_, rfl⟩ | drawn
      · exact .refl
      · exact drawn.moves draws
    refine .trans charged (.head (completes_move (accepted.with_ledgers ledgers) found missing
      valid acts) ?_)
    exact noted.moves (get?_key accepted.found)

/-! ### Tool calls -/

theorem ensures_insertTool {Q : Unit → Db → Prop} : (insertTool record).Ensures s Q ↔
      ∀ grown, s.tools.insert? record = some grown → Q () { s with tools := grown } := by
  simp [insertTool]

/-- A tool record and an event. -/
theorem tools_noted {s : Core} {tools : Table ToolExecution.key} {v : RunRow}
    (change : ToolChange allowed s tools) (found : s.runs.get? row.run.id = some row)
    (noted : Noted row v) : Moves allowed s { s with tools := tools, runs := s.runs.put v } :=
  .head (.tools change) (noted.moves found)

theorem prepareExecutionSubtool_follows {input : Subtool}
    (worker : allowed (.reserves input.maxCalls)) (acts : allowed (.acts claim.runID)) :
    Follows allowed (prepareExecutionSubtool claim number input) s := by
  simp only [prepareExecutionSubtool, wp, ensures_claimed]
  rintro _ row checked ⟨step, result⟩ _ parent program ⟨_, _, running⟩ _
  split
  · simp only [wp]
    exact fun _ => .refl
  · simp only [reserveSubtool, wp, ensures_insertTool, ensures_event, ensures_saveRun]
    intro order room tools inserted _ _ _ _ _ _ _ _
    have accepted := accepted_of_claimed checked
    have change : ToolChange allowed s.toCore tools := by
      refine .reserve accepted ?_ ?_ running ?_ order room ?_ ?_ ?_ inserted worker acts
      · rfl
      · exact program
      all_goals rfl
    exact tools_noted change (get?_key accepted.found) (.event row)

/-- What the beginning of a call answers: the record it leaves, and whether the
call had been started before. -/
structure Begun (s t : Core) (claim : Claim) (number : Nat) (callID : Id)
    (record : ToolExecution) (replayed : Bool) : Prop where
  stored : t.tools.get? (claim.runID, number, callID) = some record
  started : replayed = false → record.state ≠ .queued
  fresh : replayed = false → ∀ old, s.tools.get? (claim.runID, number, callID) = some old →
    old.state = .queued

theorem beginExecutionSubtool_begins (acts : allowed (.acts claim.runID)) :
    (beginExecutionSubtool claim number callID).Ensures s (fun out s' =>
      Moves allowed s.toCore s'.toCore ∧
        Begun s.toCore s'.toCore claim number callID out.1 out.2) := by
  simp only [beginExecutionSubtool, wp, ensures_claimed]
  intro row checked record found _
  replace found : s.tools.get? (claim.runID, number, callID) = some record := found
  refine ensures_ite.mpr ⟨fun _ => ?_, fun isOpen => ?_⟩
  · rw [ensures_pure]
    exact ⟨.refl, found, by simp, by simp⟩
  · simp only [wp, ensures_writeTool, ensures_event, ensures_saveRun]
    intro _ _ _ _ _ _ _ _
    have key : record.key = (claim.runID, number, callID) := key_of_get? found
    have accepted := accepted_of_claimed checked
    have run : record.runID = claim.runID := congrArg Prod.fst key
    refine ⟨tools_noted (.take accepted run (get?_key found) isOpen (.inr rfl) (run ▸ acts))
      (get?_key accepted.found) (.event row), get?_put_at found rfl,
      fun _ => (begunCall_same record claim).2, ?_⟩
    intro fresh old there
    rw [found] at there
    cases there
    simpa using fresh

theorem selectedCall_asked (selected : selectedCall s claim number callID width calls = .ok call) :
    call.id = callID ∧ call ∈ calls := by
  unfold selectedCall at selected
  split at selected
  · cases selected
  · next found =>
    dsimp only at selected
    split at selected
    · cases selected
      exact ⟨by simpa using List.find?_some found, List.mem_of_find?_eq_some found⟩
    · cases selected

/-- A ready step has a result. -/
theorem readyStep_answered (ready : readyStep s claim number = .ok (step, result)) :
    s.steps.get? (claim.runID, number) = some step ∧ step.result = some result := by
  unfold readyStep at ready
  split at ready
  · cases ready
  · next found =>
    split at ready
    · cases ready
    · next answered =>
      split at ready
      · cases ready
        exact ⟨found, answered⟩
      · cases ready

theorem beginExecutionTool_begins (worker : allowed .starts) (acts : allowed (.acts claim.runID)) :
    (beginExecutionTool claim number callID width).Ensures s (fun out s' =>
      Moves allowed s.toCore s'.toCore ∧
        Begun s.toCore s'.toCore claim number callID out.1 out.2) := by
  simp only [beginExecutionTool, wp, ensures_claimed]
  rintro row checked ⟨step, result⟩ ready call selected
  have accepted := accepted_of_claimed checked
  have here := get?_key accepted.found
  split
  · next record found =>
    replace found : s.tools.get? (claim.runID, number, callID) = some record := found
    refine ensures_ite.mpr ⟨fun _ => ?_, fun isOpen => ?_⟩
    · rw [ensures_pure]
      exact ⟨.refl, found, by simp, by simp⟩
    · simp only [wp, ensures_writeTool, ensures_event, ensures_saveRun]
      intro _ _ _ _ _ _ _ _
      have key : record.key = (claim.runID, number, callID) := key_of_get? found
      have run : record.runID = claim.runID := congrArg Prod.fst key
      exact ⟨tools_noted (.take accepted run (get?_key found) isOpen (.inl rfl) (run ▸ acts)) here
        (.event row), get?_put_at found rfl, by simp, by simp⟩
  · next missing =>
    replace missing : s.tools.get? (claim.runID, number, callID) = none := missing
    simp only [startTool, wp, ensures_insertTool, ensures_event, ensures_saveRun]
    intro definition _ tools inserted _ _ _ _ _ _ _ _
    obtain ⟨named, asked⟩ := selectedCall_asked selected
    obtain ⟨found, answered⟩ := readyStep_answered ready
    refine ⟨tools_noted (.start accepted rfl found answered asked rfl rfl rfl rfl inserted worker
      acts) here (.event row), ?_, by rintro _ ⟨⟩, ?_⟩
    · have stored := get?_insert?_self inserted
      rw [← named]
      exact stored
    · intro _ old there
      rw [missing] at there
      cases there

/-! ### Receipts -/

/-- The run a cancellation took from a claim while it held a call. -/
structure Interrupted (s : Core) (claim : Claim) (number : Nat) (callID : Id) (row : RunRow) :
    Prop where
  found : s.runs.get? claim.runID = some row
  cancelled : row.run.status = .cancelled
  owner : row.owner = none
  fence : row.fence = claim.fence + 1
  held : ∃ call, s.tools.get? (claim.runID, number, callID) = some call ∧
    call.leaseOwner = some claim.owner ∧ call.fence = claim.fence

theorem receiptRow_finds : (receiptRow claim number callID).Ensures s (fun row s' => s' = s ∧
      (Accepted s.toCore claim row ∨ Interrupted s.toCore claim number callID row)) := by
  simp only [receiptRow, ensures_bind, ensures_attempt, ensures_claimed]
  refine ⟨fun row checked => ?_, fun _ _ => ?_⟩
  · rw [ensures_pure]
    exact ⟨rfl, .inl (accepted_of_claimed checked)⟩
  · simp only [cancelledToolReceiptRow, wp, ensures_runRow]
    rintro row found _ _ ⟨cancelled, owner, _, fence⟩ call held ⟨lease, at_fence⟩
    exact ⟨trivial, .inr ⟨found, cancelled, owner, fence, call, held, lease, at_fence⟩⟩

theorem resolveReconciliation_noted : (resolveReconciliation record row).Ensures s
      (fun v s' => s'.toCore = s.toCore ∧ Noted row v) := by
  unfold resolveReconciliation
  refine ensures_ite.mpr ⟨fun _ => closeRunInteraction_noted, fun _ => ?_⟩
  rw [ensures_pure]
  exact ⟨rfl, .refl row⟩

/-- A receipt is repeated, or it is written on a record that is not completed. -/
theorem finishExecutionToolReceipt_receives {result : ToolResult} :
    (finishExecutionToolReceipt claim number callID result row).Ensures s (fun _ s' =>
      ∃ record, s.tools.get? (claim.runID, number, callID) = some record ∧
        (record.state = .completed ∧ s' = s ∨ record.state ≠ .completed ∧ ∃ v, Noted row v ∧
          s'.toCore = { s.toCore with
            tools := s.tools.put (receivedCall record result), runs := s.runs.put v })) := by
  simp only [finishExecutionToolReceipt, wp]
  intro record found
  replace found : s.tools.get? (claim.runID, number, callID) = some record := found
  refine ensures_ite.mpr ⟨fun completed => ensures_demand.mpr (fun _ =>
    ⟨record, found, .inl ⟨completed, rfl⟩⟩), fun isOpen => ?_⟩
  simp only [wp, ensures_writeTool]
  intro _ _
  refine resolveReconciliation_noted.mono ?_
  rintro v s₁ ⟨core₁, noted⟩
  simp only [ensures_event, ensures_saveRun]
  intro _ _ _ _ _ _ _ _
  refine ⟨record, found, .inr ⟨isOpen, _, noted.trans (.event v), ?_⟩⟩
  exact congrArg (fun core : Core => { core with
    runs := core.runs.put { v with eventSeq := v.eventSeq + 1 } }) core₁

theorem finishExecutionToolReceipt_follows {result : ToolResult}
    (here : s.runs.get? row.run.id = some row)
    (acts : allowed (.acts claim.runID) ∨ allowed (.inspects claim.runID)) :
    Follows allowed (finishExecutionToolReceipt claim number callID result row) s := by
  refine finishExecutionToolReceipt_receives.mono ?_
  rintro _ t ⟨record, found, ⟨_, rfl⟩ | ⟨isOpen, v, noted, core⟩⟩
  · exact .refl
  · rw [core]
    have key : record.key = (claim.runID, number, callID) := key_of_get? found
    have run : record.runID = claim.runID := congrArg Prod.fst key
    exact tools_noted (.receive (get?_key found) isOpen (run ▸ acts)) here noted

theorem finishExecutionTool_follows {result : ToolResult} (acts : allowed (.acts claim.runID)) :
    Follows allowed (finishExecutionTool claim number callID result) s := by
  simp only [finishExecutionTool, wp]
  intro _
  refine receiptRow_finds.mono ?_
  rintro row _ ⟨rfl, accepted | interrupted⟩
  · exact finishExecutionToolReceipt_follows (get?_key accepted.found) (.inl acts)
  · exact finishExecutionToolReceipt_follows (get?_key interrupted.found) (.inl acts)

/-! ### Tools the store runs itself -/

theorem recordLocalOutcome_follows {outcome : Except Error ToolResult}
    (acts : allowed (.acts request.claim.runID)) :
    Follows allowed (recordLocalOutcome request outcome) s := by
  simp only [recordLocalOutcome, wp, ensures_claimed]
  intro result _ row checked
  exact finishExecutionToolReceipt_follows (get?_key (accepted_of_claimed checked).found)
    (.inl acts)

theorem applyLocalTool_follows {kind : ToolKind} {apply : StoreTx ToolResult}
    (applies : Follows allowed apply s) (acts : allowed (.acts request.claim.runID)) :
    Follows allowed (applyLocalTool request kind apply) s := by
  simp only [applyLocalTool, wp, ensures_conversationAuthority, ensures_claimed]
  intro _ _ _ _ _ _ _
  refine ensures_ite.mpr ⟨fun _ => ensures_pure.mpr .refl, fun _ => ?_⟩
  rw [ensures_bind, ensures_attempt]
  constructor
  · refine applies.mono ?_
    intro _ t applied
    exact (recordLocalOutcome_follows acts).mono (fun _ _ => applied.trans)
  · intro _ _
    exact recordLocalOutcome_follows acts

theorem startBackgroundTask_follows {start : TaskStart} :
    Follows allowed (startBackgroundTask claim start) s := by
  simp only [startBackgroundTask, wp, ensures_runRow, ensures_checkConversationQueueCapacity,
    ensures_insertTask]
  intro _ row _ _ _ _ _ passed grown inserted
  exact .single (.newTask rfl rfl rfl rfl rfl inserted (queueRoom_of_check passed) rfl rfl rfl)

/-- What an admitted plan update is: the next version of the task's plan. -/
theorem checkPlanUpdate_next (checked : checkPlanUpdate prepared update task run = .ok ()) :
    task.status = .running ∧
      PlanNext task.id task.plan ⟨prepared, .update update.clientID⟩ := by
  obtain ⟨current, checked⟩ := except_ite_ok checked
  obtain ⟨matches_update, checked⟩ := except_ite_ok checked
  obtain ⟨valid, checked⟩ := except_ite_ok checked
  obtain ⟨keeps, _⟩ := except_ite_ok checked
  obtain ⟨running, _, _, version, _, named⟩ := not_not.mp current
  refine ⟨running, .update named ?_ (by simpa using valid) (by simpa using keeps)⟩
  simp only [planMatchesUpdate, Bool.not_eq_false, Bool.and_eq_true, beq_iff_eq] at matches_update
  rw [version]
  exact matches_update.1.1.1.1.2

theorem updatePlan_follows : Follows allowed (updatePlan claim update prepared) s := by
  simp only [updatePlan, wp, ensures_runRow, ensures_taskRow, insertConversationTaskPlan,
    ensures_insertRow, ensures_saveTask]
  intro row _ _ _ background _ _ task named _ _ checked grown inserted _ _ _
  obtain ⟨_, next⟩ := checkPlanUpdate_next checked
  exact .single (.planTask (get?_key named) next inserted)

theorem submitCompletion_follows {prepared : CompletionRecord} {judgment : CompletionJudgment} :
    Follows allowed (submitCompletion claim submit prepared judgment) s := by
  simp only [submitCompletion, wp, ensures_runRow, ensures_taskRow, ensures_saveTask,
    ensures_insertTaskCompletion]
  intro row _ _ _ background _ _ task named _ current verification _ _ _ _ _ grown inserted
  -- It is the next completion of a running task.
  simp only [submissionCurrent, taskCompletionMatchesSubmit, Bool.and_eq_true, decide_eq_true_eq,
    beq_iff_eq] at current
  obtain ⟨⟨⟨running, _, _, _, _, _, revision, _⟩, payload⟩, _⟩ := current
  refine .single (.submit (get?_key named) running rfl ?_ inserted)
  rw [revision]
  exact payload.1.1.1.1.1.1.1

/-! ### Effects of an earlier assignment -/

theorem reuseSelected_asked (selected : reuseSelected s claim number call calls = .ok ()) :
    call ∈ calls := by
  unfold reuseSelected at selected
  split at selected
  · cases selected
  · split at selected
    · next found => exact List.mem_of_find?_eq_some found
    · cases selected

theorem reuseEffect_follows (worker : allowed .starts) (acts : allowed (.acts claim.runID))
    (accepted : Accepted s.toCore claim row) :
    Follows allowed (reuseEffect claim number call definition effect delegationID row) s := by
  simp only [reuseEffect, reusableEffect, wp, ensures_conversationDelegation, ensures_runRow]
  rintro _ _ _ _ _ _ _ _ _ original stored ⟨completed, known⟩ _ _ ⟨step, asked⟩ ready _ selected _
  split
  · simp only [wp]
    exact fun _ _ => .refl
  · obtain ⟨found, answered⟩ := readyStep_answered ready
    simp only [recordReuse, wp, ensures_insertTool]
    intro tools inserted
    refine finishExecutionToolReceipt_receives.mono ?_
    rintro _ t ⟨record, there, received⟩
    have same := (get?_insert?_self inserted).symm.trans there
    cases same
    rcases received with ⟨state, _⟩ | ⟨_, v, noted, core⟩
    · cases state
    · simp only [ensures_runRow, ensures_event, ensures_saveRun]
      intro row' found' _ _ _ _ _ _ _ _ _ _
      have reused := insert?_put (w := receivedCall { newToolExecution claim number call
        original.definition .started with
          idempotencyKey := original.idempotencyKey, reusedFrom := some original.key }
        effect.receipt) inserted rfl
      have change : ToolChange allowed s.toCore _ :=
        .reuse accepted rfl found answered (reuseSelected_asked selected) rfl (get?_key stored)
          completed known reused worker acts
      have moves := tools_noted change (get?_key accepted.found) noted
      exact .trans (core ▸ moves) ((Noted.event row').moves (get?_key found'))

theorem reuseConversationDelegationEffect_follows (worker : allowed .starts)
    (acts : allowed (.acts claim.runID)) :
    Follows allowed (reuseConversationDelegationEffect claim number call definition) s := by
  simp only [reuseConversationDelegationEffect, wp, ensures_claimed]
  intro row checked
  split
  · exact ensures_pure.mpr .refl
  · split
    · exact ensures_pure.mpr .refl
    · refine ensures_ite.mpr ⟨fun _ => ensures_pure.mpr .refl, fun _ => ?_⟩
      rw [ensures_map]
      exact reuseEffect_follows worker acts (accepted_of_claimed checked)

/-! ### Inspecting an outcome -/

theorem ensures_setInspection {inspection : ToolInspection} {Q : Unit → Db → Prop} :
    (setInspection inspection).Ensures s Q ↔
      Q () { s with inspections := s.inspections.upsert inspection } := by
  simp [setInspection]

variable {a : Authority} {call : ToolExecution}

theorem openInspection_follows {clientID token : Id} (here : s.runs.get? row.run.id = some row) :
    Follows allowed (openInspection call row clientID token a) s := by
  simp only [openInspection, wp]
  split
  · simp only [wp]
    exact fun _ => .refl
  · simp only [wp, ensures_setInspection, ensures_event, ensures_saveRun]
    intro _ _ _ _ _ _ _ _
    exact (Noted.event row).moves here

theorem beginConversationOutcomeInspection_follows {id runID callID clientID token : Id}
    {revision : Nat} :
    Follows allowed
      (beginConversationOutcomeInspection id revision runID number callID clientID token a) s := by
  simp only [beginConversationOutcomeInspection, wp, ensures_conversationAuthority,
    ensures_conversationDelegation, ensures_runRow]
  intro _ _ d _ _ row found _ _ _ _ call _ _
  refine ensures_ite.mpr ⟨fun _ => ensures_pure.mpr .refl, fun _ => ?_⟩
  simp only [wp]
  exact openInspection_follows (get?_key found)

theorem receiveInspected_follows {result : ToolResult} (here : s.runs.get? row.run.id = some row)
    (inspects : allowed (.inspects row.run.id)) :
    (receiveInspected call result row a).Ensures s (fun received t =>
      Moves allowed s.toCore t.toCore ∧ t.runs.get? received.1.run.id = some received.1) := by
  refine ensures_ite.mpr ⟨fun _ => ensures_pure.mpr ⟨.refl, here⟩, fun _ => ?_⟩
  simp only [wp]
  refine (finishExecutionToolReceipt_follows here (.inr inspects)).mono fun _ t moves => ?_
  simp only [ensures_runRow]
  exact fun _ found _ _ => ⟨moves, get?_key found⟩

theorem finishConversationOutcomeInspection_follows {request : InspectionRequest}
    {result : ToolResult} (inspects : allowed (.inspects request.runID)) :
    Follows allowed (finishConversationOutcomeInspection request result a) s := by
  simp only [finishConversationOutcomeInspection, inspectionRow, wp, ensures_runRow]
  intro _ _ row found _ _ _ call _ inspection _ _
  refine ensures_ite.mpr ⟨fun _ => ensures_pure.mpr .refl, fun _ => ?_⟩
  have run : row.key = request.runID := key_of_get? found
  simp only [wp]
  refine (receiveInspected_follows (get?_key found) (run ▸ inspects)).mono ?_
  rintro ⟨row, state⟩ t ⟨moves, here⟩
  simp only [ensures_setInspection, ensures_event, ensures_saveRun]
  intro _ _ _ _ _ _ _ _
  exact moves.trans ((Noted.event row).moves here)

end DomainryAgent.Refinement
