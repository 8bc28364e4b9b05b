import DomainryAgent.Refinement.Runs

/-!
The operations on background tasks follow the protocol: acceptance adds a
queued task, a launch names its run on the task in the same transaction, and
every other edit is of a task that nothing executes.
-/

namespace DomainryAgent.Refinement

open Lib Tx Table Protocol

variable {allowed : Hazard → Prop} {s : Db}

/-! ### Acceptance -/

variable {task : Task} {start : TaskStart} {a : Authority} {taskID runID runtimeID id : Id}
  {c : Conversation} {d : Option Delegation}

theorem ensures_insertTask {Q : Unit → Db → Prop} : (insertTask task).Ensures s Q ↔
      ∀ grown, s.tasks.insert? task = some grown → Q () { s with tasks := grown } := by
  simp [insertTask]

theorem acceptConversationTask_follows {origin : TaskOrigin} {code : String} :
    Follows allowed (acceptConversationTask start origin code a) s := by
  simp only [acceptConversationTask, wp]
  split
  · simp only [wp]
    exact fun _ => .refl
  · simp only [wp, ensures_checkConversationQueueCapacity, ensures_insertTask]
    intro passed grown inserted
    exact .single (.newTask rfl rfl rfl rfl rfl inserted (queueRoom_of_check passed) rfl rfl rfl)

theorem readOnly_checkSourceRun (id : Id) (runID : Option Id) (a : Authority) :
    (checkSourceRun id runID a).ReadOnly := by
  intro s
  unfold checkSourceRun
  split
  · simp
  · simp

theorem acceptScheduledConversationTask_follows :
    Follows allowed (acceptScheduledConversationTask start a) s := by
  simp only [acceptScheduledConversationTask, wp, ensures_getConversation,
    (readOnly_checkSourceRun _ _ _).ensures]
  intro _ _ _ _ _ _
  exact acceptConversationTask_follows

theorem readOnly_checkRelatedTask (start : TaskStart) (id : Option Id) (a : Authority) :
    (checkRelatedTask start id a).ReadOnly := by
  intro s
  unfold checkRelatedTask
  split
  · simp
  · simp

theorem acceptBusinessEventConversationTask_follows {related : Option Id} :
    Follows allowed (acceptBusinessEventConversationTask start related a) s := by
  simp only [acceptBusinessEventConversationTask, wp, ensures_getConversation,
    (readOnly_checkRelatedTask _ _ _).ensures]
  intro _ _ _ _ _ _ _ _
  exact acceptConversationTask_follows

/-! ### Edits of a task that nothing executes -/

/-- Keeping the run a task had changes the list of its previous runs only, and a
task that is then taken off the run loses none. -/
theorem appendConversationTaskPreviousRun_eq (task : Task) : ∃ runs,
    appendConversationTaskPreviousRun task = { task with previousExecutionRuns := runs } ∧
      ∀ next : Task, next.executionRunID = none → next.previousExecutionRuns = runs →
        RunsKept task next := by
  unfold appendConversationTaskPreviousRun
  split
  · next unnamed => exact ⟨_, rfl, fun _ cleared same => .same (cleared.trans unnamed.symm) same⟩
  · next runID named =>
    split
    · next known =>
      refine ⟨_, rfl, fun _ cleared same => .archived named cleared ?_⟩
      rw [if_pos known, same]
    · next unknown =>
      refine ⟨_, rfl, fun _ cleared same => .archived named cleared ?_⟩
      rw [if_neg unknown, same]

theorem resumeQueuedConversationTask_follows :
    Follows allowed (resumeQueuedConversationTask taskID a) s := by
  simp only [resumeQueuedConversationTask, wp, ensures_conversationAuthority, ensures_taskRow]
  intro _ task named principal
  refine ensures_ite.mpr ⟨fun _ => ensures_pure.mpr .refl, fun _ => ?_⟩
  simp only [wp, ensures_checkConversationQueueCapacity, ensures_saveTask]
  intro ended passed _ _ _
  obtain ⟨runs, eq, kept⟩ := appendConversationTaskPreviousRun_eq task
  have idle : task.status ≠ .running := by
    rcases ended with ⟨status, _⟩ | ⟨status, _⟩ <;> rw [status] <;> simp
  rw [eq]
  have edit : TaskEdit s.runs task (setConversationTaskGoalPhase { task with
      previousExecutionRuns := runs, status := .queued, errorCode := "", executionRunID := none }) :=
    { same := ⟨rfl, rfl, rfl, rfl, rfl, rfl⟩, stopped := .of_not_running idle
      status := by rintro ⟨⟩, queued := fun _ => rfl, executes := .inr rfl
      revision := le_rfl, terms := fun _ => ⟨rfl, rfl, rfl⟩, runs := kept _ rfl rfl
      budget := fun _ => rfl }
  refine .single (.editTask (get?_key named) edit .keep ?_ .keep ?_ (.inl fun _ => rfl))
  · exact fun _ => .inr ((queueRoom_of_check passed).of_principal principal.symm)
  · exact fun _ => .of_status (by rintro ⟨⟩)

theorem cancelQueuedConversationTask_follows :
    Follows allowed (cancelQueuedConversationTask taskID a) s := by
  simp only [cancelQueuedConversationTask, wp, ensures_conversationAuthority, ensures_taskRow]
  intro _ task named _
  refine ensures_ite.mpr ⟨fun _ => ensures_pure.mpr .refl, fun _ => ?_⟩
  simp only [wp, ensures_saveTask]
  rintro ⟨queued, _⟩ _ _ _
  have edit : TaskEdit s.runs task
      (setConversationTaskGoalPhase { task with status := .cancelled }) :=
    { same := ⟨rfl, rfl, rfl, rfl, rfl, rfl⟩, stopped := .of_not_running (by simp [queued])
      status := by rintro ⟨⟩, queued := by rintro ⟨⟩, executes := .inl rfl
      revision := le_rfl, terms := fun _ => ⟨rfl, rfl, rfl⟩, runs := .same rfl rfl
      budget := fun _ => rfl }
  exact .single (.editTask (get?_key named) edit .keep (fun _ => .inl queued) .keep
    (fun _ => .of_status (by rintro ⟨⟩)) (.inl fun _ => rfl))

theorem readOnly_checkReviewer (tool : Option (Authority × RunReference)) (a : Authority) :
    (checkReviewer tool a).ReadOnly := by
  intro s
  unfold checkReviewer
  split
  · simp
  · simp

/-- A review leaves the task in review, or completes it. -/
theorem reviewedTask_edit (runs : Table RunRow.key) (completion : CompletionRecord)
    (waits : task.status = .awaitingReview)
    (current : completion.verification.ready = true →
      completion.submission.agreementRevision = task.revision) :
    TaskEdit runs task (reviewedTask task completion) ∧
      (reviewedTask task completion).status ≠ .queued ∧
      (reviewedTask task completion).completion = some completion ∧
      (reviewedTask task completion).plan = task.plan ∧
      Verified (reviewedTask task completion) ∧ InPhase (reviewedTask task completion) := by
  have stopped : Stopped runs task := .of_not_running (by simp [waits])
  unfold reviewedTask
  split
  · next ready =>
    refine ⟨?_, nofun, rfl, rfl, fun _ _ _ => ?_, rfl⟩
    · exact
        { same := ⟨rfl, rfl, rfl, rfl, rfl, rfl⟩, stopped := stopped, status := nofun
          queued := nofun, executes := .inl rfl, revision := le_rfl
          terms := fun _ => ⟨rfl, rfl, rfl⟩, runs := .same rfl rfl, budget := fun _ => rfl }
    · exact Bool.and_eq_true_iff.mpr ⟨ready, beq_iff_eq.mpr (current ready)⟩
  · have idle : task.status ≠ .running ∧ task.status ≠ .queued ∧ task.status ≠ .completed := by
      rw [waits]
      exact ⟨nofun, nofun, nofun⟩
    refine ⟨?_, idle.2.1, rfl, rfl, .of_status idle.2.2, rfl⟩
    exact
      { same := ⟨rfl, rfl, rfl, rfl, rfl, rfl⟩, stopped := stopped, status := idle.1
        queued := fun queued => absurd queued idle.2.1, executes := .inl rfl, revision := le_rfl
        terms := fun _ => ⟨rfl, rfl, rfl⟩, runs := .same rfl rfl, budget := fun _ => rfl }

theorem reviewConversationTaskCompletion_follows {review : CompletionReview} :
    Follows allowed (reviewConversationTaskCompletion taskID review a) s := by
  simp only [reviewConversationTaskCompletion, wp, ensures_conversationAuthority]
  intro _
  split
  · exact ensures_demand.mpr (fun _ => .refl)
  · simp only [wp, ensures_taskRow, (readOnly_checkReviewer _ _).ensures, ensures_saveTask,
      ensures_insertTaskCompletion]
    rintro task named _ record recorded ⟨waits, _, _, _⟩ method _ verification evaluated _ _ _ _
      grown inserted
    obtain ⟨edit, unqueued, completed, plan, verified, phase⟩ := reviewedTask_edit s.runs
      (reviewedCompletion record verification method review.reason) waits
      fun (ready : verification.ready = true) => by
        -- A verification is about the agreement the task has.
        unfold evaluateTaskCompletion at evaluated
        split at evaluated <;> cases evaluated
        simp only [Bool.and_eq_true, Bool.not_eq_true', Bool.or_eq_false_iff,
          decide_eq_false_iff_not, not_not] at ready
        exact ready.2.1
    refine .single (.editTask (get?_key named) edit ?_ (fun queued => absurd queued unqueued)
      ?_ (fun _ => verified) (.inl fun _ => phase))
    · rw [plan]
      exact .keep
    · rw [completed]
      refine .write (key_of_get? named).symm ?_ inserted
      rw [recorded]
      rfl

/-- An amended task is one that nothing executes. -/
theorem amendedTask_edit {runs : Table RunRow.key} {brief : Brief} (own : task.delegationID = none)
    (idle : task.status ≠ .running) (plan : Option Plan) : TaskEdit runs task
      (setConversationTaskGoalPhase { amendedTask task brief with plan := plan }) := by
  obtain ⟨previous, eq, kept⟩ := appendConversationTaskPreviousRun_eq task
  unfold amendedTask
  by_cases unnamed : task.executionRunID = none
  · rw [if_pos unnamed]
    exact
      { same := ⟨rfl, rfl, rfl, rfl, rfl, rfl⟩, stopped := .of_not_running idle, status := idle
        queued := fun _ => unnamed, executes := .inl rfl
        revision := by show _ ≤ max 1 task.agreementRevision + 1; omega
        terms := fun belongs => absurd own belongs, runs := .same rfl rfl
        budget := fun belongs => absurd own belongs }
  · rw [if_neg unnamed, eq]
    exact
      { same := ⟨rfl, rfl, rfl, rfl, rfl, rfl⟩, stopped := .of_not_running idle
        status := nofun, queued := fun _ => rfl, executes := .inr rfl
        revision := by show _ ≤ max 1 task.agreementRevision + 1; omega
        terms := fun belongs => absurd own belongs, runs := kept _ rfl rfl
        budget := fun belongs => absurd own belongs }

theorem amendedTask_same (task : Task) (brief : Brief) :
    (amendedTask task brief).id = task.id ∧ (amendedTask task brief).plan = task.plan ∧
      (amendedTask task brief).completion = task.completion ∧
      ((amendedTask task brief).status = task.status ∨
        (amendedTask task brief).status = .cancelled) := by
  obtain ⟨previous, eq, _⟩ := appendConversationTaskPreviousRun_eq task
  unfold amendedTask
  split
  · exact ⟨rfl, rfl, rfl, .inl rfl⟩
  · rw [eq]
    exact ⟨rfl, rfl, rfl, .inr rfl⟩

theorem updateConversationTaskAgreement_follows {input : TaskAgreementUpdate} :
    Follows allowed (updateConversationTaskAgreement taskID input a) s := by
  simp only [updateConversationTaskAgreement, wp, ensures_conversationAuthority]
  intro _ _
  split
  · exact ensures_demand.mpr (fun _ => .refl)
  · simp only [wp, ensures_taskRow]
    intro task named _ own idle undone _
    refine supersedeConversationTaskPlan_writes.mono ?_
    rintro _ _ ⟨plan, plans, planned, rfl, rfl⟩
    simp only [ensures_saveTask, ensures_insertRow]
    intro _ _ _ _ _
    obtain ⟨id, same, completion, status⟩ := amendedTask_same task input.brief
    rw [id, same] at planned
    refine .single (.editTask (get?_key named) (amendedTask_edit own idle plan) planned
      (fun waits => .inl ?_) ?_ (fun _ => .of_status ?_) (.inl fun _ => rfl))
    · rcases status with same | cancelled
      · exact same.symm.trans waits
      · cases cancelled.symm.trans waits
    · show CompletionWrite _ _ _ (amendedTask task input.brief).completion _
      rw [completion]
      exact .keep
    · rcases status with same | cancelled
      · exact fun done => undone (same.symm.trans done)
      · intro done
        cases cancelled.symm.trans done

/-! ### Launch -/

theorem readOnly_launchSource (task : Task) : (launchSource task).ReadOnly := by
  intro s
  unfold launchSource
  split
  · simp
  · simp only [wp, (readOnly_delegationSubjects _ _).ensures]
    exact fun _ _ => trivial

/-- What a launch finds for a task: a conversation, and for delegated work the
delegation that accepted it. -/
structure Target (s : Core) (task : Task) (c : Conversation) (d : Option Delegation) : Prop where
  found : s.conversations.get? c.id = some c
  conversation : task.delegationID ≠ none → task.executionConversationID = some c.id
  delegation : ∀ e, d = some e → s.delegations.get? e.id = some e ∧ e.status = .accepted
  current : CurrentWork s.delegations task.delegationID task.id

theorem launchTarget_finds : (launchTarget task).Ensures s
      (fun out s' => s' = s ∧ ∀ c d, out = some (c, d) → Target s.toCore task c d) := by
  simp only [launchTarget, wp, (readOnly_launchSource task).ensures]
  intro source _
  split
  · rw [ensures_pure]
    exact ⟨rfl, by simp⟩
  · next c source =>
    have held := (Option.filter_eq_some_iff.mp source).1
    split
    · next own =>
      rw [ensures_pure]
      refine ⟨rfl, ?_⟩
      rintro _ _ ⟨⟩
      refine ⟨get?_key held, fun belongs => absurd own belongs, by simp, ?_⟩
      intro id named
      cases own.symm.trans named
    · next id own =>
      simp only [wp, ensures_conversationDelegation]
      intro d visible
      refine ensures_ite.mpr ⟨fun _ => ?_, fun current => ?_⟩
      · rw [ensures_pure]
        exact ⟨rfl, by simp⟩
      · simp only [wp, ensures_getConversation]
        rintro ⟨_, _, conversation⟩ _ c found _
        refine ⟨trivial, ?_⟩
        rintro _ _ ⟨⟩
        have id : c.id = d.conversationID := key_of_get? found
        have stored := get?_of_conversationDelegation visible
        obtain ⟨accepted, assigned⟩ := not_or.mp current
        refine ⟨get?_key found, fun _ => id ▸ conversation, ?_, ?_⟩
        · rintro _ ⟨⟩
          exact ⟨get?_key stored, not_not.mp accepted⟩
        · intro other named
          cases own.symm.trans named
          exact ⟨d, stored, not_not.mp assigned⟩

theorem launchDelegation_touches (target : Target s.toCore task c d) :
    (launchDelegation d a).Ensures s (fun _ s' => ∃ delegations,
      Touched s.runs s.delegations delegations ∧ s' = { s with delegations := delegations }) := by
  unfold launchDelegation
  split
  · rw [ensures_pure]
    exact ⟨s.delegations, .none, rfl⟩
  · next d =>
    rw [ensures_saveConversationDelegation]
    intro _ _ _ _
    obtain ⟨found, accepted⟩ := target.delegation d rfl
    exact ⟨_, .of_live found (by rw [accepted]; rfl) .running nofun _, rfl⟩

/-- A launch as it is done: the task was queued and runs under the new run, which
has the client id of this launch. -/
structure Launched (s t : Core) (runID : Id) (task : Task) (row : RunRow) : Prop where
  found : s.tasks.get? task.id = some task
  queued : task.status = .queued
  id : row.run.id = runID
  client : row.run.clientMessageID = launchClient task
  executes : ∃ b, row.run.background = some b ∧ b.taskID = task.id
  inserted : s.runs.insert? row = some t.runs
  tasks : t.tasks = s.tasks.put (setConversationTaskGoalPhase
    { task with status := .running, executionRunID := some runID })

/-- What a launch answers and does. -/
def Launches (s : Core) (runID : Id) (out : Option Id) (t : Core) : Prop :=
  ∀ k, out = some k → ∃ task row, task.id = k ∧ Launched s t runID task row

theorem launchTask_follows (found : s.tasks.get? task.id = some task)
    (queued : task.status = .queued) (idle : task.executionRunID = none)
    (target : Target s.toCore task c d) :
    (launchTask task c d runID).Ensures s (fun out s' => out = some task.id ∧
      (∃ row, Launched s.toCore s'.toCore runID task row) ∧ Moves allowed s.toCore s'.toCore) := by
  simp only [launchTask, ensures_bind, (readOnly_launchSource task).ensures,
    (readOnly_checkSourceRun _ _ _).ensures, ensures_read]
  intro _ _ _ _
  refine (launchDelegation_touches target).mono ?_
  rintro _ _ ⟨delegations, touched, rfl⟩
  simp only [ensures_saveConversation, ensures_insertMessage, ensures_event, ensures_insertRun,
    ensures_saveTask, wp]
  intro _ _ _ _ _ _ _ _ _ grown inserted _ _ _
  have saved : Move allowed { s.toCore with delegations := delegations }
      { s.toCore with
        delegations := delegations
        conversations := s.conversations.put
          { c with lastSeq := c.lastSeq + 1, revision := c.revision + 1 } } :=
    .touchConversation target.found ⟨rfl, rfl, rfl, .inr (Nat.lt_succ_self _), id⟩ rfl
  refine ⟨trivial, ⟨_, found, queued, rfl, rfl, ⟨_, rfl, rfl⟩, inserted, rfl⟩,
    (touched.moves.tail saved).tail ?_⟩
  exact .launch found ⟨rfl, rfl, rfl, rfl, rfl, rfl⟩ rfl rfl rfl rfl rfl (.inl rfl) (.inl queued)
    ⟨rfl, rfl, rfl, rfl, target.conversation, rfl⟩ rfl ⟨rfl, rfl, rfl⟩ inserted (.inl queued) rfl rfl
    (.inl idle) (.inl rfl) (.inl ⟨queued, rfl⟩) ⟨rfl, .inl ⟨queued, rfl⟩⟩
    (touched.current target.current)

/-- A candidate that is passed over leaves no trace. -/
theorem launchCandidate_passes :
    (launchCandidate runID task).Ensures s (fun out s' => out = none → s' = s) := by
  unfold launchCandidate
  refine ensures_ite.mpr ⟨fun _ => ensures_pure.mpr fun _ => rfl, fun _ => ?_⟩
  rw [ensures_bind]
  refine launchTarget_finds.mono ?_
  rintro out _ ⟨rfl, _⟩
  split
  · exact ensures_pure.mpr fun _ => rfl
  · refine ensures_ite.mpr ⟨fun _ => ensures_pure.mpr fun _ => rfl, fun _ => ?_⟩
    simp only [launchTask, ensures_bind, ensures_pure]
    intro _ _ _ _ _ _ _ _ _ _ _ _ _ _ _ _ _ _ _ _ _ _ _ _ _ _ _ passed
    cases passed

theorem launchCandidate_follows (found : s.tasks.get? task.id = some task)
    (queued : task.status = .queued) (idle : task.executionRunID = none) :
    (launchCandidate runID task).Ensures s (fun out s' =>
      Launches s.toCore runID out s'.toCore ∧ Moves allowed s.toCore s'.toCore) := by
  have passed : (pure none : StoreTx (Option Id)).Ensures s (fun out s' =>
      Launches s.toCore runID out s'.toCore ∧ Moves allowed s.toCore s'.toCore) :=
    ensures_pure.mpr ⟨(fun _ h => nomatch h), .refl⟩
  unfold launchCandidate
  refine ensures_ite.mpr ⟨fun _ => passed, fun _ => ?_⟩
  rw [ensures_bind]
  refine launchTarget_finds.mono ?_
  rintro out _ ⟨rfl, target⟩
  split
  · exact passed
  · next c d =>
    refine ensures_ite.mpr ⟨fun _ => passed, fun _ => ?_⟩
    have launches : (launchTask task c d runID).Ensures _ (fun out s' => out = some task.id ∧
        (∃ row, Launched _ s'.toCore runID task row) ∧ Moves allowed _ s'.toCore) :=
      launchTask_follows found queued idle (target c d rfl)
    refine launches.mono ?_
    rintro _ t ⟨rfl, ⟨row, launched⟩, moves⟩
    refine ⟨?_, moves⟩
    rintro _ ⟨⟩
    exact ⟨task, row, rfl, launched⟩

/-- A candidate is a queued task. -/
theorem queued_of_candidate (member : task ∈ launchCandidates s runtimeID) :
    s.tasks.get? task.id = some task ∧ task.status = .queued := by
  have chosen := List.mem_filter.mp (List.mem_insertionSort _ |>.mp member)
  exact ⟨get?_of_mem chosen.1, (of_decide_eq_true chosen.2).2⟩

theorem launchConversationTask_launches (routed : s.Routed) :
    (launchConversationTask runtimeID runID).Ensures s (fun out s' =>
      Launches s.toCore runID out s'.toCore ∧ Moves allowed s.toCore s'.toCore) := by
  simp only [launchConversationTask, wp]
  refine ensures_firstOf (fun _ => launchCandidate_passes) ⟨by rintro _ ⟨⟩, .refl⟩ ?_
  intro task member
  obtain ⟨found, queued⟩ := queued_of_candidate member
  exact launchCandidate_follows found queued (routed.queued found queued)

/-! ### No duplicate client id -/

section Duplicates

variable {table code : String}

@[simp] theorem forbidden_ne_duplicate : forbidden code ≠ duplicate table := nofun
@[simp] theorem notFound_ne_duplicate : notFound code ≠ duplicate table := nofun
@[simp] theorem conflict_ne_duplicate : conflict code ≠ duplicate table := nofun

@[simp] theorem duplicate_inj {other : String} : duplicate other = duplicate table ↔ other = table :=
  ⟨fun h => (Error.mk.inj h).2, congrArg duplicate⟩

end Duplicates

/-- No failure over a run that is stored already. -/
abbrev Unclashing {α : Type} (m : StoreTx α) (s : Db) : Prop :=
  m.Throws s (· ≠ duplicate "_agent_conversation_runs")

theorem unclashing_delegationSubjects : Unclashing (delegationSubjects id a) s := by
  simp only [Unclashing, delegationSubjects, wpe, wp, true_and]
  split
  · simp
  · simp

theorem unclashing_launchSource (task : Task) : Unclashing (launchSource task) s := by
  unfold launchSource
  split
  · simp
  · simp [unclashing_delegationSubjects]

theorem unclashing_checkSourceRun {runID : Option Id} :
    Unclashing (checkSourceRun id runID a) s := by
  unfold checkSourceRun
  split
  · simp
  · simp [runRow]

theorem unclashing_conversationDelegation : Unclashing (conversationDelegation id a) s := by
  simp only [Unclashing, conversationDelegation, conversationAuthority, wpe, wp, true_and]
  refine ⟨fun _ => forbidden_ne_duplicate, fun _ => ?_⟩
  split
  · simp
  · simp [executionDelegation, ownedConversationDelegation, conversationAuthority,
      unclashing_delegationSubjects]

theorem unclashing_launchTarget (task : Task) : Unclashing (launchTarget task) s := by
  simp only [Unclashing, launchTarget, wpe, wp, true_and]
  refine ⟨unclashing_launchSource task, (readOnly_launchSource task).ensures.mpr fun source _ => ?_⟩
  split
  · simp
  · split
    · simp
    · simp only [wpe]
      refine ⟨unclashing_conversationDelegation, fun d _ _ => ?_⟩
      refine throws_ite.mpr ⟨fun _ => by simp, fun _ => ?_⟩
      simp [getConversation, conversationAuthority]

theorem unclashing_launchDelegation : Unclashing (launchDelegation d a) s := by
  unfold launchDelegation
  split
  · simp
  · simp [saveConversationDelegation]

theorem unclashing_insertRun {v : RunRow} (free : s.runs.get? v.run.id = none)
    (fresh : ∀ row ∈ s.runs.rows, row.run.clientMessageID ≠ v.run.clientMessageID) :
    Unclashing (insertRun v) s := by
  have inserts : s.runs.insert? v ≠ none := by
    intro taken
    obtain ⟨row, there⟩ := insert?_eq_none_iff.mp taken
    exact nomatch free.symm.trans there
  simp only [Unclashing, insertRun, insertRow, wpe, wp, implies_true, and_true, true_and]
  refine ⟨fun clash => absurd (fun row member same => ?_) clash, fun _ taken => absurd taken inserts⟩
  exact fresh row member same.2.2

/-- A launch under a client id that no run has does not fail over a run. -/
theorem unclashing_launchTask (free : s.runs.get? runID = none)
    (fresh : ∀ row ∈ s.runs.rows, row.run.clientMessageID ≠ launchClient task)
    (target : Target s.toCore task c d) : Unclashing (launchTask task c d runID) s := by
  simp only [Unclashing, launchTask, throws_bind, throws_read, wp, true_and]
  refine ⟨unclashing_launchSource task, (readOnly_launchSource task).ensures.mpr fun source _ =>
    ⟨unclashing_checkSourceRun, (readOnly_checkSourceRun _ _ _).ensures.mpr fun _ _ =>
      ⟨unclashing_launchDelegation, ?_⟩⟩⟩
  refine (launchDelegation_touches target).mono ?_
  rintro _ _ ⟨delegations, _, rfl⟩
  simp only [ensures_saveConversation, ensures_insertMessage, ensures_event, ensures_insertRun,
    ensures_saveTask]
  refine ⟨by simp [saveConversation], fun _ _ _ _ => ⟨by simp [insertMessage, insertRow],
    fun _ _ => ⟨by simp [event, insertRow], fun _ _ => ⟨?_, fun _ _ _ => ⟨by simp [saveTask],
      fun _ _ _ => throws_pure⟩⟩⟩⟩⟩
  exact unclashing_insertRun free fresh

/-- Where every queued task has a client id that is new, no launch fails over a
run. -/
theorem unclashing_launchConversationTask (routed : s.Routed)
    (free : s.runs.get? runID = none)
    (fresh : ∀ task, s.tasks.get? task.id = some task → task.status = .queued →
      ∀ row ∈ s.runs.rows, row.run.clientMessageID ≠ launchClient task) :
    Unclashing (launchConversationTask runtimeID runID) s := by
  simp only [Unclashing, launchConversationTask, wpe, wp, true_and]
  refine throws_firstOf (fun _ => launchCandidate_passes) ?_
  intro task member
  obtain ⟨found, queued⟩ := queued_of_candidate member
  unfold launchCandidate
  refine throws_ite.mpr ⟨fun _ => by simp, fun _ => ?_⟩
  rw [throws_bind]
  refine ⟨unclashing_launchTarget task, launchTarget_finds.mono ?_⟩
  rintro out _ ⟨rfl, target⟩
  split
  · simp
  · next c d =>
    refine throws_ite.mpr ⟨fun _ => by simp, fun _ => ?_⟩
    exact unclashing_launchTask free (fresh task found queued) (target c d rfl)

end DomainryAgent.Refinement
