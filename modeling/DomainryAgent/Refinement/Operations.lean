import DomainryAgent.Refinement.Messaging
import DomainryAgent.Refinement.Attempts

/-!
Every operation of the store follows the protocol.

`Raises` says of each hazard which operation runs into it, by what the
operation is given and what it finds; `exec_changes` is the refinement of the
whole alphabet, and `Reachable` what the store can get to by any interleaving.
-/

namespace DomainryAgent

/-- The claim an operation presents. -/
def Op.presents : Op → Option Claim
  | .heartbeat c _ | .appendEvent c _ | .appendDelta c _ _ | .finish c _ _ _
  | .waitExecution c _ | .modelInput c _ | .executionStep c _ _ | .completeExecutionStep c _ _
  | .prepareExecutionSubtool c _ _ | .beginExecutionSubtool c _ _ | .beginExecutionTool c _ _ _
  | .finishExecutionTool c _ _ _ | .reuseEffect c _ _ _ | .reserveWork c _ _ | .startWork c _
  | .releaseWork c _ | .beginModelAttempt c _ | .failModelAttempt c _ _ _
  | .completeModelAttempt c _ _ => some c
  | .startTask request _ | .updatePlan request _ _ | .submitCompletion request _ _ _ =>
    some request.claim
  | _ => none

namespace Refinement

open Lib Tx Protocol

variable {s : Db}

/-- The operations of a worker on the ledger of its root. -/
def draws : Op → Bool
  | .reserveWork .. | .startWork .. | .releaseWork .. | .completeExecutionStep .. => true
  | _ => false

/-- The operations that end runs. -/
def endsRuns : Op → Bool
  | .finish .. | .cancel .. | .respondExecution .. | .expireInteraction .. | .updateDelegation .. =>
    true
  | _ => false

/-- The operations that record a call which a step asked for. -/
def startsCalls : Op → Bool
  | .beginExecutionTool .. | .reuseEffect .. => true
  | _ => false

/-- The operations on the attempts of a run. -/
def triesModel : Op → Bool
  | .beginModelAttempt .. | .failModelAttempt .. | .completeModelAttempt .. => true
  | _ => false

/-- The operations that leave the protocol, and those that draw on a ledger,
lease or end a run, open a step, or record a call. -/
inductive Raises (s : Db) : Op → Hazard → Prop
  | respond {id runID : Id} {response : InteractionResponse} {a : Authority} {row : RunRow}
      (found : s.runs.get? runID = some row) (background : row.run.background ≠ none)
      (waiting : row.run.status.waiting = true) (ends : EndsRun s runID response) :
      Raises s (.respondExecution id runID response a) .abandonTask
  | expire {runID : Id} {row : RunRow} (found : s.runs.get? runID = some row)
      (background : row.run.background ≠ none) (overdue : Overdue s.now row) :
      Raises s (.expireInteraction runID) .abandonTask
  | resume {id runID : Id} {a : Authority} {row : RunRow} {b : TaskExecution} {task : Task}
      (found : s.runs.get? runID = some row) (background : row.run.background = some b)
      (named : s.tasks.get? b.taskID = some task) (running : task.status = .running)
      (other : task.executionRunID ≠ some runID) : Raises s (.resume id runID a) .strayResume
  | control {id : Id} {update : DelegationUpdate} {a : Authority} {e : Delegation}
      (found : s.delegations.get? e.id = some e)
      (controls : Controls s.delegations id update.action e.id)
      (stale : StalePlan s.toCore e.taskID) : Raises s (.updateDelegation id update a) .staleTask
  | complete {claim : Claim} {number : Nat} {result : StepResult} {row : RunRow}
      (found : s.runs.get? claim.runID = some row) (delegated : row.run.delegated ≠ none)
      (completes : completes s claim number = true)
      (missing : ¬HoldsReservation s.toCore claim number) :
      Raises s (.completeExecutionStep claim number result) .unreserved
  | draw {op : Op} (draws : draws op = true) : Raises s op .draw
  | claims {runtimeID worker : Id} {ttl : Nat} {agents : List AgentProfile} :
      Raises s (.claim runtimeID worker ttl agents) (.claims agents)
  | opens {claim : Claim} {number : Nat} {input : StepRequest} :
      Raises s (.executionStep claim number input) .opens
  | attempts {op : Op} (tries : triesModel op = true) : Raises s op .attempts
  | starts {op : Op} (starts : startsCalls op = true) : Raises s op .starts
  | reserves {claim : Claim} {number : Nat} {input : Subtool} :
      Raises s (.prepareExecutionSubtool claim number input) (.reserves input.maxCalls)
  | ends {op : Op} (ends : endsRuns op = true) : Raises s op .ends
  | finishes {claim : Claim} {content code : String} {reported : Bool} :
      Raises s (.finish claim content code reported) (.finishes claim.runID)
  | wakeRun {runtimeID runID : Id} {task : Task} (wakes : Wakes s.toCore runtimeID task)
      (named : task.executionRunID ≠ none) :
      Raises s (.launchPeerMessage runtimeID runID) .forgetRun
  | wakePhase {runtimeID runID : Id} {task : Task} (wakes : Wakes s.toCore runtimeID task)
      (idle : task.goalProgress.phase ≠ .executing) :
      Raises s (.launchPeerMessage runtimeID runID) .stalePhase
  | controlPhase {id : Id} {update : DelegationUpdate} {a : Authority} {e : Delegation}
      (found : s.delegations.get? e.id = some e)
      (controls : Controls s.delegations id update.action e.id)
      (stale : StalePhase s.toCore e.taskID) : Raises s (.updateDelegation id update a) .stalePhase
  | unreported {claim : Claim} {content code : String} {reported : Bool} {row : RunRow}
      {b : TaskExecution} {task : Task} (found : s.runs.get? claim.runID = some row)
      (background : row.run.background = some b) (named : s.tasks.get? b.taskID = some task)
      (unreported : Unreported task (finishedRow row code 0).run.status reported) :
      Raises s (.finish claim content code reported) .stalePhase
  | borrow {id : Id} {input : Send} {a : Authority} {t : Id} {r b n : Nat}
      (launched : input.clientMessageID = .background t r b n) :
      Raises s (.enqueue id input a) .borrow
  | admits {input : Admission} {a : Authority} : Raises s (.createDelegation input a) .admits
  | acts {op : Op} {claim : Claim} (presents : op.presents = some claim) :
      Raises s op (.acts claim.runID)
  | inspects {request : InspectionRequest} {result : ToolResult} {a : Authority} :
      Raises s (.finishInspection request result a) (.inspects request.runID)

/-- The operations that can run into a hazard at all. -/
def mayRaise : Hazard → Op → Bool
  | .abandonTask, .respondExecution .. | .abandonTask, .expireInteraction _ => true
  | .strayResume, .resume .. => true
  | .staleTask, .updateDelegation .. => true
  | .unreserved, .completeExecutionStep .. => true
  | .draw, op => draws op
  | .claims _, .claim .. => true
  | .opens, .executionStep .. => true
  | .attempts, op => triesModel op
  | .starts, op => startsCalls op
  | .reserves _, .prepareExecutionSubtool .. => true
  | .ends, op => endsRuns op
  | .finishes runID, .finish claim .. => claim.runID = runID
  | .forgetRun, .launchPeerMessage .. => true
  | .stalePhase, .launchPeerMessage .. | .stalePhase, .updateDelegation .. => true
  | .stalePhase, .finish .. => true
  | .borrow, .enqueue .. => true
  | .admits, .createDelegation .. => true
  | .acts runID, op => op.presents.any (·.runID = runID)
  | .inspects runID, .finishInspection request .. => request.runID = runID
  | _, _ => false

variable {op : Op} {α : Type} {P : Core → Prop}

theorem Raises.mayRaise {hazard : Hazard} (raises : Raises s op hazard) :
    mayRaise hazard op = true := by
  cases raises with
  | draw draws => exact draws
  | ends ends => exact ends
  | starts starts => exact starts
  | attempts tries => exact tries
  | acts presents => simp [Refinement.mayRaise, presents]
  | finishes | inspects => simp [Refinement.mayRaise]
  | _ => rfl

variable {allowed : Hazard → Prop}

variable {a : Authority} {t : Db} {may : Db → Op → Prop}

theorem createConversation_follows {id : Id} {agentID : Option Id} :
    Follows allowed (createConversation id agentID a) s := by
  simp only [createConversation, wp, ensures_conversationAuthority, ensures_insertRow]
  intro _ grown opened
  exact .single (.openConversation rfl opened)

theorem updateConversation_follows {id : Id} {expectedRevision : Nat} {archived : Bool} :
    Follows allowed (updateConversation id expectedRevision archived a) s := by
  simp only [updateConversation, wp, ensures_getConversation, ensures_saveConversation]
  intro _ c held _ _ idle _ _ _ _
  exact .single (.touchConversation (Table.get?_key held)
    ⟨rfl, rfl, rfl, .inr (Nat.lt_succ_self _), fun _ _ => idle⟩ rfl)

/-- An operation that answers nothing. -/
theorem Changes.done {m : StoreTx α} (changes : Changes allowed m s) :
    Changes allowed (m *> pure Outcome.done) s := by
  simpa only [ensures_seqRight, ensures_pure] using changes

theorem Follows.done {m : StoreTx α} (follows : Follows allowed m s) :
    Changes allowed (m *> pure Outcome.done) s :=
  Changes.done (follows.mono fun _ _ => Moves.steps)

/-- Drawing on a ledger is a sequence of moves. -/
theorem drawn_moves (draws : draws op = true) {claim : Claim} {events : List WorkEvent} (_ : α)
    (t : Db)
    (drawn : ∃ ledgers, Drawn (Raises s op) s.toCore claim events ledgers ∧
      t = { s with ledgers := ledgers }) : Moves (Raises s op) s.toCore t.toCore := by
  obtain ⟨ledgers, drawn, rfl⟩ := drawn
  exact drawn.moves (.draw draws)

/-- Every operation is a sequence of steps, and takes a hazard only where it
raises it. -/
theorem exec_changes (routed : s.Routed)
    (history : s.PlanHistory) (counted : s.Counted) :
    Changes (Raises s op) (exec op) s := by
  cases op with
  | tick millis =>
    simp only [exec, wp]
    exact .single (.move (.tick (Nat.le_add_right _ _)))
  | claim runtimeID worker ttl agents =>
    simp only [exec, wp]
    exact claimRun_claims.mono fun _ _ claims => (claims.moves .claims).steps
  | beginExecutionSubtool claim number callID =>
    simp only [exec, wp]
    exact (beginExecutionSubtool_begins (.acts rfl)).mono fun _ _ begun => begun.1.steps
  | beginExecutionTool claim number callID width =>
    simp only [exec, wp]
    exact (beginExecutionTool_begins (.starts rfl) (.acts rfl)).mono fun _ _ begun => begun.1.steps
  | createConversation => exact createConversation_follows.done
  | updateConversation => exact updateConversation_follows.done
  | enqueue => exact (enqueue_follows fun _ _ _ _ => .borrow).done
  | heartbeat => exact heartbeat_follows.done
  | appendEvent => exact appendEvent_follows.done
  | appendDelta => exact appendDelta_follows.done
  | finish => exact (finish_follows (.ends rfl) .finishes fun _ _ _ => .unreported).done
  | cancel => exact (cancel_follows (.ends rfl)).done
  | resume => exact (resume_follows fun _ _ _ => .resume).done
  | waitExecution => exact waitExecution_follows.done
  | respondExecution => exact (respondExecution_follows (.ends rfl) fun _ => .respond).done
  | expireInteraction => exact (expireRunInteraction_follows (.ends rfl) fun _ => .expire).done
  | executionStep =>
    exact Follows.done (executionStep_opens.mono fun _ _ opened => opened.moves .opens (.acts rfl))
  | completeExecutionStep claim number _ =>
    refine (Follows.done (Tx.Ensures.mono (completeExecutionStep_completes
      fun row found delegated completes => ?_) fun _ _ done => done.moves (.draw rfl) (.acts rfl)))
    by_cases held : HoldsReservation s.toCore claim number
    · exact .inl held
    · exact .inr (.complete found delegated completes held)
  | modelInput => exact modelInput_follows.done
  | beginModelAttempt claim step =>
    simp only [exec, wp]
    exact (beginConversationModelAttempt_follows (.attempts rfl) (.acts rfl)).mono fun _ _ moves => moves.steps
  | failModelAttempt => exact (failConversationModelAttempt_follows (.attempts rfl) (.acts rfl)).done
  | completeModelAttempt => exact (completeConversationModelAttempt_follows (.attempts rfl) (.acts rfl)).done
  | prepareExecutionSubtool => exact (prepareExecutionSubtool_follows .reserves (.acts rfl)).done
  | finishExecutionTool => exact (finishExecutionTool_follows (.acts rfl)).done
  | startTask => exact (applyLocalTool_follows startBackgroundTask_follows (.acts rfl)).done
  | updatePlan => exact (applyLocalTool_follows updatePlan_follows (.acts rfl)).done
  | submitCompletion => exact (applyLocalTool_follows submitCompletion_follows (.acts rfl)).done
  | reuseEffect claim number call definition =>
    simp only [exec, wp]
    exact (reuseConversationDelegationEffect_follows (.starts rfl) (.acts rfl)).mono fun _ _ moves => moves.steps
  | beginInspection => exact beginConversationOutcomeInspection_follows.done
  | finishInspection => exact (finishConversationOutcomeInspection_follows .inspects).done
  | reserveWork claim step requested =>
    refine Follows.done
      ((reserveConversationWorkStep_draws (Raises s (.reserveWork claim step requested))).mono ?_)
    rintro _ t ⟨ledgers, drawn, _, after⟩
    exact drawn_moves rfl () t ⟨ledgers, drawn, after⟩
  | startWork => exact Follows.done ((startConversationWorkStep_draws _).mono (drawn_moves rfl))
  | releaseWork => exact Follows.done ((releaseConversationWorkStep_draws _).mono (drawn_moves rfl))
  | acceptScheduledTask => exact acceptScheduledConversationTask_follows.done
  | acceptBusinessEventTask => exact acceptBusinessEventConversationTask_follows.done
  | launchTask =>
    exact Follows.done ((launchConversationTask_launches routed).mono fun _ _ done => done.2)
  | resumeQueuedTask => exact resumeQueuedConversationTask_follows.done
  | cancelQueuedTask => exact cancelQueuedConversationTask_follows.done
  | updateTaskAgreement => exact updateConversationTaskAgreement_follows.done
  | reviewTaskCompletion => exact reviewConversationTaskCompletion_follows.done
  | createDelegation => exact Changes.done (createConversationDelegation_changes .admits counted)
  | updateDelegation id update a =>
    have sane : Sane (Raises s (.updateDelegation id update a)) False s.toCore :=
      ⟨routed, history, by simp⟩
    exact Changes.done (updateConversationDelegation_changes sane fun _ found controls =>
      ⟨.ends rfl, .control found controls, .controlPhase found controls⟩).1
  | publishDelegation => exact publishDelegation_follows.done
  | republishDelivery => exact republishDelivery_follows.done
  | transferDelegation => exact Changes.done transferConversationDelegation_changes
  | sendMessage => exact sendConversationAgentMessage_follows.done
  | supersedeMessage => exact supersedeConversationParticipantMessage_follows.done
  | launchPeerMessage =>
    refine (launchConversationPeerMessage_follows ?_ routed).done
    exact fun _ wakes => ⟨.wakeRun wakes, .wakePhase wakes⟩

/-! ### Runs of the store -/

/-- What the store reaches from empty when every operation is allowed where it
is taken. -/
abbrev ReachableBy (may : Db → Op → Prop) (s : Db) : Prop :=
  ∃ now limits, Reaches Db.step may (Db.initial now limits) s

/-- What the store reaches by any interleaving of operations. -/
abbrev Reachable (s : Db) : Prop := ReachableBy (fun _ _ => True) s

/-- The routing of runs, tasks and delegations, the plan history and the count of
a goal's delegations: what every later invariant rests on. -/
structure WellFormed (s : Db) : Prop where
  routed : s.Routed
  history : s.PlanHistory
  counted : s.Counted

theorem WellFormed.initial (now : Time) (limits : Option ExecutionLimits) :
    WellFormed (Db.initial now limits) := ⟨.empty, .empty, .empty⟩

theorem WellFormed.steps (wf : WellFormed s) (op : Op) :
    Steps (Raises s op) s.toCore (s.step op).toCore :=
  (exec_changes wf.routed wf.history wf.counted).commit .refl

theorem WellFormed.after (wf : WellFormed s) (steps : Steps allowed s.toCore t.toCore) :
    WellFormed t :=
  ⟨steps.routed wf.routed, steps.planHistory wf.history, steps.counted wf.counted⟩

theorem WellFormed.step (wf : WellFormed s) (op : Op) : WellFormed (s.step op) :=
  wf.after (wf.steps op)

/-- What each step of an operation keeps, the operation keeps. -/
theorem WellFormed.along (wf : WellFormed s) (op : Op) (holds : P s.toCore)
    (keeps : ∀ x y, Step (Raises s op) x y → x.Routed →
      x.PlanHistory → P x → P y) : P (s.step op).toCore := by
  have along : ∀ t, Steps (Raises s op) s.toCore t →
      t.Routed ∧ t.PlanHistory ∧ P t := by
    intro t steps
    induction steps with
    | refl => exact ⟨wf.routed, wf.history, holds⟩
    | tail _ step ih =>
      obtain ⟨routed, history, holds⟩ := ih
      exact ⟨step.routed routed, step.planHistory history, keeps _ _ step routed history holds⟩
  exact (along _ (wf.steps op)).2.2

theorem ReachableBy.wellFormed (reached : ReachableBy may s) : WellFormed s := by
  obtain ⟨now, limits, reached⟩ := reached
  exact reached.invariant (.initial now limits) (fun _ wf op _ => wf.step op)

/-- A property of the empty store that every step of the protocol keeps, as far
as hazards are raised, holds wherever the store gets. -/
theorem ReachableBy.invariant (reached : ReachableBy may s)
    (base : ∀ now limits, P (Db.initial now limits).toCore)
    (keeps : ∀ u op, WellFormed u → may u op → ∀ x y, Step (Raises u op) x y →
      x.Routed → x.PlanHistory → P x → P y) :
    P s.toCore := by
  obtain ⟨now, limits, reached⟩ := reached
  have both : WellFormed s ∧ P s.toCore := by
    refine reached.invariant (P := fun u => WellFormed u ∧ P u.toCore)
      ⟨.initial now limits, base now limits⟩ ?_
    intro u ⟨wf, holds⟩ op allowed
    exact ⟨wf.step op, wf.along op holds (keeps u op wf allowed)⟩
  exact both.2

/-- What the store can still get to from where it is. -/
abbrev LeadsTo (s t : Db) : Prop := Reaches Db.step (fun _ _ => True) s t

/-- What every step of the protocol keeps is kept from here on. -/
theorem LeadsTo.keeps (leads : LeadsTo s t) (wf : WellFormed s)
    (each : ∀ {allowed : Hazard → Prop} {x y : Core}, Step allowed x y → P x → P y)
    (holds : P s.toCore) : WellFormed t ∧ P t.toCore := by
  refine leads.invariant (P := fun u => WellFormed u ∧ P u.toCore) ⟨wf, holds⟩ ?_
  intro u ⟨wf, before⟩ op _
  exact ⟨wf.step op, wf.along op before fun _ _ step _ _ => each step⟩

/-! ### The operations that store plans -/

/-- The operations that write plan versions. -/
def writesPlans : Op → Bool
  | .finish .. | .cancel .. | .updatePlan .. | .updateTaskAgreement .. | .updateDelegation .. => true
  | _ => false

/-- Unless it would write back an old copy, such an operation never fails over a
version that is stored already. -/
theorem exec_sound (ordered : Ordered s.toCore) (clean : ¬Raises s op .staleTask)
    (writes : writesPlans op = true) : Sound (exec op) s := by
  cases op with
  | finish claim content code reported => simp [exec, sound_finish ordered]
  | cancel id runID a => simp [exec, sound_cancel ordered]
  | updatePlan request update prepared =>
    have sound : Sound (applyConversationTaskPlanTool request update prepared) s :=
      sound_applyLocalTool (sound_updatePlan ordered)
    simp [exec, sound]
  | updateTaskAgreement taskID input a =>
    simp [exec, sound_updateConversationTaskAgreement ordered]
  | updateDelegation id update a =>
    have sane : Sane (Raises s (.updateDelegation id update a)) True s.toCore :=
      ⟨ordered.routed, ordered.history, fun _ => ⟨clean, ordered.current⟩⟩
    have sound : Sound (updateConversationDelegation id update a) s := fun e failed =>
      (updateConversationDelegation_changes sane fun _ found controls =>
        ⟨.ends rfl, .control found controls, .controlPhase found controls⟩).2 e failed trivial
    simp [exec, sound]
  | _ => cases writes

end Refinement

end DomainryAgent
