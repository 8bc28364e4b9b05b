import DomainryAgent.Protocol.Executors

/-!
The operations on runs follow the protocol: each committed transaction is a
sequence of steps over `Core`.

What a transaction writes outside `Core` (messages, events, interactions) plays
no part in a step, so the specifications of the smaller statements say what
becomes of `toCore` and of the row in hand.
-/

namespace DomainryAgent.Refinement

open Lib Tx Table Protocol

/-- A transaction whose outcome the protocol explains. -/
abbrev Follows {α : Type} (allowed : Hazard → Prop) (m : StoreTx α) (s : Db) : Prop :=
  m.Ensures s (fun _ s' => Moves allowed s.toCore s'.toCore)

variable {allowed : Hazard → Prop} {s : Db}

/-! ### Plans and delegations at the end of a run -/

/-- The delegations after at most one was touched. -/
inductive Touched (runs : Table RunRow.key) (delegations : Table Delegation.id) :
    Table Delegation.id → Prop
  | none : Touched runs delegations delegations
  | one {old new : Delegation} (found : delegations.get? old.id = some old)
      (same : SameDelegation old new) (assignment : SameAssignment old new)
      (agreement : SameAgreement old new) (executes : MayExecute runs old new)
      (accepted : AcceptedCurrent old → AcceptedCurrent new) :
      Touched runs delegations (delegations.put new)

theorem Touched.moves {s : Core} {delegations : Table Delegation.id}
    (touched : Touched s.runs s.delegations delegations) :
    Moves allowed s { s with delegations := delegations } := by
  cases touched with
  | none => exact .refl
  | one found same assignment agreement executes accepted =>
    exact .single (.touchDelegation found same assignment agreement executes accepted)

variable {runs : Table RunRow.key} {old new row : RunRow} {task : Task} {a : Authority}
  {id runID worker : Id} {content : String} {reported : Bool} {t : Core} {claim : Claim} {ttl : Nat}
  {agents : List AgentProfile} {record : InteractionRecord} {response : InteractionResponse}

variable {next : Table Delegation.id} {d : Delegation} {status : RunStatus}
  {conversations : Table Conversation.id} {p : Prop} {code : String} {runtimeID : Id}

variable {delegations : Table Delegation.id} {run : Run} {c : Conversation}

theorem Touched.current {delegationID : Option Id} {taskID : Id}
    (touched : Touched runs delegations next)
    (current : CurrentWork delegations delegationID taskID) :
    CurrentWork next delegationID taskID := by
  cases touched with
  | none => exact current
  | one found same assignment =>
    intro id names
    obtain ⟨d, there, task⟩ := current id names
    exact exists_put found same.id there task fun _ => assignment.task.trans

/-- A touch that only changes the status, from one that executes. -/
theorem Touched.of_live (found : delegations.get? d.id = some d)
    (live : d.status.live = true) (status : DelegationStatus) (other : status ≠ .acceptedDelivery)
    (revision : Nat) : Touched runs delegations
      (delegations.put { d with status := status, revision := revision }) :=
  .one found ⟨rfl, rfl, rfl, rfl, rfl, rfl⟩ ⟨rfl, rfl⟩ ⟨rfl, rfl, rfl, rfl, rfl⟩ (fun _ => .inl live)
    (fun _ => .of_status other)

/-- A row that stays the same run is the same evidence. -/
theorem Touched.put_run (touched : Touched runs delegations next)
    (found : runs.get? old.run.id = some old) (same : SameRun old new) :
    Touched (runs.put new) delegations next := by
  cases touched with
  | none => exact .none
  | one found' same' assignment agreement executes accepted =>
    refine .one found' same' assignment agreement (fun live => (executes live).imp_right ?_) accepted
    rintro ⟨r, row, b, there, background, names, revision⟩
    obtain ⟨row', there', background'⟩ := exists_put (P := fun row => row.run.background = some b)
      (v := new) found same.id there background fun _ => same.background.trans
    exact ⟨r, row', b, there', background', names, revision⟩

/-- What the end of a run does to the plan of its task. -/
inductive PlanClosed (run : Run) (plans : Table PlanRow.key) (old : Option Plan) :
    Option Plan → Table PlanRow.key → Prop
  | keep : PlanClosed run plans old old plans
  | close {plan next : Plan} {grown : Table PlanRow.key} (had : old = some plan)
      (closed : closedPlan plan run.status run.errorCode = some next)
      (inserted : plans.insert? ⟨next, .system⟩ = some grown) :
      PlanClosed run plans old (some next) grown

theorem PlanClosed.writes {plans grown : Table PlanRow.key} {old new : Option Plan}
    (closed : PlanClosed run plans old new grown) (taskID : Id) :
    PlanWrite taskID plans old new grown := by
  cases closed with
  | keep => exact .keep
  | close had closed inserted => exact had ▸ .write (.close closed) inserted

theorem closeConversationTaskPlan_closes :
    (closeConversationTaskPlan task run).Ensures s (fun out s' => ∃ plan plans,
      PlanClosed run s.plans task.plan plan plans ∧ out = { task with plan := plan } ∧
        s' = { s with plans := plans }) := by
  unfold closeConversationTaskPlan
  split
  · rw [ensures_pure]
    exact ⟨task.plan, s.plans, .keep, rfl, rfl⟩
  · next plan planned =>
    split
    · rw [ensures_pure]
      exact ⟨task.plan, s.plans, .keep, rfl, rfl⟩
    · next next closed =>
      simp only [insertConversationTaskPlan, wp, ensures_insertRow]
      intro grown inserted
      exact ⟨some next, grown, .close planned closed inserted, rfl, rfl⟩

theorem supersedeConversationTaskPlan_writes {revision : Nat} {fields : List AgreementField}
    {reason : String} :
    (supersedeConversationTaskPlan task revision fields reason).Ensures s (fun out s' =>
      ∃ plan plans, PlanWrite task.id s.plans task.plan plan plans ∧
        out = { task with plan := plan } ∧ s' = { s with plans := plans }) := by
  unfold supersedeConversationTaskPlan
  split
  · rw [ensures_pure]
    exact ⟨task.plan, s.plans, .keep, rfl, rfl⟩
  · next plan planned =>
    simp only [insertConversationTaskPlan, wp, ensures_insertRow]
    intro grown inserted
    exact ⟨_, grown, planned ▸ .write .supersede inserted, rfl, rfl⟩

/-- The operation changes nothing but the messages, and no step takes one. -/
abbrev Tells {α : Type} (m : StoreTx α) (s : Db) : Prop :=
  m.Ensures s (fun _ s' => ∃ messages,
    Told s.peerMessages messages ∧ s' = { s with peerMessages := messages })

/-- A message that answers nothing arrives. -/
theorem arrives_insert {messages grown : Table PeerMessage.id} {m : PeerMessage}
    (plain : m.answeredByID = none ∧ m.answeredQuestionIDs = [])
    (inserted : messages.insert? m = some grown) : Arrives messages grown m where
  fresh := (get?_insert? inserted).1
  unanswered := plain.1
  asked := by simp [plain.2]
  rows := by simpa [plain.2] using (get?_insert? inserted).2

/-- A notice arrives, unless its id is taken. -/
theorem told_insert {messages : Table PeerMessage.id} {m : PeerMessage}
    (pending : m.consumed = none) (current : m.superseded = false)
    (plain : m.answeredByID = none ∧ m.answeredQuestionIDs = []) :
    Told messages ((messages.insert? m).getD messages) := by
  cases inserted : messages.insert? m with
  | none => exact .refl
  | some grown => exact .single (.arrive pending current (arrives_insert plain inserted))

theorem insertConversationPeerNotice_tells {notice : Notice} {canonical : Option Delegation} :
    Tells (insertConversationPeerNotice notice a canonical) s := by
  simp only [Tells, insertConversationPeerNotice, wp, (readOnly_delegationSubjects _ _).ensures,
    ownedConversationDelegation, ensures_conversationAuthority,
    (readOnly_delegationMessageAuthority _ _ _).ensures, ensures_insertNotice]
  intros
  exact ⟨_, told_insert rfl rfl ⟨rfl, rfl⟩, rfl⟩

theorem supersedeMessage_tells {id : PeerMessageID} : Tells (supersedeMessage id) s := by
  simp only [Tells, supersedeMessage, wp, Option.filter_eq_some_iff, decide_eq_true_eq]
  rintro m ⟨found, pending⟩
  exact ⟨_, .single (.supersede (get?_key found) pending), rfl⟩

/-- Any number of messages told one after the other. -/
theorem forEach_tells {α : Type} {items : List α} {m : α → StoreTx Unit}
    (each : ∀ a ∈ items, ∀ s, Tells (m a) s) : Tells (forEach items m) s := by
  refine ensures_forEach (R := fun s s' => ∃ messages,
    Told s.peerMessages messages ∧ s' = { s with peerMessages := messages }) ?_ ?_ each s
  · exact fun s => ⟨s.peerMessages, .refl, rfl⟩
  · rintro _ _ _ ⟨_, first, rfl⟩ ⟨messages, second, rfl⟩
    exact ⟨messages, first.trans second, rfl⟩

theorem supersedePeerMessages_tells : Tells (supersedePeerMessages d a) s := by
  simp only [supersedePeerMessages, wp]
  exact forEach_tells fun _ _ _ => supersedeMessage_tells

/-- A delegation with the status of an outcome. -/
def settled (d : Delegation) (outcome : RunStatus) : Delegation :=
  { d with status := finishedDelegationStatus d.status outcome, revision := d.revision + 1 }

/-- What the end of a run makes of the delegation it belongs to: nothing, or the
delegation has the status of the outcome and its owner is told, unless the id of
the notice is taken. -/
inductive Announced (s : Core) (belongs : Option Id) (run : Run) :
    Table Delegation.id → Table PeerMessage.id → Prop
  | silent : Announced s belongs run s.delegations s.peerMessages
  | told {d : Delegation} {recipient : Authority} (its : belongs = some d.id)
      (found : s.delegations.get? d.id = some d)
      (executes : d.status = .accepted ∨ d.status = .running ∨ d.status = .delivered)
      (known : recipient.known = true) (owner : conversationOwner recipient = d.owner) :
      Announced s belongs run (s.delegations.put (settled d run.status))
        ((s.peerMessages.insert? ((outcomeNotice (settled d run.status) run).row recipient
          s.now)).getD s.peerMessages)

section Announced

variable {c : Core} {belongs : Option Id} {run : Run} {delegations : Table Delegation.id}
  {messages : Table PeerMessage.id}

section

variable (announced : Announced c belongs run delegations messages)

include announced

theorem Announced.touched :
    Touched c.runs c.delegations delegations := by
  cases announced with
  | silent => exact .none
  | told _ found executes =>
    refine .of_live found ?_ _ ?_ _
    · rcases executes with status | status | status <;> rw [status] <;> rfl
    · -- The end of a run accepts no delivery.
      rcases executes with status | status | status <;> rw [status] <;> cases run.status <;> decide

theorem Announced.tells :
    Told c.peerMessages messages := by
  cases announced with
  | silent => exact .refl
  | told => exact told_insert rfl rfl ⟨rfl, rfl⟩

/-- Only the delegation the run belongs to is touched. -/
theorem Announced.only (other : belongs ≠ some id) : delegations.get? id = c.delegations.get? id := by
  cases announced with
  | silent => rfl
  | told its =>
    refine get?_put_of_ne ?_
    rintro rfl
    exact other its

end

end Announced

theorem finishConversationDelegation_announces :
    (finishConversationDelegation task run a).Ensures s (fun _ s' => ∃ delegations messages,
      Announced s.toCore task.delegationID run delegations messages ∧
        s' = { s with delegations := delegations, peerMessages := messages }) := by
  unfold finishConversationDelegation
  split
  · rw [ensures_pure]
    exact ⟨_, _, .silent, rfl⟩
  · next id belongs =>
    simp only [wp, ensures_conversationDelegation, ensures_onlyIf, announceOutcome,
      ensures_saveConversationDelegation]
    intro d visible
    have at_id := get?_of_conversationDelegation visible
    have key : d.id = id := key_of_get? at_id
    refine ⟨?_, fun _ => ⟨_, _, .silent, rfl⟩⟩
    rintro ⟨_, executes⟩ _ _ _ _
    have stored : s.delegations.get? d.id = some d := get?_key at_id
    have saved := get?_put_self (v := settled d run.status) stored
    refine (insertConversationPeerNotice_reaches saved rfl).mono ?_
    rintro _ _ ⟨recipient, known, owner, rfl⟩
    exact ⟨_, _, .told (belongs.trans (congrArg some key.symm)) stored executes known owner, rfl⟩

/-- A scheduled follow-up whose run is completed and whose report cannot be read. -/
def Unreported (task : Task) (status : RunStatus) (reported : Bool) : Prop :=
  task.followUp = true ∧ task.origin = .schedule ∧ status = .completed ∧ reported = false

/-- How a task is left by the end of its run. -/
structure TaskEnd (completions : Table CompletionRow.key) (task : Task) (run : Run)
    (reported : Bool) (status : TaskStatus) (errorCode : String) (progress : GoalProgress)
    (completion : Option CompletionRecord) (grown : Table CompletionRow.key) : Prop where
  ends : status.terminal = true
  completed : CompletionWrite task.id completions task.completion completion grown
  unjudged : task.delegationID ≠ none ∨ run.status ≠ .completed →
    completion = task.completion ∧ grown = completions
  verified : Verified { task with status := status, completion := completion }
  phase : progress.phase = goalPhase status errorCode ∨ Unreported task run.status reported

/-- What the end of a background run does to its task and delegation. -/
inductive TaskClosed (s : Core) (run : Run) (reported : Bool) : Core → Prop
  | foreground (none : run.background = none) : TaskClosed s run reported s
  | closed {b : TaskExecution} {task : Task} {status : TaskStatus} {errorCode : String}
      {plan : Option Plan} {plans : Table PlanRow.key} {delegations : Table Delegation.id}
      {messages : Table PeerMessage.id} {progress : GoalProgress}
      {completion : Option CompletionRecord} {completions : Table CompletionRow.key}
      (background : run.background = some b) (named : s.tasks.get? b.taskID = some task)
      (running : task.status = .running) (executes : task.executionRunID = some run.id)
      (ended : TaskEnd s.completions task run reported status errorCode progress completion
        completions)
      (planned : PlanClosed run s.plans task.plan plan plans)
      (announced : Announced s task.delegationID run delegations messages) :
      TaskClosed s run reported { s with
        plans := plans, delegations := delegations, peerMessages := messages
        completions := completions
        tasks := s.tasks.put { task with
          status := status, errorCode := errorCode, plan := plan, goalProgress := progress
          completion := completion } }

theorem finishedTaskStatus_terminal (task : Task) (status : RunStatus) :
    (finishedTaskStatus task status).terminal = true := by
  unfold finishedTaskStatus
  split
  · split <;> rfl
  · rfl
  · rfl

/-- A run completes a task somebody has to accept only with a completion that is
verified. -/
theorem finishedTaskStatus_verified (completed : finishedTaskStatus task status = .completed)
    (own : task.delegationID = none) (plain : task.followUp = false) :
    completionVerified task = true := by
  unfold finishedTaskStatus at completed
  split at completed
  · split at completed
    · cases completed
    · next accepted => simpa [own, plain] using accepted
  · cases completed
  · cases completed

theorem finishConversationTaskCompletion_writes :
    (finishConversationTaskCompletion task run content).Ensures s (fun out s' =>
      ∃ completion completions,
        CompletionWrite task.id s.completions task.completion completion completions ∧
        (task.delegationID ≠ none ∨ run.status ≠ .completed →
          completion = task.completion ∧ completions = s.completions) ∧
        out = { task with completion := completion } ∧
        s' = { s with completions := completions }) := by
  unfold finishConversationTaskCompletion
  refine ensures_ite.mpr ⟨fun _ => ?_, fun judged => ?_⟩
  · rw [ensures_pure]
    exact ⟨_, _, .keep, fun _ => ⟨rfl, rfl⟩, rfl, rfl⟩
  · refine ensures_ite.mpr ⟨fun _ => ?_, fun _ => ?_⟩
    · rw [ensures_pure]
      exact ⟨_, _, .keep, fun _ => ⟨rfl, rfl⟩, rfl, rfl⟩
    · simp only [wp, ensures_insertTaskCompletion]
      intro _ grown inserted
      refine ⟨_, grown, .write rfl rfl inserted, fun other => absurd ?_ judged, rfl, rfl⟩
      exact other.imp_right .inr

theorem finishConversationTask_closes :
    (finishConversationTask run a content reported).Ensures s
      (fun _ s' => TaskClosed s.toCore run reported s'.toCore) := by
  unfold finishConversationTask
  split
  · next none =>
    rw [ensures_pure]
    exact .foreground none
  · next b background =>
    simp only [wp, ensures_taskRow]
    rintro task named _ _ ⟨running, executes⟩
    refine finishConversationTaskCompletion_writes.mono ?_
    rintro _ _ ⟨completion, completions, completed, unjudged, rfl, rfl⟩
    refine closeConversationTaskPlan_closes.mono ?_
    rintro _ _ ⟨plan, plans, planned, rfl, rfl⟩
    -- What the run leaves its task with.
    obtain ⟨status, errorCode, progress, left, ended⟩ : ∃ status errorCode progress,
        recordConversationFollowUpTerminal (setConversationTaskGoalPhase { task with
          status := finishedTaskStatus { task with completion := completion } run.status
          errorCode := run.errorCode, completion := completion, plan := plan }) run.status reported =
        { task with
          status := status, errorCode := errorCode, plan := plan, goalProgress := progress
          completion := completion } ∧
        TaskEnd s.completions task run reported status errorCode progress completion completions := by
      unfold recordConversationFollowUpTerminal
      split
      · next unreported =>
        exact ⟨.failed, _, _, rfl, rfl, completed, unjudged, .of_status (by rintro ⟨⟩), .inr unreported⟩
      · exact ⟨_, _, _, rfl, finishedTaskStatus_terminal _ _, completed, unjudged,
          finishedTaskStatus_verified, .inl rfl⟩
    rw [left]
    refine finishConversationDelegation_announces.mono ?_
    rintro _ _ ⟨delegations, messages, announced, rfl⟩
    simp only [ensures_saveTask]
    intro _ _ _
    replace announced : Announced s.toCore task.delegationID run delegations messages := by
      cases announced with
      | silent => exact .silent
      | told its found executes known owner => exact .told its found executes known owner
    exact .closed background named running executes ended planned announced

/-- A run that ends together with its task follows the protocol. -/
theorem TaskClosed.follows {s : Core}
    (closed : TaskClosed { s with conversations := conversations } new.run reported t)
    (marked : allowed .ends)
    (phase : ∀ b task, new.run.background = some b → s.tasks.get? b.taskID = some task →
      Unreported task new.run.status reported → allowed .stalePhase)
    (found : s.runs.get? old.run.id = some old) (same : SameRun old new)
    (move : RunMove allowed s old new) (isOpen : old.run.status.terminal = false)
    (ended : new.run.status.terminal = true)
    (released : old.run.background = none → Released s.conversations old.run conversations)
    (touches : old.run.background ≠ none →
      Moves allowed s { s with conversations := conversations }) :
    Moves allowed s { t with runs := t.runs.put new } := by
  cases closed with
  | foreground none =>
    have foreground := same.background ▸ none
    exact .single (.endRun found same move isOpen ended (.inl foreground) (released foreground)
      marked)
  | @closed b task status errorCode plan plans _ _ progress completion completions background named
      running executes left planned announced =>
    have background' := same.background ▸ background
    have closes : Move allowed { s with conversations := conversations } { s with
        conversations := conversations, runs := s.runs.put new, plans := plans
        completions := completions
        tasks := s.tasks.put { task with
          status := status, errorCode := errorCode, plan := plan, goalProgress := progress
          completion := completion } } :=
      .closeTask found same (move.transfer rfl rfl rfl rfl) ended background' named running
        (same.id ▸ executes) left.ends (planned.writes task.id) left.completed left.verified
        (left.phase.imp_right (phase b task background named)) marked
    refine .trans (touches (by rw [background']; exact Option.some_ne_none b)) ?_
    exact .trans (.single closes)
      (.trans (Touched.put_run announced.touched found same).moves (Told.moves announced.tells))

/-! ### Rows in hand -/

/-- A row that differs only in what it reports: events, its interaction, its
draft and counters. -/
structure Noted (old new : RunRow) : Prop where
  same : SameRun old new
  authority : new.authority = old.authority
  status : new.run.status = old.run.status
  owner : new.owner = old.owner
  fence : new.fence = old.fence
  expires : new.expires = old.expires
  tries : SameAttempts old.run new.run

theorem Noted.refl (row : RunRow) : Noted row row :=
  ⟨.refl row, rfl, rfl, rfl, rfl, rfl, rfl, rfl⟩

theorem Noted.trans {x y z : RunRow} (first : Noted x y) (second : Noted y z) : Noted x z :=
  ⟨first.same.trans second.same, second.authority.trans first.authority,
    second.status.trans first.status, second.owner.trans first.owner,
    second.fence.trans first.fence, second.expires.trans first.expires,
    second.tries.attempt.trans first.tries.attempt,
    second.tries.attempts.trans first.tries.attempts⟩

/-- Writing back a row that only reports more is a touch. -/
theorem Noted.move {s : Core} (noted : Noted old new) (found : s.runs.get? old.run.id = some old) :
    Move allowed s { s with runs := s.runs.put new } :=
  .run found noted.same (.touch noted.status noted.owner noted.fence noted.expires (.inl noted.tries))
    (by rw [noted.status])

theorem Noted.moves {s : Core} (noted : Noted old new) (found : s.runs.get? old.run.id = some old) :
    Moves allowed s { s with runs := s.runs.put new } := .single (noted.move found)

theorem closeRunInteraction_noted {status : InteractionStatus} :
    (closeRunInteraction row status).Ensures s
      (fun v s' => s'.toCore = s.toCore ∧ Noted row v) := by
  unfold closeRunInteraction
  split
  · rw [ensures_pure]
    exact ⟨rfl, .refl row⟩
  · rw [ensures_ite]
    constructor
    · intro _
      simp only [wp, ensures_event]
      intro _ _ _ _ _
      exact ⟨trivial, ⟨rfl, rfl, rfl, rfl, rfl, rfl⟩, rfl, rfl, rfl, rfl, rfl, rfl, rfl⟩
    · intro _
      rw [ensures_pure]
      exact ⟨rfl, .refl row⟩

/-! ### Tool records -/

/-- Calls that are interrupted one after the other. -/
abbrev Interrupts : Table ToolExecution.key → Table ToolExecution.key → Prop :=
  Relation.ReflTransGen Interrupt

theorem Interrupts.moves {s : Core} {tools : Table ToolExecution.key}
    (interrupts : Interrupts s.tools tools) : Moves allowed s { s with tools := tools } := by
  induction interrupts with
  | refl => exact .refl
  | tail _ interrupt ih => exact ih.tail (.tools (.interrupt interrupt))

/-- Interrupting different calls that are still what was read of them. -/
theorem interruptCalls_interrupts {calls : List ToolExecution}
    (apart : (calls.map ToolExecution.key).Nodup)
    (current : ∀ call ∈ calls, s.tools.get? call.key = some call ∧ call.state = .started ∧
      call.definition.effect = .write) :
    (interruptCalls calls row).Ensures s (fun v s' => ∃ tools, Interrupts s.tools tools ∧
      s'.toCore = { s.toCore with tools := tools } ∧ Noted row v) := by
  induction calls generalizing s row with
  | nil =>
    rw [interruptCalls, ensures_pure]
    exact ⟨s.tools, .refl, rfl, .refl row⟩
  | cons call rest ih =>
    simp only [interruptCalls, wp, ensures_writeTool, ensures_event]
    intro events _
    obtain ⟨found, started, effect⟩ := current call List.mem_cons_self
    obtain ⟨other, apart⟩ := List.nodup_cons.mp apart
    have first : Interrupt s.tools (s.tools.put (interruptedCall call)) :=
      .write found started effect
    refine (ih apart ?_).mono ?_
    · -- The other calls are not touched by this one.
      intro next member
      obtain ⟨found', started', effect'⟩ := current next (List.mem_cons_of_mem _ member)
      refine ⟨?_, started', effect'⟩
      have differs : next.key ≠ (interruptedCall call).key := fun same =>
        other (List.mem_map.mpr ⟨next, member, same⟩)
      exact (get?_put_of_ne differs).trans found'
    · rintro v s' ⟨tools, later, core, noted⟩
      refine ⟨tools, later.head first, core, Noted.trans ?_ noted⟩
      exact ⟨⟨rfl, rfl, rfl, rfl, rfl, rfl⟩, rfl, rfl, rfl, rfl, rfl, rfl, rfl⟩

theorem interruptConversationWrites_interrupts :
    (interruptConversationWrites row).Ensures s (fun v s' => ∃ tools, Interrupts s.tools tools ∧
      s'.toCore = { s.toCore with tools := tools } ∧ Noted row v) := by
  simp only [interruptConversationWrites, wp]
  refine interruptCalls_interrupts ?_ ?_
  · exact s.tools.nodup.sublist (List.filter_sublist.map _)
  · intro call member
    obtain ⟨stored, chosen⟩ := List.mem_filter.mp member
    obtain ⟨_, started, effect⟩ := of_decide_eq_true chosen
    exact ⟨get?_of_mem stored, started, effect⟩

/-! ### Cancelling, finishing and resuming -/

theorem onlyIf_saveConversation [Decidable p] {expected : Nat} :
    (onlyIf p (saveConversation c expected a)).Ensures s (fun _ s' => ∃ conversations,
      (p → conversations = s.conversations.put { c with revision := expected + 1 }) ∧
        (¬p → conversations = s.conversations) ∧
        s'.toCore = { s.toCore with conversations := conversations }) := by
  rw [ensures_onlyIf, ensures_saveConversation]
  exact ⟨fun holds _ _ _ _ => ⟨_, fun _ => rfl, absurd holds, rfl⟩,
    fun fails => ⟨_, fun holds => absurd holds fails, fun _ => rfl, rfl⟩⟩

theorem onlyIf_insertMessage [Decidable p] {m : Message} :
    (onlyIf p (insertMessage m)).Ensures s (fun _ s' => s'.toCore = s.toCore) := by
  rw [ensures_onlyIf, ensures_insertMessage]
  exact ⟨fun _ _ _ => rfl, fun _ => rfl⟩

/-- What a cancellation does: nothing to a run that has ended, and otherwise it
ends the run together with its task. -/
inductive Cancelled (s : Core) (old : RunRow) : Core → Prop
  | ended (terminal : old.run.status.terminal = true) : Cancelled s old s
  | cancelled {tools : Table ToolExecution.key} {conversations : Table Conversation.id}
      {new : RunRow} {t : Core}
      (isOpen : old.run.status.terminal = false) (interrupts : Interrupts s.tools tools)
      (same : SameRun old new) (status : new.run.status = .cancelled) (owner : new.owner = none)
      (fence : new.fence = old.fence + 1) (tries : SameAttempts old.run new.run)
      (released : old.run.background = none → Released s.conversations old.run conversations)
      (unchanged : old.run.background ≠ none → conversations = s.conversations)
      (closed : TaskClosed { s with tools := tools, conversations := conversations } new.run false t) :
      Cancelled s old { t with runs := t.runs.put new }

theorem cancelRun_cancels (held : s.conversations.get? old.run.conversationID = some c) :
    (cancelRun c old a).Ensures s (fun _ s' => Cancelled s.toCore old s'.toCore) := by
  unfold cancelRun
  refine ensures_ite.mpr ⟨fun terminal => ensures_pure.mpr (.ended terminal), fun isOpen => ?_⟩
  rw [ensures_bind]
  refine interruptConversationWrites_interrupts.mono ?_
  rintro v s₁ ⟨tools, interrupts, core₁, interrupted⟩
  rw [ensures_bind]
  refine closeRunInteraction_noted.mono ?_
  rintro v' s₂ ⟨core₂, closed⟩
  rw [ensures_bind]
  refine onlyIf_saveConversation.mono ?_
  rintro _ s₃ ⟨conversations, saved, unsaved, core₃⟩
  simp only [wp, ensures_event]
  intro events _
  refine finishConversationTask_closes.mono ?_
  intro _ s₄ ended
  replace ended : TaskClosed s₃.toCore _ _ s₄.toCore := ended
  rw [core₃, core₂, core₁] at ended
  simp only [ensures_saveRun]
  intro _ _ _ _ _ _
  have kept : SameRun old v' := interrupted.same.trans { closed.same with }
  have same : SameRun old { releasedRow v' with eventSeq := v'.eventSeq + 1 } := { kept with }
  have fence : v'.fence + 1 = old.fence + 1 := by rw [closed.fence, interrupted.fence]
  have before : s₂.conversations = s.conversations := by
    have core : s₂.toCore = { s.toCore with tools := tools } := core₂.trans core₁
    rw [core]
  have background : v'.run.background = old.run.background := same.background
  rw [background, before] at saved unsaved
  have tries : SameAttempts old.run (releasedRow v').run :=
    ⟨closed.tries.attempt.trans interrupted.tries.attempt,
      closed.tries.attempts.trans interrupted.tries.attempts⟩
  refine .cancelled (Bool.not_eq_true _ ▸ isOpen) interrupts same closed.status rfl fence tries ?_
    unsaved ended
  intro foreground
  rw [saved foreground]
  refine .saved held
    ⟨rfl, rfl, rfl, .inr (Nat.lt_succ_self _), fun shelved archived => ?_⟩ rfl
  have idle := shelved archived
  simp only [idle, ite_self]

theorem Cancelled.moves {s : Core} (cancelled : Cancelled s old t) (marked : allowed .ends)
    (found : s.runs.get? old.run.id = some old) : Moves allowed s t := by
  cases cancelled with
  | ended => exact .refl
  | cancelled isOpen interrupts same status owner fence tries released unchanged closed =>
    refine .trans interrupts.moves (TaskClosed.follows closed marked ?_ found same
      (.free_open isOpen ?_ owner fence ?_ tries) isOpen ?_ released ?_)
    · rintro _ _ _ _ ⟨_, _, completed, _⟩
      cases status.symm.trans completed
    · rw [status]; exact nofun
    · rw [status]; exact nofun
    · rw [status]; rfl
    · intro background
      rw [unchanged background]

theorem finishedRow_move {s : Core} (code : String) (seq eventSeq : Nat)
    (running : old.run.status = .running) (live : s.now < old.expires)
    (worker : allowed (.finishes old.run.id)) :
    SameRun old { finishedRow old code seq with eventSeq := eventSeq } ∧
      RunMove allowed s old { finishedRow old code seq with eventSeq := eventSeq } ∧
      (finishedRow old code seq).run.status.terminal = true := by
  unfold finishedRow
  split
  · exact ⟨⟨rfl, rfl, rfl, rfl, rfl, rfl⟩,
      .finish running live (.inl rfl) rfl rfl ⟨rfl, rfl⟩ worker, rfl⟩
  · exact ⟨⟨rfl, rfl, rfl, rfl, rfl, rfl⟩,
      .finish running live (.inr rfl) rfl rfl ⟨rfl, rfl⟩ worker, rfl⟩

/-- What a worker that finishes does: its run ends together with its task. -/
inductive Finished (s : Core) (claim : Claim) (code : String) (reported : Bool) : Core → Prop
  | finished {old new : RunRow} {c next : Conversation} {t : Core}
      (accepted : Accepted s claim old) (same : SameRun old new)
      (move : ∀ allowed : Hazard → Prop, allowed (.finishes claim.runID) → RunMove allowed s old new)
      (status : new.run.status = (finishedRow old code 0).run.status)
      (ended : new.run.status.terminal = true)
      (held : s.conversations.get? old.run.conversationID = some c)
      (conversation : SameConversation c next)
      (slot : next.activeRunID = if old.run.background = none then none else c.activeRunID)
      (mine : old.run.background = none → c.activeRunID = some old.run.id)
      (closed : TaskClosed { s with conversations := s.conversations.put next } new.run reported t) :
      Finished s claim code reported { t with runs := t.runs.put new }

theorem finish_finishes : (finish claim content code reported).Ensures s (fun _ t =>
      Finished s.toCore claim code reported t.toCore) := by
  simp only [finish, wp, ensures_claimed, ensures_getConversation]
  intro old checked _ c held _ active _
  have accepted := accepted_of_claimed checked
  have own : old.run.id = claim.runID := (key_of_get? accepted.found : old.key = _)
  have moves (allowed : Hazard → Prop) (worker : allowed (.finishes claim.runID)) :
      _ ∧ RunMove allowed s.toCore old _ ∧ _ :=
    finishedRow_move code (c.lastSeq + 1) ((finishedRow old code (c.lastSeq + 1)).eventSeq + 1)
      accepted.running accepted.live (own ▸ worker)
  obtain ⟨same, _, terminal⟩ := moves (fun _ => True) trivial
  have background : (finishedRow old code (c.lastSeq + 1)).run.background = old.run.background :=
    same.background
  refine onlyIf_insertMessage.mono ?_
  intro _ s₁ core₁
  simp only [ensures_saveConversation, ensures_event]
  intro _ _ _ _ events _
  refine finishConversationTask_closes.mono ?_
  intro _ s₂ ended
  replace ended : TaskClosed { s₁.toCore with conversations := _ } _ _ s₂.toCore := ended
  rw [core₁, background] at ended
  simp only [ensures_saveRun]
  intro _ _ _ _ _ _
  refine .finished accepted same ?_ (by unfold finishedRow; split <;> rfl) terminal held ?_ ?_ ?_
    ended
  · exact fun allowed worker => (moves allowed worker).2.1
  · refine ⟨rfl, rfl, rfl, .inr (Nat.lt_succ_self _), fun shelved archived => ?_⟩
    have idle := shelved archived
    simp only [idle, ite_self]
  · rfl
  · exact fun foreground => active.resolve_left (absurd foreground)

theorem finish_follows (marked : allowed .ends) (worker : allowed (.finishes claim.runID))
    (phase : ∀ old b task, s.runs.get? claim.runID = some old → old.run.background = some b →
      s.tasks.get? b.taskID = some task →
      Unreported task (finishedRow old code 0).run.status reported → allowed .stalePhase) :
    Follows allowed (finish claim content code reported) s := by
  refine finish_finishes.mono ?_
  intro _ t finished
  generalize t.toCore = u at finished
  cases finished with
  | @finished old new c next _ accepted same move status ended held conversation slot mine closed =>
    have isOpen : old.run.status.terminal = false := by rw [accepted.running]; rfl
    refine TaskClosed.follows closed marked ?_ (get?_key accepted.found) same
      (move allowed worker) isOpen ended ?_ ?_
    · intro b task its named unreported
      exact phase old b task accepted.found (same.background ▸ its) named (status ▸ unreported)
    · intro foreground
      refine .saved held conversation ?_
      rw [slot, if_pos foreground, mine foreground]
      simp
    · intro background
      exact .single (.touchConversation (get?_key held) conversation
        (slot.trans (if_neg background)))

theorem delegated_background {task : TaskExecution}
    (delegated : run.delegated = some (id, task)) :
    run.background = some task ∧ task.delegationID = some id := by
  unfold Run.delegated at delegated
  obtain ⟨task', background, named⟩ := Option.bind_eq_some_iff.mp delegated
  obtain ⟨id', belongs, same⟩ := Option.map_eq_some_iff.mp named
  cases same
  exact ⟨background, belongs⟩

theorem resumeRunDelegation_touches (found : s.runs.get? old.run.id = some old) :
    (resumeRunDelegation old a).Ensures s (fun _ s' => ∃ delegations,
      Touched s.runs s.delegations delegations ∧ s' = { s with delegations := delegations } ∧
        ∀ b, old.run.background = some b →
          CurrentWork delegations b.delegationID b.taskID) := by
  unfold resumeRunDelegation
  split
  · next alone =>
    rw [ensures_pure]
    refine ⟨s.delegations, .none, rfl, fun b background id names => ?_⟩
    rw [Run.delegated, background] at alone
    simp [names] at alone
  · next id task delegated =>
    simp only [wp, ensures_conversationDelegation, ensures_onlyIf,
      ensures_saveConversationDelegation]
    rintro d visible ⟨names, _, _, revision, _⟩
    obtain ⟨background, belongs⟩ := delegated_background delegated
    have current : ∀ b, old.run.background = some b →
        CurrentWork s.delegations b.delegationID b.taskID := by
      intro b its other named
      rw [background] at its
      cases its
      rw [belongs] at named
      cases named
      exact ⟨d, get?_of_conversationDelegation visible, names⟩
    refine ⟨fun _ _ _ _ _ => ?_, fun _ => ⟨s.delegations, .none, rfl, current⟩⟩
    have stored := get?_key (get?_of_conversationDelegation visible)
    have touched : Touched s.runs s.delegations
        (s.delegations.put { d with status := .running, revision := d.revision + 1 }) := by
      refine .one stored ⟨rfl, rfl, rfl, rfl, rfl, rfl⟩ ⟨rfl, rfl⟩ ⟨rfl, rfl, rfl, rfl, rfl⟩ ?_
        (fun _ => .of_status (by rintro ⟨⟩))
      intro _
      exact .inr ⟨old.run.id, old, task, found, background, names.symm, revision⟩
    exact ⟨_, touched, rfl, fun b its => touched.current (current b its)⟩

/-- What the restart of a background run does to its task. -/
inductive TaskReopened (s : Core) (run : Run) : Core → Prop
  | foreground (none : run.background = none) : TaskReopened s run s
  | running {b : TaskExecution} {task : Task} (background : run.background = some b)
      (named : s.tasks.get? b.taskID = some task) (running : task.status = .running) :
      TaskReopened s run s
  | reopened {b : TaskExecution} {task : Task} {progress : GoalProgress}
      (background : run.background = some b)
      (named : s.tasks.get? b.taskID = some task) (executes : task.executionRunID = some run.id)
      (ended : task.status = .failed ∨ task.status = .cancelled)
      (phase : progress.phase = .executing) :
      TaskReopened s run { s with
        tasks := s.tasks.put { task with
          status := .running, errorCode := "", goalProgress := progress } }

theorem resumeConversationTask_reopens : (resumeConversationTask run a).Ensures s
      (fun _ s' => TaskReopened s.toCore run s'.toCore) := by
  unfold resumeConversationTask
  split
  · next none =>
    rw [ensures_pure]
    exact .foreground none
  · next b background =>
    simp only [wp, ensures_taskRow]
    intro task named _
    rw [ensures_ite]
    refine ⟨fun running => ensures_pure.mpr (.running background named running), fun _ => ?_⟩
    simp only [wp, ensures_saveTask]
    rintro ⟨executes, ended⟩ _ _ _
    exact @TaskReopened.reopened _ _ _ task _ background named executes ended rfl

/-- A run that restarts with its task follows the protocol, unless the task
runs under another one. -/
theorem TaskReopened.follows {s : Core}
    (reopened : TaskReopened { s with conversations := conversations } new.run t)
    (found : s.runs.get? old.run.id = some old) (same : SameRun old new)
    (move : RunMove allowed s old new) (isOpen : new.run.status.terminal = false)
    (slot : old.run.background = none →
      (∃ c next, Taken s.conversations old.run c next ∧ conversations = s.conversations.put next) ∨
      old.run.status.terminal = false ∧ Moves allowed s { s with conversations := conversations })
    (unchanged : old.run.background ≠ none → conversations = s.conversations)
    (stray : ∀ b task, old.run.background = some b → s.tasks.get? b.taskID = some task →
      task.status = .running → task.executionRunID ≠ some old.run.id → allowed .strayResume)
    (current : ∀ b, old.run.background = some b →
      CurrentWork s.delegations b.delegationID b.taskID) :
    Moves allowed s { t with runs := t.runs.put new } := by
  cases reopened with
  | foreground none =>
    have foreground := same.background ▸ none
    rcases slot foreground with ⟨c, next, taken, rfl⟩ | ⟨was, touches⟩
    · exact .single (.reopenRun found same move isOpen foreground taken)
    · exact touches.tail (.run found same (move.transfer rfl rfl rfl rfl) (isOpen.trans was.symm))
  | @running b task background named running =>
    have background' := same.background ▸ background
    obtain rfl := unchanged (by rw [background']; exact Option.some_ne_none b)
    refine .single (.reopenRunning found same move isOpen background' named running ?_
      (current b background'))
    exact or_iff_not_imp_left.mpr (stray b task background' named running)
  | @reopened b task progress background named executes ended phase =>
    have background' := same.background ▸ background
    obtain rfl := unchanged (by rw [background']; exact Option.some_ne_none b)
    exact .single (.reopenTask found same move isOpen background' named (same.id ▸ executes) ended
      phase (current b background'))

/-- A queue check that passes leaves room. -/
theorem queueRoom_of_check (passed : (checkConversationQueueCapacity a).peek s = .ok ()) :
    QueueRoom s.toCore a := by
  have room : (checkConversationQueueCapacity a).Ensures s (fun _ _ => QueueRoom s.toCore a) := by
    simp only [checkConversationQueueCapacity, wp]
    cases configured : s.limits with
    | none =>
      rw [ensures_pure]
      intro limits other
      rw [configured] at other
      cases other
    | some limits =>
      simp only [wp, ensures_conversationAuthority]
      intro _ user workspace limits' same
      rw [configured] at same
      cases same
      exact ⟨user, workspace⟩
  exact room.peek (readOnly_checkConversationQueueCapacity a) passed

theorem resumeRun_follows (found : s.runs.get? old.run.id = some old)
    (held : s.conversations.get? old.run.conversationID = some c)
    (stray : ∀ b task, old.run.background = some b → s.tasks.get? b.taskID = some task →
      task.status = .running → task.executionRunID ≠ some old.run.id → allowed .strayResume)
    (principal : conversationOwner a = conversationOwner old.authority) :
    Follows allowed (resumeRun c old a) s := by
  simp only [resumeRun, ensures_bind]
  refine (resumeRunDelegation_touches found).mono ?_
  rintro _ _ ⟨delegations, touched, rfl, current⟩
  rw [ensures_demand]
  intro _
  refine ensures_ite.mpr ⟨fun _ => ensures_pure.mpr touched.moves, fun _ => ?_⟩
  simp only [wp, ensures_checkConversationQueueCapacity]
  intro _ shown _ superseded passed
  have saves : SameConversation c
      { c with activeRunID := some old.run.id, revision := c.revision + 1 } :=
    ⟨rfl, rfl, rfl, .inr (Nat.lt_succ_self _),
      fun _ archived => absurd archived (Bool.eq_false_iff.mp shown)⟩
  refine onlyIf_saveConversation.mono ?_
  rintro _ s₁ ⟨conversations, saved, unsaved, core₁⟩
  rw [ensures_event]
  intro events _
  refine resumeConversationTask_reopens.mono ?_
  intro _ s₂ reopened
  replace reopened : TaskReopened s₁.toCore _ s₂.toCore := reopened
  rw [core₁] at reopened
  rw [ensures_saveRun]
  intro _ _ _ _ _ _
  have same : SameRun old { resumedRow old a with eventSeq := old.eventSeq + 1 } :=
    ⟨rfl, rfl, rfl, rfl, rfl, principal⟩
  have move : RunMove allowed { s.toCore with delegations := delegations } old
      { resumedRow old a with eventSeq := old.eventSeq + 1 } :=
    .free (by rintro ⟨⟩) (fun _ => rfl) rfl rfl
      (fun _ => (queueRoom_of_check passed).of_principal principal) ⟨rfl, rfl⟩
  refine .trans touched.moves
    (TaskReopened.follows reopened found same move rfl ?_ unsaved stray current)
  intro foreground
  rw [saved foreground]
  rcases (superseded.resolve_left (absurd foreground)).1 with free | ⟨mine, waits⟩
  · exact .inl ⟨c, _, ⟨held, saves, free, rfl⟩, rfl⟩
  · refine .inr ⟨by rw [waits]; rfl, ?_⟩
    exact .single (.touchConversation (get?_key held) saves mine.symm)

theorem cancel_cancels : (transitionRun id runID a false).Ensures s (fun _ s' => ∃ old,
      s.runs.get? runID = some old ∧ Cancelled s.toCore old s'.toCore) := by
  simp only [transitionRun, wp, ensures_getConversation, ensures_runRow]
  intro _ c held _ old found conversation _
  exact (cancelRun_cancels (conversation ▸ held)).mono
    (fun _ _ cancelled => ⟨old, found, cancelled⟩)

theorem cancel_follows (marked : allowed .ends) :
    Follows allowed (transitionRun id runID a false) s :=
  cancel_cancels.mono fun _ _ ⟨_, found, cancelled⟩ =>
    cancelled.moves marked (get?_key found)

theorem resume_follows
    (stray : ∀ old b task, s.runs.get? runID = some old → old.run.background = some b →
      s.tasks.get? b.taskID = some task → task.status = .running →
      task.executionRunID ≠ some runID → allowed .strayResume) :
    Follows allowed (transitionRun id runID a true) s := by
  simp only [transitionRun, wp, ensures_getConversation, ensures_runRow]
  intro _ c held _ old found conversation principal
  have names : old.key = runID := key_of_get? found
  refine resumeRun_follows (get?_key found) (conversation ▸ held) ?_ principal.symm
  intro b task background named running elsewhere
  exact stray old b task found background named running (names ▸ elsewhere)

/-! ### Queueing, leasing and streaming -/

theorem enqueue_follows {input : Send}
    (borrow : ∀ t r b n, input.clientMessageID = .background t r b n → allowed .borrow) :
    Follows allowed (enqueue id input a) s := by
  simp only [enqueue, wp, ensures_getConversation]
  intro _ c held _
  split
  · rw [ensures_demand]
    exact fun _ => .refl
  · simp only [wp, ensures_checkConversationQueueCapacity, ensures_saveConversation,
      ensures_insertMessage, ensures_event, ensures_insertRun]
    intro _ shown free passed _ _ _ _ _ _ _ _ _ _ grown inserted
    refine .single (.openRun ⟨rfl, rfl, rfl⟩ rfl inserted
      ⟨get?_key held, ⟨rfl, rfl, rfl, .inr (Nat.lt_succ_self _),
        fun _ archived => absurd archived (Bool.eq_false_iff.mp shown)⟩, free, rfl⟩
      (queueRoom_of_check passed) ?_)
    by_cases taken : ∃ t r b n, input.clientMessageID = .background t r b n
    · obtain ⟨t, r, b, n, taken⟩ := taken
      exact .inr (borrow t r b n taken)
    · exact .inl fun t r b n same => taken ⟨t, r, b, n, same⟩

/-- A lease as it is handed out: the run was idle, and the claim holds it at
the next fence. -/
structure Leased (s : Core) (agents : List AgentProfile) (claim : Claim) (old new : RunRow) :
    Prop where
  found : s.runs.get? old.run.id = some old
  idle : old.run.status = .queued ∨ old.run.status = .running ∧ old.expires ≤ s.now
  same : SameRun old new
  authority : new.authority = old.authority
  running : new.run.status = .running
  fence : new.fence = old.fence + 1
  issued : claim = ⟨new.authority, new.run.conversationID, new.run.id, claim.owner, new.fence⟩
  owner : new.owner = some claim.owner
  room : old.run.status = .queued → checkConversationRunningCapacity s old.authority = none ∧
    peerAgentCapacity s agents old = true
  tries : new.run.attempt = old.run.attempt + 1 ∧ new.run.modelAttempts = old.run.modelAttempts

/-- What `Claim` answers and does. -/
inductive Claims (s : Core) (agents : List AgentProfile) : Option Claim → Core → Prop
  | none : Claims s agents none s
  | leased {claim : Claim} {old new : RunRow} (lease : Leased s agents claim old new) :
      Claims s agents (some claim) { s with runs := s.runs.put new }

theorem claimLoop_claims {candidates : List RunRow} {owners : List OwnerKey}
    {workspaces : List (Id × Id)}
    (idle : ∀ old ∈ candidates, s.runs.get? old.run.id = some old ∧
      (old.run.status = .queued ∨ old.run.status = .running ∧ old.expires ≤ s.now)) :
    (claimLoop worker ttl agents candidates owners workspaces).Ensures s
      (fun out s' => Claims s.toCore agents out s'.toCore) := by
  induction candidates generalizing owners workspaces with
  | nil =>
    rw [claimLoop, ensures_pure]
    exact .none
  | cons old rest ih =>
    have here := idle old List.mem_cons_self
    have later := fun next member => idle next (List.mem_cons_of_mem _ member)
    have lease (room : old.run.status = .queued →
        checkConversationRunningCapacity s.toCore old.authority = none ∧
          peerAgentCapacity s.toCore agents old = true) :
        (leaseRun old worker ttl).Ensures s (fun out s' => Claims s.toCore agents out s'.toCore) := by
      simp only [leaseRun, wp, ensures_getConversation, ensures_event, ensures_saveRun]
      intro _ _ _ _ _ _ _ _ _ _ _ _ _
      exact .leased ⟨here.1, here.2, ⟨rfl, rfl, rfl, rfl, rfl, rfl⟩, rfl, rfl, rfl, rfl, rfl, room,
        rfl, rfl⟩
    simp only [claimLoop, wp]
    split
    · next taken => exact lease fun queued => absurd queued taken
    · split
      · exact ih later
      · next available =>
        split
        · exact ih later
        · exact ih later
        · next quota =>
          refine lease fun _ => ⟨quota, ?_⟩
          exact (Bool.not_eq_false _).mp fun busy => available (.inl busy)

/-- A candidate waits for a worker, or for another one. -/
theorem idle_of_candidate (member : old ∈ claimCandidates s runtimeID) :
    s.runs.get? old.run.id = some old ∧
      (old.run.status = .queued ∨ old.run.status = .running ∧ old.expires ≤ s.now) := by
  have chosen := List.mem_filter.mp (List.mem_insertionSort _ |>.mp member)
  exact ⟨get?_of_mem chosen.1, (of_decide_eq_true chosen.2).2⟩

theorem claimRun_claims : (claimRun runtimeID worker ttl agents).Ensures s
      (fun out s' => Claims s.toCore agents out s'.toCore) := by
  simp only [claimRun, wp]
  intro _
  exact claimLoop_claims fun _ => idle_of_candidate

theorem Claims.moves {s : Core} {out : Option Claim} (claims : Claims s agents out t)
    (may : allowed (.claims agents)) : Moves allowed s t := by
  cases claims with
  | none => exact .refl
  | leased lease =>
    refine .single (.run lease.found lease.same
      (.lease lease.idle lease.running lease.fence may lease.room lease.tries) ?_)
    rw [lease.running]
    rcases lease.idle with queued | ⟨running, _⟩
    · rw [queued]; rfl
    · rw [running]

theorem heartbeat_follows : Follows allowed (heartbeat claim ttl) s := by
  simp only [heartbeat, wp]
  intro _
  split
  · exact ensures_pure.mpr .refl
  · next row live =>
    simp only [wp]
    obtain ⟨found, held⟩ := Option.filter_eq_some_iff.mp live
    obtain ⟨_, _, running, _, _, unexpired⟩ := of_decide_eq_true held
    exact .single (.run (get?_key found) ⟨rfl, rfl, rfl, rfl, rfl, rfl⟩
      (.extend running unexpired running rfl rfl ⟨rfl, rfl⟩) rfl)

/-- One more event is a touch. -/
theorem Noted.event (row : RunRow) : Noted row { row with eventSeq := row.eventSeq + 1 } :=
  ⟨⟨rfl, rfl, rfl, rfl, rfl, rfl⟩, rfl, rfl, rfl, rfl, rfl, rfl, rfl⟩

theorem appendEvent_follows {kind : Id} : Follows allowed (appendEvent claim kind) s := by
  simp only [appendEvent, wp, ensures_claimed, ensures_event, ensures_saveRun]
  intro old checked _ _ _ _ _ _ _ _
  exact (Noted.event old).moves (get?_key (accepted_of_claimed checked).found)

theorem appendDelta_follows {offset : Nat} {delta : String} :
    Follows allowed (appendDelta claim offset delta) s := by
  simp only [appendDelta, wp, ensures_claimed]
  intro _ old checked
  refine ensures_ite.mpr ⟨fun _ => ensures_demand.mpr (fun _ => .refl), fun _ => ?_⟩
  simp only [wp, ensures_event, ensures_saveRun]
  intro _ _ _ _ _ _ _ _ _
  have noted : Noted old { old with
      eventSeq := old.eventSeq + 1
      run := { old.run with draftText := old.run.draftText ++ delta } } :=
    ⟨⟨rfl, rfl, rfl, rfl, rfl, rfl⟩, rfl, rfl, rfl, rfl, rfl, rfl, rfl⟩
  exact noted.moves (get?_key (accepted_of_claimed checked).found)

/-! ### Interactions -/

theorem writeInteraction_core {insert : Bool} :
    (writeInteraction record insert).Ensures s (fun _ s' => s'.toCore = s.toCore) := by
  unfold writeInteraction
  split
  · rw [ensures_insertRow]
    exact fun _ _ => rfl
  · rw [ensures_write]

theorem waitingStatus_open (kind : InteractionKind) : waitingStatus kind ≠ .running ∧
    waitingStatus kind ≠ .queued ∧ (waitingStatus kind).terminal = false := by
  cases kind <;> exact ⟨nofun, nofun, rfl⟩

theorem waitExecution_follows {wait : Wait} : Follows allowed (waitExecution claim wait) s := by
  simp only [waitExecution, wp, ensures_claimed]
  rintro _ old checked step _ result _ ⟨call, nested⟩ _ _ _ _ record _
  have accepted := accepted_of_claimed checked
  refine writeInteraction_core.mono ?_
  intro _ s₁ core₁
  simp only [ensures_event, ensures_saveRun]
  intro _ _ _ _ _ _ _ _ _ _
  have found : s₁.toCore.runs.get? old.run.id = some old := by
    rw [core₁]
    exact get?_key accepted.found
  obtain ⟨idle, unqueued, isOpen⟩ := waitingStatus_open wait.kind
  rw [← core₁]
  have started : old.run.status.terminal = false := by rw [accepted.running]; rfl
  refine .single (.run found ⟨rfl, rfl, rfl, rfl, rfl, rfl⟩
    (.free_open started idle rfl rfl (fun queued => absurd queued unqueued) ⟨rfl, rfl⟩) ?_)
  rw [started]
  exact isOpen

theorem waiting_open (waiting : status.waiting = true) : status.terminal = false := by
  cases status <;> first | rfl | cases waiting

/-- An expiry ends the run without its task. -/
theorem expireInteraction_follows (marked : allowed .ends)
    (found : s.runs.get? old.run.id = some old) (waiting : old.run.status.waiting = true)
    (held : s.conversations.get? old.run.conversationID = some c)
    (abandon : old.run.background ≠ none → allowed .abandonTask) :
    Follows allowed (expireInteraction old c record) s := by
  unfold expireInteraction
  refine ensures_ite.mpr ⟨fun _ => ?_, fun _ => ensures_pure.mpr .refl⟩
  rw [ensures_bind]
  refine closeRunInteraction_noted.mono ?_
  rintro v s₁ ⟨core₁, noted⟩
  rw [ensures_bind]
  refine onlyIf_saveConversation.mono ?_
  rintro _ s₂ ⟨conversations, saved, unsaved, core₂⟩
  simp only [wp, ensures_event, ensures_saveRun]
  intro _ _ _ _ _ _ _ _
  rw [core₁] at core₂
  rw [core₂]
  have fence : v.fence + 1 = old.fence + 1 := by rw [noted.fence]
  have before : s₁.conversations = s.conversations := congrArg Core.conversations core₁
  have names : v.run.id = old.run.id := noted.same.id
  rw [names, before] at saved unsaved
  have isOpen := waiting_open waiting
  refine .single (.endRun found { noted.same with }
    (.free_open isOpen (by rintro ⟨⟩) rfl fence (by rintro ⟨⟩)
      { noted.tries with }) isOpen rfl ?_ ?_ marked)
  · exact or_iff_not_imp_left.mpr abandon
  · by_cases active : c.activeRunID = some old.run.id
    · rw [saved active]
      exact .saved held ⟨rfl, rfl, rfl, .inr (Nat.lt_succ_self _), fun _ _ => rfl⟩
        (if_pos active).symm
    · rw [unsaved active]
      exact .elsewhere held active

/-- A rejection ends the run without its task. -/
theorem applyResponse_follows {status : InteractionStatus}
    (marked : allowed .ends) (found : s.runs.get? old.run.id = some old)
    (waiting : old.run.status.waiting = true)
    (held : s.conversations.get? old.run.conversationID = some c)
    (principal : conversationOwner a = conversationOwner old.authority)
    (room : status ≠ .rejected → QueueRoom s.toCore old.authority)
    (abandon : old.run.background ≠ none → status = .rejected → allowed .abandonTask) :
    Follows allowed (applyResponse c old record response status a) s := by
  simp only [applyResponse, wp]
  refine writeInteraction_core.mono ?_
  intro _ s₁ core₁
  simp only [ensures_insertMessage, ensures_saveConversation, ensures_event, ensures_saveRun]
  intro _ _ _ _ _ _ _ _ _ _ _ _ _ _ _ _
  rw [core₁]
  have isOpen := waiting_open waiting
  by_cases rejected : status = .rejected
  · subst rejected
    refine .single (.endRun found ⟨rfl, rfl, rfl, rfl, rfl, principal⟩
      (.free_open isOpen (by rintro ⟨⟩) rfl rfl (by rintro ⟨⟩)
        ⟨rfl, rfl⟩) isOpen rfl
      ?_ ?_ marked)
    · exact or_iff_not_imp_left.mpr fun background => abandon background rfl
    · exact .saved held ⟨rfl, rfl, rfl, .inr (Nat.lt_succ_self _),
        fun shelved archived => by simp [shelved archived]⟩ (by simp)
  · have queued : (respondedRow old
        { record.interaction with
          status := status, answer := response.answer
          revision := record.interaction.revision + 1 } status (c.lastSeq + 1) a).run.status =
        .queued := if_neg rejected
    refine .tail (.single (.touchConversation (get?_key held) ?_ ?_))
      (.run ?_ ?_ (.free_open isOpen ?_ rfl rfl (fun _ => room rejected) ⟨rfl, rfl⟩) ?_)
    · exact ⟨rfl, rfl, rfl, .inr (Nat.lt_succ_self _),
        fun shelved archived => by simp [shelved archived]⟩
    · simp [rejected]
    · exact found
    · exact ⟨rfl, rfl, rfl, rfl, rfl, principal⟩
    · intro running
      cases queued.symm.trans running
    · rw [isOpen]
      exact congrArg RunStatus.terminal queued

theorem respondedStatus_rejected {i : Interaction}
    (rejected : respondedStatus i response = some .rejected) : response.decision = .reject := by
  unfold respondedStatus at rejected
  split at rejected
  · split at rejected <;> cases rejected
  · split at rejected <;> cases rejected
  · assumption
  · cases rejected

/-- A response that ends its run: a rejection, or one that comes too late. -/
def EndsRun (s : Db) (runID : Id) (response : InteractionResponse) : Prop :=
  response.decision = .reject ∨ ∃ record ∈ s.interactions.rows, record.interaction.runID = runID ∧
    record.interaction.id = response.interactionID ∧ record.interaction.expiresAt.any (· ≤ s.now)

theorem respondExecution_follows (marked : allowed .ends)
    (abandon : ∀ old, s.runs.get? runID = some old → old.run.background ≠ none →
      old.run.status.waiting = true → EndsRun s runID response → allowed .abandonTask) :
    Follows allowed (respondExecution id runID response a) s := by
  simp only [respondExecution, wp, ensures_getConversation, ensures_runRow]
  intro _ _ c held _ old found conversation principal record chosen
  split
  · exact ensures_demand.mpr (fun _ => .refl)
  · simp only [wp]
    rintro ⟨_, _, waiting, _⟩ _
    have here := get?_key found
    have member := List.mem_of_find?_eq_some chosen
    have names : record.interaction.runID = runID ∧
        record.interaction.id = response.interactionID := by
      simpa using List.find?_some chosen
    refine ensures_ite.mpr ⟨fun late => ?_, fun _ => ?_⟩
    · refine expireInteraction_follows marked here waiting (conversation ▸ held) (fun background => ?_)
      exact abandon old found background waiting (.inr ⟨record, member, names.1, names.2, late⟩)
    · simp only [wp]
      intro _ status responded
      have respond (room : status ≠ .rejected → QueueRoom s.toCore old.authority) :
          Follows allowed (applyResponse c old record response status a) s := by
        refine applyResponse_follows marked here waiting (conversation ▸ held) principal.symm room
          (fun background rejected => ?_)
        exact abandon old found background waiting
          (.inl (respondedStatus_rejected (rejected ▸ responded)))
      refine ensures_ite.mpr ⟨fun rejected => respond (absurd rejected), fun _ => ?_⟩
      simp only [wp, ensures_checkConversationQueueCapacity]
      exact fun passed => respond fun _ => (queueRoom_of_check passed).of_principal principal.symm

/-- A run that waits on an interaction whose time is over. -/
def Overdue (now : Time) (row : RunRow) : Prop :=
  row.run.status.waiting = true ∧ ∃ i, row.run.interaction = some i ∧ i.status = .pending ∧
    i.expiresAt.any (· ≤ now)

theorem expireRunInteraction_follows (marked : allowed .ends)
    (abandon : ∀ old, s.runs.get? runID = some old → old.run.background ≠ none →
      Overdue s.now old → allowed .abandonTask) :
    Follows allowed (expireRunInteraction runID) s := by
  simp only [expireRunInteraction, wp]
  intro row found
  split
  · exact ensures_pure.mpr .refl
  · next i waits =>
    refine ensures_ite.mpr ⟨?_, fun _ => ensures_pure.mpr .refl⟩
    rintro ⟨pending, late, waiting⟩
    simp only [wp, ensures_getConversation]
    intro _ c held _
    split
    · exact ensures_pure.mpr .refl
    · refine expireInteraction_follows marked (get?_key found) waiting held (fun background => ?_)
      exact abandon row found background ⟨waiting, i, waits, pending, late⟩

end DomainryAgent.Refinement
