import DomainryAgent.Scheduling
import DomainryAgent.TaskRecords

/-!
Acceptance and launch happen once.

A request of a scheduler or of a business event is accepted under an idempotency
key, for which the id of its task stands.  What an acceptance finds (`RequestAccepted`)
no later operation takes away, so the same request is answered with the same
task for good.  Two departures are in the source.  The event that wakes a
finished task looks at that task before it looks for the earlier acceptance, so
its repetition is refused while the task is at work again.  And the client id of
a launch is a text that a user may send as the client id of a message of their
own (`borrow`); the launch then fails over the run there is.
-/

namespace DomainryAgent

open Lib Tx Table Protocol Refinement

variable {s t u : Db} {start : TaskStart} {origin : TaskOrigin} {a : Authority}

/-! ### What an acceptance finds -/

/-- The conversation, the source run and the task of an accepted request. -/
structure RequestAccepted (start : TaskStart) (origin : TaskOrigin) (a : Authority) (c : Core) :
    Prop where
  known : a.known = true
  conversation : ∃ found, c.conversations.get? start.conversationID = some found ∧
    found.owner = conversationOwner a ∧
    (origin = .businessEvent → found.agentID = start.agent.map (·.id))
  source : ∀ r, start.sourceRunID = some r → ∃ row, c.runs.get? r = some row ∧
    row.run.conversationID = start.conversationID ∧
    conversationOwner row.authority = conversationOwner a
  task : ∃ task, c.tasks.get? start.taskID = some task ∧ task.requestHash = start.requestHash ∧
    conversationOwner task.authority = conversationOwner a ∧ task.origin = origin

/-- The finished task that an event wakes belongs to the conversation and the
agent of the event. -/
def RelatedTo (start : TaskStart) (relatedTaskID : Option Id) (a : Authority) (c : Core) : Prop :=
  ∀ id, relatedTaskID = some id → ∃ related, c.tasks.get? id = some related ∧
    conversationOwner related.authority = conversationOwner a ∧
    related.sourceConversationID = start.conversationID ∧
    related.agent.map (·.id) = start.agent.map (·.id)

variable {allowed : Hazard → Prop} {x y : Core} {conversationID runtimeID runID : Id}
  {sourceRunID : Option Id} {task : Task}

theorem RequestAccepted.step (step : Step allowed x y) (accepted : RequestAccepted start origin a x) :
    RequestAccepted start origin a y := by
  refine ⟨accepted.known, ?_, fun r named => ?_, ?_⟩
  · obtain ⟨found, there, owner, agent⟩ := accepted.conversation
    obtain ⟨later, stays, same⟩ := step.conversation_stays there
    exact ⟨later, stays, same.owner.trans owner, fun event => same.agent.trans (agent event)⟩
  · obtain ⟨row, there, conversation, owner⟩ := accepted.source r named
    obtain ⟨later, stays, same⟩ := step.run_stays there
    exact ⟨later, stays, same.conversation.trans conversation, same.principal.trans owner⟩
  · obtain ⟨task, there, hash, owner, from_origin⟩ := accepted.task
    obtain ⟨later, stays, same⟩ := step.task_stays there
    refine ⟨later, stays, ?_, same.authority ▸ owner, ?_⟩
    · exact (congrArg (·.2.1) same.asked).trans hash
    · exact (congrArg (·.1) same.asked).trans from_origin

variable {relatedTaskID : Option Id} {code : String}

theorem RelatedTo.step (step : Step allowed x y) (related : RelatedTo start relatedTaskID a x) :
    RelatedTo start relatedTaskID a y := by
  intro id named
  obtain ⟨task, there, owner, conversation, agent⟩ := related id named
  obtain ⟨later, stays, same⟩ := step.task_stays there
  refine ⟨later, stays, same.authority ▸ owner, ?_, ?_⟩
  · exact (congrArg (·.2.2.2.1) same.asked).trans conversation
  · have kept : later.agent = task.agent := congrArg (·.2.2.2.2.2) same.asked
    rw [kept]
    exact agent

/-- An acceptance leaves a task of the request and adds nothing else. -/
theorem acceptConversationTask_accepts :
    (acceptConversationTask start origin code a).Ensures s (fun _ t =>
      (∃ task, t.tasks.get? start.taskID = some task ∧ task.requestHash = start.requestHash ∧
        conversationOwner task.authority = conversationOwner a ∧ task.origin = origin) ∧
      (∀ k task, s.tasks.get? k = some task → t.tasks.get? k = some task) ∧
      t.conversations = s.conversations ∧ t.runs = s.runs) := by
  simp only [acceptConversationTask, wp]
  split
  · next task found =>
    simp only [wp]
    rintro ⟨hash, owner, same⟩
    exact ⟨⟨task, found, hash, owner, same⟩, fun _ _ there => there, trivial, trivial⟩
  · simp only [wp, ensures_checkConversationQueueCapacity, ensures_insertTask]
    intro _ grown inserted
    refine ⟨⟨_, get?_insert?_self inserted, rfl, rfl, rfl⟩, fun k task there => ?_,
      trivial, trivial⟩
    exact get?_insert?_of_some inserted there

theorem ensures_checkSourceRun {Q : Unit → Db → Prop} :
    (checkSourceRun conversationID sourceRunID a).Ensures s Q ↔
      ((∀ r, sourceRunID = some r → ∃ row, s.runs.get? r = some row ∧
        row.run.conversationID = conversationID ∧
        conversationOwner row.authority = conversationOwner a) → Q () s) := by
  unfold checkSourceRun
  cases sourceRunID with
  | none => simp
  | some r =>
    simp only [wp, ensures_runRow, Option.some.injEq]
    constructor
    · intro found all
      obtain ⟨row, there, conversation, owner⟩ := all r rfl
      exact found row there conversation owner
    · intro holds row there conversation owner
      apply holds
      rintro _ rfl
      exact ⟨row, there, conversation, owner⟩

theorem acceptScheduledConversationTask_accepts :
    (acceptScheduledConversationTask start a).Ensures s (fun _ t =>
      RequestAccepted start .schedule a t.toCore) := by
  simp only [acceptScheduledConversationTask, wp, ensures_getConversation, ensures_checkSourceRun]
  intro known found there owner source
  have id : found.id = start.conversationID := key_of_get? there
  refine acceptConversationTask_accepts.mono ?_
  rintro _ t ⟨task, _, conversations, runs⟩
  refine ⟨known, ⟨found, ?_, owner, by simp⟩, ?_, task⟩
  · rw [conversations]; exact there
  · rw [runs, ← id]; exact source

theorem acceptBusinessEventConversationTask_accepts :
    (acceptBusinessEventConversationTask start relatedTaskID a).Ensures s (fun _ t =>
      RequestAccepted start .businessEvent a t.toCore ∧ RelatedTo start relatedTaskID a t.toCore ∧
      start.sourceRunID = none ∧ start.followUp = false ∧ start.agent.isSome = true) := by
  have checked : (checkRelatedTask start relatedTaskID a).Ensures s (fun _ t =>
      t = s ∧ RelatedTo start relatedTaskID a t.toCore) := by
    unfold checkRelatedTask
    split
    · simp [RelatedTo]
    · simp only [wp, ensures_taskRow]
      intro task there owner belongs _
      refine ⟨trivial, ?_⟩
      rintro _ ⟨⟩
      exact ⟨task, there, owner, belongs⟩
  simp only [acceptBusinessEventConversationTask, wp, ensures_getConversation]
  intro input known found there owner agent
  refine checked.mono ?_
  rintro _ _ ⟨rfl, related⟩
  refine acceptConversationTask_accepts.mono ?_
  rintro _ t ⟨task, kept, conversations, runs⟩
  refine ⟨⟨known, ⟨found, ?_, owner, fun _ => agent⟩, fun r named => ?_, task⟩, ?_, input⟩
  · rw [conversations]; exact there
  · rw [input.1] at named
    cases named
  · intro id named
    obtain ⟨other, at_other, rest⟩ := related id named
    exact ⟨other, kept id other at_other, rest⟩

/-! ### Repetitions -/

/-- The task of a request, found again. -/
abbrev Answers (m : StoreTx (Task × Bool)) (start : TaskStart) (u : Db) : Prop :=
  ∃ task, u.tasks.get? start.taskID = some task ∧ m u = .ok ((task, true), u)

/-- The transaction answers with the task and changes nothing. -/
abbrev Recalls (m : StoreTx (Task × Bool)) (task : Task) (u : Db) : Prop :=
  m.Runs u (fun out t => out = (task, true) ∧ t = u) (fun _ => False)

theorem Recalls.answers {m : StoreTx (Task × Bool)} (repeats : Recalls m task u)
    (found : u.tasks.get? start.taskID = some task) : Answers m start u := by
  obtain ⟨_, _, commits, rfl, rfl⟩ := repeats.1.commits repeats.2
  exact ⟨task, found, commits⟩

theorem acceptConversationTask_repeats (found : s.tasks.get? start.taskID = some task)
    (hash : task.requestHash = start.requestHash)
    (owner : conversationOwner task.authority = conversationOwner a) (same : task.origin = origin) :
    Recalls (acceptConversationTask start origin code a) task s := by
  constructor
  · simp [acceptConversationTask, found]
  · simp [acceptConversationTask, found, hash, owner, same]

/-- A request with another payload is refused under the key. -/
theorem acceptConversationTask_refuses (found : s.tasks.get? start.taskID = some task)
    (other : task.requestHash ≠ start.requestHash) :
    (acceptConversationTask start origin code a).Ensures s (fun _ _ => False) := by
  simp [acceptConversationTask, found, other]

theorem total_getConversation {id : Id} {c : Conversation} (known : a.known = true)
    (found : s.conversations.get? id = some c) (owner : c.owner = conversationOwner a) :
    (getConversation id a).Total s := by
  simp [getConversation, conversationAuthority, known, found, owner]

theorem total_checkSourceRun
    (source : ∀ r, sourceRunID = some r → ∃ row, s.runs.get? r = some row ∧
      row.run.conversationID = conversationID ∧
      conversationOwner row.authority = conversationOwner a) :
    (checkSourceRun conversationID sourceRunID a).Total s := by
  unfold checkSourceRun
  split
  · simp
  · next r =>
    obtain ⟨row, there, conversation, owner⟩ := source r rfl
    simp [runRow, there, conversation, owner]

/-- An accepted schedule is answered with its task. -/
theorem RequestAccepted.answers_schedule (accepted : RequestAccepted start .schedule a u.toCore) :
    Answers (acceptScheduledConversationTask start a) start u := by
  obtain ⟨task, found, hash, owner, same⟩ := accepted.task
  obtain ⟨c, there, mine, _⟩ := accepted.conversation
  refine Recalls.answers ⟨?_, ?_⟩ found
  · simp only [acceptScheduledConversationTask, wp, ensures_getConversation, ensures_checkSourceRun]
    intros
    exact (acceptConversationTask_repeats found hash owner same).1
  · simp only [acceptScheduledConversationTask, wpe, ensures_getConversation,
      ensures_checkSourceRun]
    refine ⟨total_getConversation accepted.known there mine, fun _ c' there' _ =>
      ⟨total_checkSourceRun ?_, fun _ => (acceptConversationTask_repeats found hash owner same).2⟩⟩
    rw [key_of_get? there']
    exact accepted.source

/-- An accepted event is answered with its task, as long as the task that it
wakes is not at work. -/
theorem RequestAccepted.answers_event (accepted : RequestAccepted start .businessEvent a u.toCore)
    (related : RelatedTo start relatedTaskID a u.toCore)
    (input : start.sourceRunID = none ∧ start.followUp = false ∧ start.agent.isSome = true)
    (ended : ∀ id task, relatedTaskID = some id → u.tasks.get? id = some task →
      task.status.terminal = true) :
    Answers (acceptBusinessEventConversationTask start relatedTaskID a) start u := by
  obtain ⟨task, found, hash, owner, same⟩ := accepted.task
  obtain ⟨c, there, mine, agent⟩ := accepted.conversation
  refine Recalls.answers ⟨?_, ?_⟩ found
  · simp only [acceptBusinessEventConversationTask, wp, ensures_getConversation,
      (readOnly_checkRelatedTask _ _ _).ensures]
    intros
    exact (acceptConversationTask_repeats found hash owner same).1
  · simp only [acceptBusinessEventConversationTask, wpe, wp, ensures_getConversation,
      (readOnly_checkRelatedTask _ _ _).ensures]
    refine ⟨fun refused => refused input, fun _ => ⟨total_getConversation accepted.known there mine,
      fun _ c' there' _ => ⟨fun refused => refused ?_, fun _ =>
        ⟨?_, fun _ _ => (acceptConversationTask_repeats found hash owner same).2⟩⟩⟩⟩
    · rw [there] at there'
      cases there'
      exact agent rfl
    · unfold checkRelatedTask
      split
      · simp
      · next id =>
        obtain ⟨task, there, owner, conversation, agent⟩ := related id rfl
        have terminal := ended id task rfl there
        simp [taskRow, there, owner, conversation, agent, terminal]

/-! ### Launches -/

/-- **Once per key, once per queueing.**  As long as no user sends the client id
of a launch, every key has one task at most, whatever was accepted: the request
that was accepted is answered with that task and changes nothing from then on
(an event that wakes a task, as long as that task has ended), and one with
another payload is refused.  A launch takes a queued task, which is then running
under a run with a client id that no run had before, and never fails over a run
there is. -/
theorem tasks_are_accepted_and_launched_once
    (reached : ReachableBy (fun u op => ¬Raises u op .borrow) s) :
    (∀ task ∈ s.tasks.rows, ∀ other ∈ s.tasks.rows, task.id = other.id → task = other) ∧
    (∀ start a out t u, acceptScheduledConversationTask start a s = .ok (out, t) → LeadsTo t u →
      Answers (acceptScheduledConversationTask start a) start u) ∧
    (∀ start related a out t u,
      acceptBusinessEventConversationTask start related a s = .ok (out, t) → LeadsTo t u →
      (∀ id task, related = some id → u.tasks.get? id = some task → task.status.terminal = true) →
      Answers (acceptBusinessEventConversationTask start related a) start u) ∧
    (∀ start a task, s.tasks.get? start.taskID = some task →
      task.requestHash ≠ start.requestHash →
      (∃ e, acceptScheduledConversationTask start a s = .error e) ∧
      ∀ related, ∃ e, acceptBusinessEventConversationTask start related a s = .error e) ∧
    (∀ runtimeID runID k t, launchConversationTask runtimeID runID s = .ok (some k, t) →
      ∃ task task' row, s.tasks.get? k = some task ∧ task.status = .queued ∧
        t.tasks.get? k = some task' ∧ task'.status = .running ∧ task'.executionRunID = some runID ∧
        t.runs.get? runID = some row ∧ row.run.background.map (·.taskID) = some k ∧
        ∀ other ∈ s.runs.rows, other.run.clientMessageID ≠ row.run.clientMessageID) ∧
    ∀ runtimeID runID, s.runs.get? runID = none →
      launchConversationTask runtimeID runID s ≠ .error (duplicate "_agent_conversation_runs") := by
  have wf := reached.wellFormed
  have ids := reached.invariant (P := fun c => LaunchIds c.runs c.tasks) (fun _ _ => .empty)
    fun _ _ _ kept _ _ step routed _ inv => step.launchIds kept routed inv
  refine ⟨?_, ?_, ?_, ?_, ?_, ?_⟩
  · intro task member other at_other same
    have found := get?_of_mem member
    rw [same, get?_of_mem at_other] at found
    exact (Option.some.inj found).symm
  · intro start a out t u accepts leads
    have steps : Moves (fun _ => True) s.toCore t.toCore :=
      acceptScheduledConversationTask_follows out t accepts
    exact (leads.keeps (wf.after steps.steps) RequestAccepted.step
      (acceptScheduledConversationTask_accepts out t accepts)).2.answers_schedule
  · intro start related a out t u accepts leads ended
    have steps : Moves (fun _ => True) s.toCore t.toCore :=
      acceptBusinessEventConversationTask_follows out t accepts
    obtain ⟨accepted, belongs, input⟩ := acceptBusinessEventConversationTask_accepts out t accepts
    have kept := (leads.keeps (wf.after steps.steps) RequestAccepted.step accepted).2
    have still := (leads.keeps (wf.after steps.steps) RelatedTo.step belongs).2
    exact kept.answers_event still input ended
  · intro start a task found other
    refine ⟨Tx.Ensures.fails ?_, fun related => Tx.Ensures.fails ?_⟩
    · simp only [acceptScheduledConversationTask, wp, ensures_getConversation,
        ensures_checkSourceRun]
      exact fun _ _ _ _ _ => acceptConversationTask_refuses found other
    · simp only [acceptBusinessEventConversationTask, wp, ensures_getConversation,
        (readOnly_checkRelatedTask _ _ _).ensures]
      exact fun _ _ _ _ _ _ _ _ => acceptConversationTask_refuses found other
  · intro runtimeID runID k t launches
    have moved : Launches s.toCore runID (some k) t.toCore ∧
        Moves (fun _ => True) s.toCore t.toCore :=
      launchConversationTask_launches wf.routed _ _ launches
    obtain ⟨task, row, rfl, launched⟩ := moved.1 k rfl
    have stored := get?_insert?_self launched.inserted
    obtain ⟨b, background, names⟩ := launched.executes
    refine ⟨task, setConversationTaskGoalPhase { task with
        status := .running, executionRunID := some runID }, row, launched.found, launched.queued,
      ?_, rfl, rfl, ?_, ?_, fun other member => ?_⟩
    · rw [launched.tasks]
      exact get?_put_self launched.found
    · rw [← launched.id]
      exact stored
    · rw [background, Option.map_some, names]
    · rw [launched.client]
      exact ids.fresh launched.found (wf.routed.queued launched.found launched.queued)
        (get?_of_mem member)
  · intro runtimeID runID free failed
    have unclashing : Unclashing (launchConversationTask runtimeID runID) s := by
      refine unclashing_launchConversationTask wf.routed free fun task found queued row member => ?_
      exact ids.fresh found (wf.routed.queued found queued) (get?_of_mem member)
    exact unclashing _ failed rfl

/-- The request of the accepted task is answered with it, also after its launch. -/
theorem scheduled_task_is_accepted_once :
    (∃ out t, acceptScheduledConversationTask sampleStart sampleUser (afterOps scheduledTask) =
      .ok (out, t) ∧ Answers (acceptScheduledConversationTask sampleStart sampleUser) sampleStart
        (t.step (.launchTask 1 20))) ∧
    ∃ k t, launchConversationTask 1 20 (afterOps scheduledTask) = .ok (some k, t) ∧
      ∃ row, t.runs.get? 20 = some row ∧ row.run.background.map (·.taskID) = some k := by
  have once := tasks_are_accepted_and_launched_once (s := afterOps scheduledTask)
    (follows_afterOps (by decide))
  have accepts : ((acceptScheduledConversationTask sampleStart sampleUser)
      (afterOps scheduledTask)).toOption.isSome = true := by decide +kernel
  have launches : ((launchConversationTask 1 20) (afterOps scheduledTask)).toOption.any
      (·.1.isSome) = true := by decide +kernel
  constructor
  · cases run : acceptScheduledConversationTask sampleStart sampleUser (afterOps scheduledTask) with
    | error e => rw [run] at accepts; cases accepts
    | ok r => exact ⟨r.1, r.2, rfl, once.2.1 _ _ r.1 r.2 _ run (.step .start _ trivial)⟩
  · cases run : launchConversationTask 1 20 (afterOps scheduledTask) with
    | error e => rw [run] at launches; cases launches
    | ok r =>
      rw [run] at launches
      obtain ⟨k, answer⟩ := Option.isSome_iff_exists.mp launches
      have ran : launchConversationTask 1 20 (afterOps scheduledTask) = .ok (some k, r.2) := by
        rw [run, ← answer]
      obtain ⟨_, _, row, _, _, _, _, _, there, names, _⟩ := once.2.2.2.2.1 1 20 k r.2 ran
      exact ⟨k, r.2, by rw [← answer], row, there, names⟩

/-! The failing runs: an event that wakes a finished task, which is then queued
again; and a user who sends the client id of a launch. -/

def wakingStart : TaskStart :=
  { sampleStart with taskID := 11, requestHash := 11, agent := some ⟨4, 1⟩ }

def rewokenTask : List Op :=
  [.createConversation 1 (some 4) sampleUser,
    .acceptScheduledTask { sampleStart with agent := some ⟨4, 1⟩ } sampleUser,
    .cancelQueuedTask 10 sampleUser, .acceptBusinessEventTask wakingStart (some 10) sampleUser,
    .resumeQueuedTask 10 sampleUser]

def borrowedClient : List Op :=
  [.createConversation 1 none sampleUser, .acceptScheduledTask sampleStart sampleUser,
    .enqueue 1 { sampleSend with clientMessageID := .background 10 1 1 0 } sampleUser,
    .claim 1 7 1000 [], .finish sampleClaim "done" "" true]

theorem repetition_and_launch_fail :
    (∃ s, Reachable s ∧ (s.tasks.get? 11).map (·.requestHash) = some wakingStart.requestHash ∧
      acceptBusinessEventConversationTask wakingStart (some 10) sampleUser s =
        .error (conflict "business_event_related_task_active")) ∧
    ∃ s, Reachable s ∧ s.runs.get? 21 = none ∧
      launchConversationTask 1 21 s = .error (duplicate "_agent_conversation_runs") := by
  refine ⟨⟨_, reachable_afterOps rewokenTask, by decide +kernel, ?_⟩,
    ⟨_, reachable_afterOps borrowedClient, by decide +kernel, ?_⟩⟩
  · rfl
  · rfl

end DomainryAgent
