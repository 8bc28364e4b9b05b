import DomainryAgent.Store.Operations

/-!
The protocol the operations follow, over `Core` alone.

`RunMove` is the life of a lease, `PlanNext` the three ways a plan gets its next
version, and `LedgerWork` what a delegated step does to the ledger of its root.
`Move` says in one place what a committed operation can do under the agreements
there are, and `Step` adds the changes of an agreement.  Every operation is a
sequence of steps (`Refinement`), and every invariant is proved of a single
step.

The code departs from the protocol it otherwise keeps in a few places.  They
are moves too, but only under a `Hazard`, so that a result can exclude one of
them and keep the others.
-/

namespace DomainryAgent

open Lib Table

/-- A delegation in these states executes its current agreement. -/
def DelegationStatus.live : DelegationStatus → Bool
  | accepted | running | awaitingDelivery | delivered | failed | acceptedDelivery => true
  | _ => false

namespace Protocol

/-- The places where the code leaves the protocol. -/
inductive Hazard where
  /-- A background run ends and its task is left running. -/
  | abandonTask
  /-- A run is reopened while its task runs under another one. -/
  | strayResume
  /-- A task is written back with the plan it had before a cancellation. -/
  | staleTask
  /-- A step is completed that has no reservation. -/
  | unreserved
  /-- A worker draws on the ledger of its root.  This is no departure; the
  operations that never do it are told apart by it. -/
  | draw
  /-- A worker leases a run, as the registry of agents answers it.  No departure
  either. -/
  | claims (agents : List AgentProfile)
  /-- A worker opens a step of its run.  No departure either. -/
  | opens
  /-- A worker records a call that a step asked for.  No departure either. -/
  | starts
  /-- A worker reserves a nested call within a limit.  No departure either. -/
  | reserves (limit : Nat)
  /-- A worker begins or settles an attempt to have a step answered.  No
  departure either. -/
  | attempts
  /-- A run ends.  No departure either. -/
  | ends
  /-- A worker ends the run it holds.  No departure either. -/
  | finishes (runID : Id)
  /-- A task names another run, and the one it named is not kept. -/
  | forgetRun
  /-- A task gets another status and keeps the phase it had. -/
  | stalePhase
  /-- A user's message takes the client id of a launch. -/
  | borrow
  /-- A delegation is admitted.  No departure either. -/
  | admits
  /-- A worker writes on the record of its run.  No departure either. -/
  | acts (runID : Id)
  /-- A user's inspection brings the outcome of a call of the run.  No departure
  either. -/
  | inspects (runID : Id)
  deriving DecidableEq

/-! ### Quotas -/

/-- The queue of a user and of their workspace takes one more. -/
def QueueRoom (s : Core) (a : Authority) : Prop :=
  ∀ limits, s.limits = some limits →
    (conversationExecutionCapacity s a).userQueued < limits.maxQueuedPerUser ∧
      (conversationExecutionCapacity s a).workspaceQueued < limits.maxQueuedPerWorkspace

variable {a : Authority} {tools : Table ToolExecution.key} {messages : Table PeerMessage.id}

variable {b : Authority} {old new : RunRow} {task : Task} {d : Delegation} {step : ExecutionStep}

theorem workspaceKey_of_principal (principal : conversationOwner a = conversationOwner b) :
    workspaceKey a = workspaceKey b := by
  simp only [conversationOwner, OwnerKey.mk.injEq] at principal
  simp only [workspaceKey, principal.1, principal.2.1]

/-- A quota is the same for all authorities of a principal. -/
theorem QueueRoom.of_principal {s : Core} (room : QueueRoom s a)
    (principal : conversationOwner a = conversationOwner b) : QueueRoom s b := by
  have workspace := workspaceKey_of_principal principal
  intro limits configured
  have fits := room limits configured
  simp only [conversationExecutionCapacity, principal, workspace] at fits ⊢
  exact fits

/-! ### Runs -/

/-- What no operation changes on a run. -/
structure SameRun (old new : RunRow) : Prop where
  id : new.run.id = old.run.id
  conversation : new.run.conversationID = old.run.conversationID
  background : new.run.background = old.run.background
  agent : new.run.agent = old.run.agent
  client : new.run.clientMessageID = old.run.clientMessageID
  principal : conversationOwner new.authority = conversationOwner old.authority

/-- The attempts of a run stay as they are. -/
structure SameAttempts (old new : Run) : Prop where
  attempt : new.attempt = old.attempt
  attempts : new.modelAttempts = old.modelAttempts

/-- What an attempt to have a step answered makes of the attempts of its run:
the first one or the next one is started, not before its time, or the one that was
started is settled. -/
inductive AttemptChange (now : Time) (run : Run) : List ModelAttempt → Prop
  | first {step : Int} (unasked : conversationModelAttempt run step run.attempt = none) :
      AttemptChange now run (⟨step, run.attempt, 1, .started, none⟩ :: run.modelAttempts)
  | again {step : Int} {previous : ModelAttempt}
      (latest : conversationModelAttempt run step run.attempt = some previous)
      (scheduled : previous.status = .retryScheduled)
      (due : previous.retryAt.all (· ≤ now) = true) :
      AttemptChange now run
        (⟨step, run.attempt, previous.number + 1, .started, none⟩ :: run.modelAttempts)
  | settle {step : Int} {attempt : ModelAttempt} {status : ModelAttemptStatus}
      {retryAt : Option Time} (latest : conversationModelAttempt run step run.attempt = some attempt)
      (started : attempt.status = .started) (settles : status ≠ .started) :
      AttemptChange now run (settleAttempt step run.attempt
        { attempt with status := status, retryAt := retryAt } run.modelAttempts)

/-- The moves of a lease.  Whoever takes or loses it moves the fence; a worker
that finishes gives it up at the fence it holds. -/
inductive RunMove (allowed : Hazard → Prop) (s : Core) (old new : RunRow) : Prop
  | touch (status : new.run.status = old.run.status) (owner : new.owner = old.owner)
      (fence : new.fence = old.fence) (expires : new.expires = old.expires)
      (tries : SameAttempts old.run new.run ∨ (allowed .attempts ∧ allowed (.acts old.run.id)) ∧
        new.run.attempt = old.run.attempt ∧ AttemptChange s.now old.run new.run.modelAttempts)
  | extend (running : old.run.status = .running) (live : s.now < old.expires)
      (status : new.run.status = .running) (owner : new.owner = old.owner)
      (fence : new.fence = old.fence) (tries : SameAttempts old.run new.run)
  | lease {agents : List AgentProfile}
      (idle : old.run.status = .queued ∨ old.run.status = .running ∧ old.expires ≤ s.now)
      (status : new.run.status = .running) (fence : new.fence = old.fence + 1)
      (claims : allowed (.claims agents))
      (room : old.run.status = .queued → checkConversationRunningCapacity s old.authority = none ∧
        peerAgentCapacity s agents old = true)
      (tries : new.run.attempt = old.run.attempt + 1 ∧
        new.run.modelAttempts = old.run.modelAttempts)
  | free (status : new.run.status ≠ .running)
      (reopens : old.run.status.terminal = true → new.run.status = .queued)
      (owner : new.owner = none) (fence : new.fence = old.fence + 1)
      (room : new.run.status = .queued → QueueRoom s old.authority)
      (tries : SameAttempts old.run new.run)
  | finish (running : old.run.status = .running) (live : s.now < old.expires)
      (status : new.run.status = .completed ∨ new.run.status = .failed) (owner : new.owner = none)
      (fence : new.fence = old.fence) (tries : SameAttempts old.run new.run)
      (worker : allowed (.finishes old.run.id))

/-- Freeing a run that has not ended. -/
theorem RunMove.free_open {allowed : Hazard → Prop} {s : Core}
    (isOpen : old.run.status.terminal = false) (status : new.run.status ≠ .running)
    (owner : new.owner = none) (fence : new.fence = old.fence + 1)
    (room : new.run.status = .queued → QueueRoom s old.authority)
    (tries : SameAttempts old.run new.run) : RunMove allowed s old new :=
  .free status (fun ended => by rw [isOpen] at ended; cases ended) owner fence room tries

/-- All a lease depends on is the clock, the limits, the runs and the tasks. -/
theorem RunMove.transfer {allowed : Hazard → Prop} {s t : Core} (move : RunMove allowed s old new)
    (now : t.now = s.now) (limits : t.limits = s.limits) (runs : t.runs = s.runs)
    (tasks : t.tasks = s.tasks) : RunMove allowed t old new := by
  have capacity : conversationExecutionCapacity t = conversationExecutionCapacity s := by
    funext a
    simp only [conversationExecutionCapacity, runsIn, queuedTasksIn, runs, tasks]
  have leases : agentLeases t = agentLeases s := by
    cases s
    cases t
    cases now
    cases runs
    rfl
  cases move with
  | touch status owner fence expires tries =>
    exact .touch status owner fence expires (now.symm ▸ tries)
  | extend running live status owner fence tries =>
    exact .extend running (now.symm ▸ live) status owner fence tries
  | lease idle status fence claims room tries =>
    refine .lease (now.symm ▸ idle) status fence claims (fun queued => ?_) tries
    obtain ⟨quota, agent⟩ := room queued
    constructor
    · simpa only [checkConversationRunningCapacity, limits, capacity] using quota
    · simpa only [peerAgentCapacity, leases] using agent
  | free status reopens owner fence room tries =>
    refine .free status reopens owner fence (fun queued => ?_) tries
    simpa only [QueueRoom, limits, capacity] using room queued
  | finish running live status owner fence tries worker =>
    exact .finish running (now.symm ▸ live) status owner fence tries worker

/-- A run as it is first inserted. -/
structure FreshRun (row : RunRow) : Prop where
  status : row.run.status = .queued
  owner : row.owner = none
  fence : row.fence = 0

/-! ### Conversations -/

/-- An archived conversation has no run in its foreground. -/
def Shelved (c : Conversation) : Prop := c.archived = true → c.activeRunID = none

/-- What an operation leaves on a conversation; each save has a revision of its own. -/
structure SameConversation (old new : Conversation) : Prop where
  id : new.id = old.id
  owner : new.owner = old.owner
  agent : new.agentID = old.agentID
  saved : new = old ∨ old.revision < new.revision
  shelved : Shelved old → Shelved new

/-- The foreground slot after a run that has ended gave it up, if it had it. -/
inductive Released (conversations : Table Conversation.id) (run : Run) :
    Table Conversation.id → Prop
  | saved {c next : Conversation} (found : conversations.get? run.conversationID = some c)
      (same : SameConversation c next)
      (slot : next.activeRunID = if c.activeRunID = some run.id then none else c.activeRunID) :
      Released conversations run (conversations.put next)
  | elsewhere {c : Conversation} (found : conversations.get? run.conversationID = some c)
      (other : c.activeRunID ≠ some run.id) : Released conversations run conversations

/-- The foreground slot as a run takes it. -/
structure Taken (conversations : Table Conversation.id) (run : Run) (c next : Conversation) :
    Prop where
  found : conversations.get? run.conversationID = some c
  same : SameConversation c next
  free : c.activeRunID = none
  slot : next.activeRunID = some run.id

/-! ### Plans -/

/-- How a plan gets its next version, and under whose name. -/
inductive PlanNext (taskID : Id) : Option Plan → PlanRow → Prop
  | update {old : Option Plan} {next : Plan} {client : Id} (task : next.taskID = taskID)
      (version : next.version = (old.map (·.version)).getD 0 + 1)
      (valid : validStoredConversationPlan next = true)
      (keeps : keepsCompleted ((old.map (·.steps)).getD []) next.steps = true) :
      PlanNext taskID old ⟨next, .update client⟩
  | supersede {plan : Plan} {revision : Nat} {fields : List AgreementField} {reason : String} :
      PlanNext taskID (some plan) ⟨supersededPlan plan revision fields reason, .system⟩
  | close {plan next : Plan} {status : RunStatus} {code : String}
      (closed : closedPlan plan status code = some next) :
      PlanNext taskID (some plan) ⟨next, .system⟩

/-- A task keeps its plan, or moves to a next version that is stored with it. -/
inductive PlanWrite (taskID : Id) (plans : Table PlanRow.key) (old : Option Plan) :
    Option Plan → Table PlanRow.key → Prop
  | keep : PlanWrite taskID plans old old plans
  | write {row : PlanRow} {grown : Table PlanRow.key} (next : PlanNext taskID old row)
      (inserted : plans.insert? row = some grown) :
      PlanWrite taskID plans old (some row.plan) grown

/-! ### Tasks -/

/-- What a task was asked for. -/
def asked (task : Task) : TaskOrigin × Id × Bool × Id × Option Id × Option AgentRef :=
  (task.origin, task.requestHash, task.followUp, task.sourceConversationID, task.sourceRunID,
    task.agent)

/-- What no operation changes on a task. -/
structure SameTask (old new : Task) : Prop where
  id : new.id = old.id
  authority : new.authority = old.authority
  delegation : new.delegationID = old.delegationID
  conversation : new.executionConversationID = old.executionConversationID
  asked : asked new = asked old
  handoff : new.handoff = old.handoff

/-- What becomes of the runs a task had: the one it names goes to the earlier
ones when it is taken off. -/
inductive RunsKept (old new : Task) : Prop
  | same (run : new.executionRunID = old.executionRunID)
      (previous : new.previousExecutionRuns = old.previousExecutionRuns)
  | archived {r : Id} (run : old.executionRunID = some r) (cleared : new.executionRunID = none)
      (previous : new.previousExecutionRuns = if r ∈ old.previousExecutionRuns
        then old.previousExecutionRuns else old.previousExecutionRuns ++ [r])

/-- The task records the phase of its status. -/
def InPhase (task : Task) : Prop :=
  task.goalProgress.phase = goalPhase task.status task.errorCode

/-- Where somebody has to accept the result of a task, a completed one has a
completion that is verified for its agreement. -/
def Verified (task : Task) : Prop :=
  task.status = .completed → task.delegationID = none → task.followUp = false →
    completionVerified task = true

theorem Verified.of_status (other : task.status ≠ .completed) : Verified task :=
  fun completed => absurd completed other

/-- A task keeps its completion, or moves to the next revision, which is stored
with it. -/
inductive CompletionWrite (taskID : Id) (completions : Table CompletionRow.key)
    (old : Option CompletionRecord) : Option CompletionRecord → Table CompletionRow.key → Prop
  | keep : CompletionWrite taskID completions old old completions
  | write {row : CompletionRow} {grown : Table CompletionRow.key} (task : row.taskID = taskID)
      (next : row.completion.revision = completionRevision old + 1)
      (inserted : completions.insert? row = some grown) :
      CompletionWrite taskID completions old (some row.completion) grown

/-- The client id a launch of a task takes. -/
def launchClient (task : Task) : ClientMessage :=
  .background task.id (max 1 task.agreementRevision) task.brief.version
    task.previousExecutionRuns.length

/-- The agreement a task carries. -/
structure SameTerms (old new : Task) : Prop where
  revision : new.agreementRevision = old.agreementRevision
  brief : new.brief = old.brief
  input : new.structuredInput = old.structuredInput

/-- A running task whose run has ended. -/
def Stopped (runs : Table RunRow.key) (task : Task) : Prop :=
  task.status = .running → ∀ r, task.executionRunID = some r →
    ∃ row, runs.get? r = some row ∧ row.run.status.terminal = true

theorem Stopped.of_not_running {runs : Table RunRow.key} (idle : task.status ≠ .running) :
    Stopped runs task := fun running => absurd running idle

/-- An edit of a task that nothing executes. -/
structure TaskEdit (runs : Table RunRow.key) (old new : Task) : Prop where
  same : SameTask old new
  stopped : Stopped runs old
  status : new.status ≠ .running
  queued : new.status = .queued → new.executionRunID = none
  executes : new.executionRunID = old.executionRunID ∨ new.executionRunID = none
  revision : old.agreementRevision ≤ new.agreementRevision
  terms : old.delegationID ≠ none → SameTerms old new
  runs : RunsKept old new
  budget : old.delegationID ≠ none → new.budget = old.budget

/-- A run that executes a task under the terms the task has. -/
structure Executes (row : RunRow) (b : TaskExecution) (task : Task) : Prop where
  names : b.taskID = task.id
  background : row.run.background = some b
  principal : conversationOwner row.authority = conversationOwner task.authority
  delegation : b.delegationID = task.delegationID
  conversation : task.delegationID ≠ none →
    task.executionConversationID = some row.run.conversationID
  handoff : b.handoff = task.handoff

/-! ### Delegations -/

/-- What no operation changes on a delegation. -/
structure SameDelegation (old new : Delegation) : Prop where
  id : new.id = old.id
  owner : new.owner = old.owner
  root : new.rootConversationID = old.rootConversationID
  workBudget : new.workBudget = old.workBudget
  budget : new.budget = old.budget
  exited : new.subjectExited = old.subjectExited

/-- The same assignment: the task and the conversation it runs in. -/
structure SameAssignment (old new : Delegation) : Prop where
  task : new.taskID = old.taskID
  conversation : new.conversationID = old.conversationID

/-- The same agreement under the same revision. -/
structure SameAgreement (old new : Delegation) : Prop where
  revision : new.agreementRevision = old.agreementRevision
  brief : new.brief = old.brief
  input : new.structuredInput = old.structuredInput
  inputSource : new.inputSource = old.inputSource
  dependencies : new.dependencies = old.dependencies

/-- An accepted delivery is one for the current agreement, verified as ready,
with no change pending and no disagreement in its way. -/
structure CurrentDelivery (d : Delegation) : Prop where
  delivery : ∃ delivery report, d.delivery = some delivery ∧
    delivery.briefVersion = d.brief.version ∧
    delivery.agreementRevision = d.agreementRevision ∧
    d.verification = some report ∧ report.deliveryDigest = delivery ∧ report.ready = true
  settled : d.pendingChanges = []
  agreed : ∀ issue ∈ d.disagreements,
    disagreementBlocks issue d (disagreementDeliveryDigest d) = false

/-- Where a delivery is accepted, it is current. -/
def AcceptedCurrent (d : Delegation) : Prop := d.status = .acceptedDelivery → CurrentDelivery d

/-- Nothing is accepted in another status. -/
theorem AcceptedCurrent.of_status (other : d.status ≠ .acceptedDelivery) :
    AcceptedCurrent d := fun accepted => absurd accepted other

/-- The delegations a delegation depends on. -/
def dependenciesOf (delegations : Table Delegation.id) (id : Id) : Option (List Id) :=
  (delegations.get? id).map (fun d => d.dependencies.map (·.reference.delegationID))

/-- An edge of the dependency graph. -/
abbrev DependsOn (delegations : Table Delegation.id) : Id → Id → Prop :=
  Dag.Edge (dependenciesOf delegations)

/-- The goal a delegation works for: its root in its workspace.  The goal's
ledger has the same key. -/
def goalKey (d : Delegation) : LedgerKey :=
  ⟨d.owner.runtimeID, d.owner.workspaceID, d.rootConversationID⟩

theorem goalKey_of_workspace (here : d.InWorkspace a) :
    goalKey d = ledgerKey d.rootConversationID a := by
  simp only [goalKey, ledgerKey, here.1, here.2]

/-- How many delegations work for a goal. -/
def goalCount (delegations : Table Delegation.id) (key : LedgerKey) : Nat :=
  delegations.rows.countP (goalKey · = key)

/-- Dependencies as they may be given to `d`: few, on delegations of its own
goal, and on none that leads back to it. -/
structure Linked (delegations : Table Delegation.id) (d : Delegation) : Prop where
  few : d.dependencies.length ≤ 16
  inside : ∀ edge ∈ d.dependencies, ∃ upstream,
    delegations.get? edge.reference.delegationID = some upstream ∧ goalKey upstream = goalKey d
  forward : ∀ edge ∈ d.dependencies,
    ¬ Relation.ReflTransGen (DependsOn delegations) edge.reference.delegationID d.id

/-- A change of an agreement keeps the dependencies or gives new ones. -/
def Relinked (delegations : Table Delegation.id) (old new : Delegation) : Prop :=
  new.dependencies = old.dependencies ∨ Linked delegations new

/-- The ledger of a goal has counted one more delegation than there are. -/
def Admitted (s : Core) (key : LedgerKey) : Prop :=
  ∃ ledger, s.ledgers.get? key = some ledger ∧ goalCount s.delegations key < ledger.delegations

/-- A delegation starts to execute only from a state that did, or with a run
launched under its agreement. -/
def MayExecute (runs : Table RunRow.key) (old new : Delegation) : Prop :=
  new.status.live = true → old.status.live = true ∨
    ∃ r row b, runs.get? r = some row ∧ row.run.background = some b ∧ b.taskID = old.taskID ∧
      max 1 b.agreementRevision = old.agreementRevision

/-- A history entry of a delegation's agreement. -/
structure Records (entry : AgreementRevision) (d : Delegation) : Prop where
  delegation : entry.delegationID = d.id
  revision : entry.revision = d.agreementRevision
  brief : entry.brief = d.brief
  input : entry.structuredInput = d.structuredInput
  inputSource : entry.inputSource = d.inputSource
  dependencies : entry.dependencies = d.dependencies

/-- `INSERT … ON CONFLICT DO NOTHING`. -/
def record (history : Table AgreementRevision.key) (entry : AgreementRevision) :
    Table AgreementRevision.key := (history.insert? entry).getD history

/-- A new task for a delegation's current agreement. -/
structure TaskFor (d : Delegation) (task : Task) : Prop where
  id : d.taskID = task.id
  delegation : task.delegationID = some d.id
  conversation : task.executionConversationID = some d.conversationID
  status : task.status = .queued
  run : task.executionRunID = none
  revision : task.agreementRevision = d.agreementRevision
  brief : task.brief = d.brief
  input : task.structuredInput = d.structuredInput
  previous : task.previousExecutionRuns = []
  completion : task.completion = none
  phase : InPhase task

/-- Delegated work of the current assignment. -/
def CurrentWork (delegations : Table Delegation.id) (delegationID : Option Id) (taskID : Id) :
    Prop := ∀ id, delegationID = some id → ∃ d, delegations.get? id = some d ∧ d.taskID = taskID

/-- The conversation an assignment is executed in is its executor's. -/
def Hosted (conversations : Table Conversation.id) (conversationID : Id) (executor : Authority) :
    Prop := ∃ c, conversations.get? conversationID = some c ∧ c.owner = conversationOwner executor

/-- The record of an assignment to a task. -/
structure AssignedTo (d : Delegation) (task : Task) (row : Assignment) : Prop where
  delegation : row.delegationID = d.id
  conversation : row.conversationID = d.conversationID
  names : row.taskID = task.id
  executor : row.executor = task.authority

/-- A run in the conversation of an assignment. -/
def AssignmentRun (s : Core) (d : Delegation) (assignment : Assignment) (row : RunRow) : Prop :=
  assignment ∈ conversationAssignments s d ∧ row ∈ s.runs.rows ∧
    row.run.conversationID = assignment.conversationID ∧
    conversationOwner row.authority = conversationOwner assignment.executor

/-- The work on a delegation as it is handed over: all its runs have ended, each
worked for its assignment and left no write open, and the effects are the writes
they made. -/
structure HandedOver (s : Core) (d : Delegation) (handoff : Handoff) : Prop where
  ended : ∀ assignment row, AssignmentRun s d assignment row → row.run.status.terminal = true
  worked : ∀ assignment row, AssignmentRun s d assignment row → ∃ b,
    row.run.background = some b ∧ b.delegationID = some d.id ∧ b.taskID = assignment.taskID
  settled : ∀ assignment row call, AssignmentRun s d assignment row → call ∈ s.tools.rows →
    call.runID = row.run.id → call.reusedFrom = none → unsettledWrite call = false
  effects : ∀ effect, effect ∈ handoff.effects ↔ ∃ assignment row call,
    AssignmentRun s d assignment row ∧ call ∈ s.tools.rows ∧ call.runID = row.run.id ∧
      handoffEffect row.run call = some effect

/-! ### Tools -/

/-- A call keeps what identifies it, and once it is started it stays so. -/
structure SameCall (old new : ToolExecution) : Prop where
  call : new.call = old.call
  parent : new.parentCallID = old.parentCallID
  index : new.dispatchIndex = old.dispatchIndex
  definition : new.definition = old.definition
  key : new.idempotencyKey = old.idempotencyKey
  reused : new.reusedFrom = old.reusedFrom
  started : old.state ≠ .queued → new.state ≠ .queued

theorem SameCall.refl (record : ToolExecution) : SameCall record record :=
  ⟨rfl, rfl, rfl, rfl, rfl, rfl, id⟩

theorem SameCall.trans {x y z : ToolExecution} (first : SameCall x y) (second : SameCall y z) :
    SameCall x z :=
  ⟨second.call.trans first.call, second.parent.trans first.parent, second.index.trans first.index,
    second.definition.trans first.definition, second.key.trans first.key,
    second.reused.trans first.reused, fun started => second.started (first.started started)⟩

/-- No record of a call is lost, and a completed one stays as it is. -/
def ToolsKept (old new : Table ToolExecution.key) : Prop :=
  ∀ k record, old.get? k = some record → ∃ next, new.get? k = some next ∧
    SameCall record next ∧ (record.state = .completed → next = record)

theorem ToolsKept.refl (tools : Table ToolExecution.key) : ToolsKept tools tools :=
  fun _ record found => ⟨record, found, .refl record, fun _ => rfl⟩

theorem ToolsKept.trans {x y z : Table ToolExecution.key} (first : ToolsKept x y)
    (second : ToolsKept y z) : ToolsKept x z := by
  intro k record found
  obtain ⟨next, found', same, kept⟩ := first k record found
  obtain ⟨last, found'', same', kept'⟩ := second k next found'
  refine ⟨last, found'', same.trans same', fun completed => ?_⟩
  have still := kept completed
  exact (kept' (still.symm ▸ completed)).trans still

theorem ToolsKept.put {old new : ToolExecution} (found : tools.get? new.key = some old)
    (same : SameCall old new) (isOpen : old.state ≠ .completed) :
    ToolsKept tools (tools.put new) := by
  intro k record there
  refine exists_put (get?_key found) (key_of_get? found).symm there ⟨.refl record, fun _ => rfl⟩ ?_
  rintro rfl -
  exact ⟨same, fun completed => absurd completed isOpen⟩

theorem ToolsKept.insert {grown : Table ToolExecution.key} {record : ToolExecution}
    (inserted : tools.insert? record = some grown) : ToolsKept tools grown :=
  fun _ old there =>
    ⟨old, get?_insert?_of_some inserted there, .refl old, fun _ => rfl⟩

theorem begunCall_same (record : ToolExecution) (claim : Claim) :
    SameCall record (begunCall record claim) ∧ (begunCall record claim).state ≠ .queued := by
  have started : (begunCall record claim).state ≠ .queued := by
    unfold begunCall
    split
    · exact nofun
    · assumption
  exact ⟨⟨rfl, rfl, rfl, rfl, rfl, rfl, fun _ => started⟩, started⟩

theorem receivedCall_same (record : ToolExecution) (result : ToolResult) :
    SameCall record (receivedCall record result) := by
  refine ⟨rfl, rfl, rfl, rfl, rfl, rfl, fun _ => ?_⟩
  unfold receivedCall
  split <;> exact nofun

/-- A cancellation interrupts a write that was started. -/
inductive Interrupt (tools : Table ToolExecution.key) : Table ToolExecution.key → Prop
  | write {record : ToolExecution} (found : tools.get? record.key = some record)
      (started : record.state = .started) (effect : record.definition.effect = .write) :
      Interrupt tools (tools.put (interruptedCall record))

/-- The nested calls of a program. -/
def subtools (tools : Table ToolExecution.key) (runID : Id) (number : Nat) (parentCallID : Id) :
    List ToolExecution :=
  tools.rows.filter (fun record => record.runID = runID ∧ record.step = number ∧
    record.parentCallID = some parentCallID)

/-- The calls that the steps of a run asked for. -/
def askedCalls (steps : Table ExecutionStep.key) (runID : Id) : Nat :=
  ((steps.rows.filter (·.runID = runID)).map
    (fun step => (step.result.map (·.calls.length)).getD 0)).sum

/-- The nested calls of a run. -/
def nestedCalls (tools : Table ToolExecution.key) (runID : Id) : Nat :=
  (tools.rows.filter (fun record => record.runID = runID ∧ record.parentCallID ≠ none)).length

/-- What happens to the record of a call, one piece at a time. -/
inductive ToolChange (allowed : Hazard → Prop) (s : Core) : Table ToolExecution.key → Prop
  /-- A running program reserves its next nested call. -/
  | reserve {claim : Claim} {row : RunRow} {record parent : ToolExecution} {p : Id} {limit : Nat}
      {tools : Table ToolExecution.key} (accepted : Accepted s claim row)
      (run : record.runID = claim.runID)
      (program : s.tools.get? (record.runID, record.step, p) = some parent)
      (running : parent.state = .started) (child : record.parentCallID = some p)
      (order : record.dispatchIndex = (subtools s.tools record.runID record.step p).length)
      (room : askedCalls s.steps record.runID + nestedCalls s.tools record.runID < limit)
      (state : record.state = .queued) (own : record.reusedFrom = none)
      (blank : record.result = none)
      (inserted : s.tools.insert? record = some tools) (worker : allowed (.reserves limit))
      (acts : allowed (.acts record.runID)) : ToolChange allowed s tools
  /-- A call that a step asked for is started. -/
  | start {claim : Claim} {row : RunRow} {record : ToolExecution} {step : ExecutionStep}
      {result : StepResult} {tools : Table ToolExecution.key} (accepted : Accepted s claim row)
      (run : record.runID = claim.runID)
      (found : s.steps.get? (record.runID, record.step) = some step)
      (answered : step.result = some result) (asked : record.call ∈ result.calls)
      (top : record.parentCallID = none) (state : record.state = .started)
      (own : record.reusedFrom = none) (blank : record.result = none)
      (inserted : s.tools.insert? record = some tools)
      (worker : allowed .starts) (acts : allowed (.acts record.runID)) : ToolChange allowed s tools
  /-- A call that a step asked for is answered with an earlier receipt. -/
  | reuse {claim : Claim} {row : RunRow} {record original : ToolExecution} {step : ExecutionStep}
      {result : StepResult} {receipt : ToolResult} {tools : Table ToolExecution.key}
      (accepted : Accepted s claim row) (run : record.runID = claim.runID)
      (found : s.steps.get? (record.runID, record.step) = some step)
      (answered : step.result = some result) (asked : record.call ∈ result.calls)
      (top : record.parentCallID = none)
      (earlier : s.tools.get? original.key = some original) (completed : original.state = .completed)
      (known : original.result = some receipt)
      (inserted : s.tools.insert? (receivedCall record receipt) = some tools)
      (worker : allowed .starts) (acts : allowed (.acts record.runID)) : ToolChange allowed s tools
  /-- A claim takes over a call that is not completed, as it is or started. -/
  | take {claim : Claim} {row : RunRow} {record next : ToolExecution} (accepted : Accepted s claim row)
      (run : record.runID = claim.runID)
      (found : s.tools.get? record.key = some record) (isOpen : record.state ≠ .completed)
      (taken : next = { record with leaseOwner := some claim.owner, fence := claim.fence } ∨
        next = begunCall record claim) (acts : allowed (.acts record.runID)) :
      ToolChange allowed s (s.tools.put next)
  /-- A call gets a receipt, from the worker or by an inspection. -/
  | receive {record : ToolExecution} {receipt : ToolResult}
      (found : s.tools.get? record.key = some record) (isOpen : record.state ≠ .completed)
      (acts : allowed (.acts record.runID) ∨ allowed (.inspects record.runID)) :
      ToolChange allowed s (s.tools.put (receivedCall record receipt))
  | interrupt {tools : Table ToolExecution.key} (interrupt : Interrupt s.tools tools) :
      ToolChange allowed s tools

theorem Interrupt.kept {next : Table ToolExecution.key} (interrupt : Interrupt tools next) :
    ToolsKept tools next := by
  cases interrupt with
  | write found started =>
    refine .put found ⟨rfl, rfl, rfl, rfl, rfl, rfl, fun _ h => nomatch h⟩ fun completed => ?_
    cases started.symm.trans completed

theorem ToolChange.kept {allowed : Hazard → Prop} {s : Core} (change : ToolChange allowed s tools) :
    ToolsKept s.tools tools := by
  cases change with
  | reserve _ _ _ _ _ _ _ _ _ _ inserted | start _ _ _ _ _ _ _ _ _ inserted
    | reuse _ _ _ _ _ _ _ _ _ inserted => exact .insert inserted
  | @take claim _ record _ _ _ found isOpen taken =>
    rcases taken with rfl | rfl
    · exact .put found ⟨rfl, rfl, rfl, rfl, rfl, rfl, id⟩ isOpen
    · exact .put found (begunCall_same record claim).1 isOpen
  | @receive record receipt found isOpen =>
    exact .put found (receivedCall_same record receipt) isOpen
  | interrupt interrupt => exact interrupt.kept

/-! ### Steps of a run -/

/-- No step of a run is lost: what it asked stays, and so does its result. -/
def StepsKept (old new : Table ExecutionStep.key) : Prop :=
  ∀ k step, old.get? k = some step → ∃ next, new.get? k = some next ∧
    next.input = step.input ∧ ∀ result, step.result = some result → next.result = some result

theorem StepsKept.refl (steps : Table ExecutionStep.key) : StepsKept steps steps :=
  fun _ step found => ⟨step, found, rfl, fun _ => id⟩

theorem StepsKept.trans {x y z : Table ExecutionStep.key} (first : StepsKept x y)
    (second : StepsKept y z) : StepsKept x z := by
  intro k step found
  obtain ⟨next, found', input, result⟩ := first k step found
  obtain ⟨last, found'', input', result'⟩ := second k next found'
  exact ⟨last, found'', input'.trans input, fun r has => result' r (result r has)⟩

theorem StepsKept.insert {steps grown : Table ExecutionStep.key}
    (inserted : steps.insert? step = some grown) : StepsKept steps grown :=
  fun _ old there => ⟨old, get?_insert?_of_some inserted there, rfl, fun _ => id⟩

/-- A step gets the result it did not have. -/
theorem StepsKept.complete {steps : Table ExecutionStep.key}
    (found : steps.get? step.key = some step) (missing : step.result = none) (result : StepResult) :
    StepsKept steps (steps.put { step with result := some result }) := by
  intro k old there
  refine exists_put found rfl there ⟨rfl, fun _ => id⟩ ?_
  rintro rfl -
  refine ⟨rfl, fun r has => ?_⟩
  rw [missing] at has
  cases has

/-- A run goes on to a step when the one before it asked for tools and has all
their results. -/
def PreviousDone (s : Core) (runID : Id) (number : Nat) : Prop :=
  ∀ k, number = k + 1 → ∃ step result, s.steps.get? (runID, k) = some step ∧
    step.result = some result ∧ result.finishReason = .toolCalls ∧
    ∀ call ∈ result.calls, ∃ record, s.tools.get? (runID, k, call.id) = some record ∧
      record.state = .completed

/-! ### Peer messages -/

/-- The same question, under the same agreement. -/
def AsksSame (q question : PeerMessage) : Prop :=
  q.kind = .question ∧ sameQuestion q question = true ∧ q.delegationID = question.delegationID ∧
    q.briefVersion = question.briefVersion ∧
      max 1 q.agreementRevision = max 1 question.agreementRevision

/-- A message arrives and answers the questions it names: they were open, and
ask the same as the one it replies to. -/
structure Arrives (messages grown : Table PeerMessage.id) (m : PeerMessage) : Prop where
  fresh : messages.get? m.id = none
  unanswered : m.answeredByID = none
  asked : ∀ id ∈ m.answeredQuestionIDs, ∃ q asked question, messages.get? id = some q ∧
    q.answeredByID = none ∧ m.replyToID = some asked ∧ messages.get? asked = some question ∧
      AsksSame q question
  rows : ∀ id, grown.get? id = if id = m.id then some m else (messages.get? id).map fun q =>
    if id ∈ m.answeredQuestionIDs then { q with answeredByID := some m.id } else q

/-- What happens to the messages apart from their consumption. -/
inductive MessageMove (messages : Table PeerMessage.id) : Table PeerMessage.id → Prop
  | arrive {m : PeerMessage} {grown : Table PeerMessage.id} (pending : m.consumed = none)
      (current : m.superseded = false) (arrives : Arrives messages grown m) :
      MessageMove messages grown
  | supersede {m : PeerMessage} (found : messages.get? m.id = some m)
      (pending : m.consumed = none) :
      MessageMove messages (messages.put
        { m with superseded := true, consumed := some .superseded })

/-- What an operation makes of the messages, consumption apart. -/
abbrev Told : Table PeerMessage.id → Table PeerMessage.id → Prop :=
  Relation.ReflTransGen MessageMove

/-- The messages as the input of a step takes them: each is still pending, can
be delivered, and waits for no run that this one is. -/
inductive InboxTaken (s : Core) (claim : Claim) (number : Nat) :
    List PeerMessageID → Table PeerMessage.id → Table PeerMessage.id → Prop
  | nil {messages : Table PeerMessage.id} : InboxTaken s claim number [] messages messages
  | cons {m : PeerMessage} {ids : List PeerMessageID} {messages taken : Table PeerMessage.id}
      (found : messages.get? m.id = some m) (pending : m.consumed = none)
      (ready : Deliverable s m) (apart : m.afterRunID ≠ some claim.runID)
      (here : m.conversationID = claim.conversationID)
      (rest : InboxTaken s claim number ids
        (messages.put { m with consumed := some (.step claim.runID number) }) taken) :
      InboxTaken s claim number (m.id :: ids) messages taken

/-- All a delivery depends on is the delegations and the runs. -/
theorem InboxTaken.transfer {s t : Core} {claim : Claim} {number : Nat} {ids : List PeerMessageID}
    {taken : Table PeerMessage.id} (inbox : InboxTaken s claim number ids messages taken)
    (delegations : t.delegations = s.delegations) (runs : t.runs = s.runs) :
    InboxTaken t claim number ids messages taken := by
  induction inbox with
  | nil => exact .nil
  | cons found pending ready apart here _ ih =>
    have deliverable : Deliverable t _ :=
      ⟨ready.current, delegations ▸ ready.agreement, runs ▸ ready.after⟩
    exact .cons found pending deliverable apart here ih

/-- A worker opens the next step of its run, with the messages it takes, or gives
a step its result. -/
inductive StepChange (allowed : Hazard → Prop) (s : Core) :
    Table ExecutionStep.key → Table PeerMessage.id → Prop
  | opens {claim : Claim} {row : RunRow} {step : ExecutionStep} {steps : Table ExecutionStep.key}
      {messages : Table PeerMessage.id} (accepted : Accepted s claim row)
      (run : step.runID = claim.runID) (missing : step.result = none)
      (previous : PreviousDone s step.runID step.number)
      (inserted : s.steps.insert? step = some steps)
      (taken : InboxTaken s claim step.number step.input.inbox s.peerMessages messages)
      (worker : allowed .opens) (acts : allowed (.acts step.runID)) :
      StepChange allowed s steps messages
  | completes {claim : Claim} {row : RunRow} {step : ExecutionStep} {result : StepResult}
      (accepted : Accepted s claim row) (run : step.runID = claim.runID)
      (found : s.steps.get? step.key = some step) (missing : step.result = none)
      (valid : validateExecutionResult step result = true) (acts : allowed (.acts step.runID)) :
      StepChange allowed s (s.steps.put { step with result := some result }) s.peerMessages

theorem StepChange.kept {allowed : Hazard → Prop} {s : Core}
    (change : StepChange allowed s steps messages) : StepsKept s.steps steps := by
  cases change with
  | opens _ _ _ _ inserted => exact .insert inserted
  | completes _ _ found missing => exact .complete found missing _

/-! ### Ledgers -/

/-- The ledger a claim on delegated work draws on. -/
def DrawsOn (s : Core) (claim : Claim) (row : RunRow) (ledger : WorkLedger) : Prop :=
  ∃ id task d, row.run.delegated = some (id, task) ∧ s.delegations.get? id = some d ∧
    ledger.key = ledgerKey d.rootConversationID claim.authority

/-- How a reservation leaves its ledger. -/
inductive Settlement where
  | completed
  | released
  | abandoned
  deriving DecidableEq

/-- What happens to the reservations of a ledger. -/
inductive WorkEvent where
  | started (item : WorkReservationRow)
  | settled (item : WorkReservationRow) (how : Settlement) (amount : WorkUsage)
  deriving DecidableEq

/-- What dropping an abandoned reservation charges. -/
def abandonedCharge (item : WorkReservationRow) (now : Time) : WorkUsage :=
  if item.counted then ⟨0, 0, abandonedDuration item now, 0, 0⟩ else .zero

/-- What pruning settles. -/
def pruneEvents (s : Core) (reservations : Table WorkReservationRow.key) : List WorkEvent :=
  (reservations.rows.filter (abandoned s)).map
    (fun item => .settled item .abandoned (abandonedCharge item s.now))

/-- What an admission or a step of delegated work makes of a ledger. -/
inductive LedgerWork (allowed : Hazard → Prop) (s : Core) (old : WorkLedger) :
    WorkLedger → List WorkEvent → Prop
  | join (delegations : Nat) (grows : old.delegations ≤ delegations) (few : delegations ≤ 32)
      (admits : allowed .admits) :
      LedgerWork allowed s old { old with delegations := delegations } []
  | reserve {claim : Claim} {row : RunRow} {step : Nat} {requested : WorkReservation}
      {delegationID : Id} (accepted : Accepted s claim row) (root : DrawsOn s claim row old)
      (positive : 1 ≤ requested.maxDurationMillis)
      (free : (pruneConversationWorkReservations s old).reservations.get?
        (workReservationKey claim step) = none)
      (fits : fitsBudget (pruneConversationWorkReservations s old) (workReservationKey claim step)
        requested) :
      LedgerWork allowed s old (holdReservation (pruneConversationWorkReservations s old)
        { key := workReservationKey claim step, bounds := requested
          owner := conversationOwner claim.authority, delegationID := delegationID
          fence := claim.fence, counted := false, startedAt := s.now })
        (pruneEvents s old.reservations)
  | start {claim : Claim} {row : RunRow} {step : Nat} {item : WorkReservationRow}
      {delegationID : Id} (accepted : Accepted s claim row) (root : DrawsOn s claim row old)
      (found : old.reservations.get? (workReservationKey claim step) = some item)
      (fence : item.fence = claim.fence) (first : item.counted = false) :
      LedgerWork allowed s old (chargeLedger
        (holdReservation old { item with counted := true, startedAt := s.now })
        delegationID ⟨0, 0, 0, 1, 0⟩) [.started { item with counted := true, startedAt := s.now }]
  | complete {claim : Claim} {row : RunRow} {step : Nat} {item : WorkReservationRow}
      {delegationID : Id} {amount : WorkUsage} (accepted : Accepted s claim row)
      (root : DrawsOn s claim row old)
      (found : old.reservations.get? (workReservationKey claim step) = some item)
      (fence : item.fence = claim.fence) (input : amount.inputTokens ≤ item.bounds.inputTokenUpperBound)
      (output : amount.outputTokens ≤ item.bounds.maxOutputTokens)
      (duration : amount.durationMillis ≤ item.bounds.maxDurationMillis) :
      LedgerWork allowed s old
        (settleReservation old (workReservationKey claim step) delegationID amount)
        [.settled item .completed amount]
  | unreserved {claim : Claim} {row : RunRow} {step : Nat} {item : WorkReservationRow}
      {delegationID : Id} {amount : WorkUsage}
      (hazard : allowed .unreserved) (accepted : Accepted s claim row)
      (root : DrawsOn s claim row old)
      (missing : old.reservations.get? (workReservationKey claim step) = none)
      (unstarted : item.counted = false) :
      LedgerWork allowed s old
        (settleReservation old (workReservationKey claim step) delegationID amount)
        [.settled item .completed amount]
  | release {claim : Claim} {row : RunRow} {step : Nat} {item : WorkReservationRow}
      (accepted : Accepted s claim row) (root : DrawsOn s claim row old)
      (found : old.reservations.get? (workReservationKey claim step) = some item)
      (fence : item.fence = claim.fence) :
      LedgerWork allowed s old (dropReservation s.now old item)
        [.settled item .released (abandonedCharge item s.now)]

/-! ### Moves and steps -/

/-- What a committed operation can do under the agreements there are, one piece
at a time. -/
inductive Move (allowed : Hazard → Prop) (s : Core) : Core → Prop
  | tick {now : Time} (later : s.now ≤ now) : Move allowed s { s with now := now }
  | openConversation {c : Conversation} {grown : Table Conversation.id}
      (free : c.activeRunID = none) (inserted : s.conversations.insert? c = some grown) :
      Move allowed s { s with conversations := grown }
  | touchConversation {c next : Conversation} (found : s.conversations.get? c.id = some c)
      (same : SameConversation c next) (slot : next.activeRunID = c.activeRunID) :
      Move allowed s { s with conversations := s.conversations.put next }
  | run {old new : RunRow} (found : s.runs.get? old.run.id = some old) (same : SameRun old new)
      (move : RunMove allowed s old new)
      (kept : new.run.status.terminal = old.run.status.terminal) :
      Move allowed s { s with runs := s.runs.put new }
  | openRun {row : RunRow} {grown : Table RunRow.key} {c next : Conversation} (fresh : FreshRun row)
      (foreground : row.run.background = none) (inserted : s.runs.insert? row = some grown)
      (taken : Taken s.conversations row.run c next) (room : QueueRoom s row.authority)
      (client : (∀ t r b n, row.run.clientMessageID ≠ .background t r b n) ∨ allowed .borrow) :
      Move allowed s { s with runs := grown, conversations := s.conversations.put next }
  | endRun {old new : RunRow} {conversations : Table Conversation.id}
      (found : s.runs.get? old.run.id = some old) (same : SameRun old new)
      (move : RunMove allowed s old new) (isOpen : old.run.status.terminal = false)
      (ended : new.run.status.terminal = true)
      (alone : old.run.background = none ∨ allowed .abandonTask)
      (released : Released s.conversations old.run conversations) (marked : allowed .ends) :
      Move allowed s { s with runs := s.runs.put new, conversations := conversations }
  | reopenRun {old new : RunRow} {c next : Conversation}
      (found : s.runs.get? old.run.id = some old) (same : SameRun old new)
      (move : RunMove allowed s old new)
      (reopened : new.run.status.terminal = false) (foreground : old.run.background = none)
      (taken : Taken s.conversations old.run c next) :
      Move allowed s { s with
        runs := s.runs.put new, conversations := s.conversations.put next }
  | closeTask {old new : RunRow} {task : Task} {b : TaskExecution} {status : TaskStatus}
      {errorCode : String} {plan : Option Plan} {plans : Table PlanRow.key}
      {progress : GoalProgress} {completion : Option CompletionRecord}
      {completions : Table CompletionRow.key}
      (found : s.runs.get? old.run.id = some old) (same : SameRun old new)
      (move : RunMove allowed s old new) (ended : new.run.status.terminal = true)
      (background : old.run.background = some b) (named : s.tasks.get? b.taskID = some task)
      (running : task.status = .running) (executes : task.executionRunID = some old.run.id)
      (ends : status.terminal = true)
      (planned : PlanWrite task.id s.plans task.plan plan plans)
      (completed : CompletionWrite task.id s.completions task.completion completion completions)
      (verified : Verified { task with status := status, completion := completion })
      (phase : progress.phase = goalPhase status errorCode ∨ allowed .stalePhase)
      (marked : allowed .ends) :
      Move allowed s { s with
        runs := s.runs.put new, plans := plans, completions := completions
        tasks := s.tasks.put { task with
          status := status, errorCode := errorCode, plan := plan, goalProgress := progress
          completion := completion } }
  | reopenTask {old new : RunRow} {task : Task} {b : TaskExecution} {progress : GoalProgress}
      (found : s.runs.get? old.run.id = some old) (same : SameRun old new)
      (move : RunMove allowed s old new) (reopened : new.run.status.terminal = false)
      (background : old.run.background = some b) (named : s.tasks.get? b.taskID = some task)
      (executes : task.executionRunID = some old.run.id)
      (ended : task.status = .failed ∨ task.status = .cancelled)
      (phase : progress.phase = .executing)
      (current : CurrentWork s.delegations b.delegationID b.taskID) :
      Move allowed s { s with
        runs := s.runs.put new
        tasks := s.tasks.put { task with
          status := .running, errorCode := "", goalProgress := progress } }
  | reopenRunning {old new : RunRow} {task : Task} {b : TaskExecution}
      (found : s.runs.get? old.run.id = some old) (same : SameRun old new)
      (move : RunMove allowed s old new) (reopened : new.run.status.terminal = false)
      (background : old.run.background = some b) (named : s.tasks.get? b.taskID = some task)
      (running : task.status = .running)
      (executes : task.executionRunID = some old.run.id ∨ allowed .strayResume)
      (current : CurrentWork s.delegations b.delegationID b.taskID) :
      Move allowed s { s with runs := s.runs.put new }
  | launch {task next : Task} {row : RunRow} {b : TaskExecution} {grown : Table RunRow.key}
      (found : s.tasks.get? task.id = some task) (same : SameTask task next)
      (running : next.status = .running) (names : next.executionRunID = some row.run.id)
      (plan : next.plan = task.plan) (revision : next.agreementRevision = task.agreementRevision)
      (input : next.structuredInput = task.structuredInput)
      (brief : next.brief = task.brief ∨ ∃ d, s.delegations.get? d.id = some d ∧
        d.taskID = task.id ∧ task.delegationID = some d.id ∧ d.status.live = true ∧
        next.brief = d.brief)
      (idle : task.status = .queued ∨ task.delegationID ≠ none ∧
        ∀ r other, s.runs.get? r = some other →
          other.run.conversationID = row.run.conversationID →
          conversationOwner other.authority = conversationOwner row.authority →
          other.run.status.terminal = true)
      (executes : Executes row b task)
      (terms : b.agreementRevision = max 1 task.agreementRevision)
      (fresh : FreshRun row) (inserted : s.runs.insert? row = some grown)
      (room : task.status = .queued ∨ QueueRoom s task.authority)
      (completion : next.completion = task.completion)
      (previous : next.previousExecutionRuns = task.previousExecutionRuns)
      (forgets : task.executionRunID = none ∨ allowed .forgetRun)
      (phase : InPhase next ∨ allowed .stalePhase)
      (client : task.status = .queued ∧ row.run.clientMessageID = launchClient task ∨
        ∃ m, row.run.clientMessageID = .peer m)
      (budget : next.budget = b.budget ∧ (task.status = .queued ∧ b.budget = task.budget ∨
        ∃ d, s.delegations.get? d.id = some d ∧ d.taskID = task.id ∧
          task.delegationID = some d.id ∧ b.budget = conversationDelegationRemainingBudget s d))
      (current : CurrentWork s.delegations b.delegationID b.taskID) :
      Move allowed s { s with runs := grown, tasks := s.tasks.put next }
  | newTask {task : Task} {grown : Table Task.id} (status : task.status = .queued)
      (run : task.executionRunID = none) (plan : task.plan = none)
      (delegation : task.delegationID = none) (revision : task.agreementRevision = 1)
      (inserted : s.tasks.insert? task = some grown) (room : QueueRoom s task.authority)
      (previous : task.previousExecutionRuns = []) (completion : task.completion = none)
      (phase : InPhase task) : Move allowed s { s with tasks := grown }
  | editTask {old new : Task} {plans : Table PlanRow.key} {completions : Table CompletionRow.key}
      (found : s.tasks.get? old.id = some old)
      (edit : TaskEdit s.runs old new) (planned : PlanWrite old.id s.plans old.plan new.plan plans)
      (room : new.status = .queued → old.status = .queued ∨ QueueRoom s old.authority)
      (completed : CompletionWrite old.id s.completions old.completion new.completion completions)
      (verified : Verified old → Verified new)
      (phase : (InPhase old → InPhase new) ∨ allowed .stalePhase) :
      Move allowed s { s with
        tasks := s.tasks.put new, plans := plans, completions := completions }
  | submit {task : Task} {row : CompletionRow} {grown : Table CompletionRow.key}
      (found : s.tasks.get? task.id = some task) (running : task.status = .running)
      (names : row.taskID = task.id)
      (next : row.completion.revision = completionRevision task.completion + 1)
      (inserted : s.completions.insert? row = some grown) :
      Move allowed s { s with
        completions := grown
        tasks := s.tasks.put { task with completion := some row.completion } }
  | repoint {task : Task} {row : PlanRow} (hazard : allowed .staleTask)
      (found : s.tasks.get? task.id = some task)
      (stored : s.plans.get? (task.id, row.plan.version) = some row) :
      Move allowed s { s with tasks := s.tasks.put { task with plan := some row.plan } }
  | planTask {task : Task} {row : PlanRow} {grown : Table PlanRow.key}
      (found : s.tasks.get? task.id = some task) (next : PlanNext task.id task.plan row)
      (inserted : s.plans.insert? row = some grown) :
      Move allowed s { s with
        plans := grown, tasks := s.tasks.put { task with plan := some row.plan } }
  | steps {steps : Table ExecutionStep.key} {messages : Table PeerMessage.id}
      (change : StepChange allowed s steps messages) :
      Move allowed s { s with steps := steps, peerMessages := messages }
  | tools {tools : Table ToolExecution.key} (change : ToolChange allowed s tools) :
      Move allowed s { s with tools := tools }
  | messages {messages : Table PeerMessage.id} (move : MessageMove s.peerMessages messages) :
      Move allowed s { s with peerMessages := messages }
  | send {record : PeerSendRecord} {sends : Table PeerSendRecord.id}
      (inserted : s.peerSends.insert? record = some sends) :
      Move allowed s { s with peerSends := sends }
  | input {input : ModelInput} {inputs : Table ModelInput.runID}
      (inserted : s.inputs.insert? input = some inputs) : Move allowed s { s with inputs := inputs }
  | touchDelegation {old new : Delegation} (found : s.delegations.get? old.id = some old)
      (same : SameDelegation old new) (assignment : SameAssignment old new)
      (agreement : SameAgreement old new) (executes : MayExecute s.runs old new)
      (accepted : AcceptedCurrent old → AcceptedCurrent new) :
      Move allowed s { s with delegations := s.delegations.put new }
  | openLedger {ledger : WorkLedger} {grown : Table WorkLedger.key}
      (unused : ledger.usage = .zero) (free : ledger.reservations = .empty)
      (unallocated : ledger.allocations = .empty)
      (inserted : s.ledgers.insert? ledger = some grown)
      (few : (allowed .admits ∧ ledger.delegations ≤ 32) ∨
        ∃ d, s.delegations.get? d.id = some d ∧ goalKey d = ledger.key) :
      Move allowed s { s with ledgers := grown }
  | ledger {old new : WorkLedger} {events : List WorkEvent}
      (found : s.ledgers.get? old.key = some old) (work : LedgerWork allowed s old new events)
      (draws : (∃ delegations, new = { old with delegations := delegations }) ∨ allowed .draw) :
      Move allowed s { s with ledgers := s.ledgers.put new }

/-- A move, or a change of an agreement together with its history. -/
inductive Step (allowed : Hazard → Prop) (s : Core) : Core → Prop
  | move {t : Core} (move : Move allowed s t) : Step allowed s t
  | amendDelegation {old new : Delegation} {entry : AgreementRevision}
      (found : s.delegations.get? old.id = some old) (same : SameDelegation old new)
      (assignment : SameAssignment old new)
      (revision : new.agreementRevision = old.agreementRevision + 1)
      (stops : new.status.live = false) (records : Records entry new)
      (links : Relinked s.delegations old new) :
      Step allowed s { s with
        delegations := s.delegations.put new, agreements := record s.agreements entry }
  | resumeDelegation {old new : Delegation} {task next : Task}
      {history : Table AgreementRevision.key}
      (found : s.delegations.get? old.id = some old) (same : SameDelegation old new)
      (assignment : SameAssignment old new)
      (agreement : SameAgreement old new ∧ history = s.agreements ∨
        new.agreementRevision = old.agreementRevision + 1 ∧
          ∃ entry, Records entry new ∧ history = record s.agreements entry)
      (named : s.tasks.get? task.id = some task) (ended : task.status.terminal = true)
      (sameTask : SameTask task next) (plan : next.plan = task.plan)
      (current : new.taskID = next.id) (queued : next.status = .queued)
      (run : next.executionRunID = none)
      (revision : next.agreementRevision = new.agreementRevision)
      (brief : next.brief = new.brief) (input : next.structuredInput = new.structuredInput)
      (room : QueueRoom s task.authority) (status : new.status = .accepted)
      (links : Relinked s.delegations old new) (runs : RunsKept task next)
      (completion : next.completion = task.completion) (phase : InPhase next)
      (budget : next.budget = conversationDelegationRemainingBudget s old) :
      Step allowed s { s with
        delegations := s.delegations.put new, tasks := s.tasks.put next, agreements := history }
  | admitDelegation {d : Delegation} {task : Task} {entry : AgreementRevision}
      {delegations : Table Delegation.id} {tasks : Table Task.id}
      (first : d.agreementRevision = 1) (work : TaskFor d task) (plan : task.plan = none)
      (records : Records entry d)
      (insertedTask : s.tasks.insert? task = some tasks)
      (inserted : s.delegations.insert? d = some delegations) (room : QueueRoom s task.authority)
      (status : d.status = .accepted) (links : Linked s.delegations d)
      (admitted : Admitted s (goalKey d)) {row : Assignment} {assignments : Table Assignment.key}
      (assigned : AssignedTo d task row) (insertedRow : s.assignments.insert? row = some assignments)
      (budget : task.budget = d.budget) (admits : allowed .admits)
      (hosted : Hosted s.conversations d.conversationID task.authority)
      (own : task.handoff = none) (present : d.subjectExited = false) :
      Step allowed s { s with
        delegations := delegations, tasks := tasks, agreements := record s.agreements entry
        assignments := assignments }
  | transferDelegation {old new : Delegation} {task : Task} {entry : AgreementRevision}
      {tasks : Table Task.id} (found : s.delegations.get? old.id = some old)
      (same : SameDelegation old new)
      (revision : new.agreementRevision = old.agreementRevision + 1)
      (work : TaskFor new task) (plan : task.plan = none) (records : Records entry new)
      (insertedTask : s.tasks.insert? task = some tasks) (room : QueueRoom s task.authority)
      (status : new.status = .accepted) (links : Relinked s.delegations old new)
      {row : Assignment} {assignments : Table Assignment.key} (assigned : AssignedTo new task row)
      (insertedRow : s.assignments.insert? row = some assignments)
      (budget : task.budget = conversationDelegationRemainingBudget s old)
      (hosted : Hosted s.conversations new.conversationID task.authority) {handoff : Handoff}
      (handed : HandedOver s old handoff) (carries : task.handoff = some handoff) :
      Step allowed s { s with
        delegations := s.delegations.put new, tasks := tasks
        agreements := record s.agreements entry, assignments := assignments }
  | snapshot {d : Delegation} {entry : AgreementRevision}
      (found : s.delegations.get? d.id = some d) (records : Records entry d) :
      Step allowed s { s with agreements := record s.agreements entry }

/-- What a whole operation does under the agreements there are. -/
abbrev Moves (allowed : Hazard → Prop) : Core → Core → Prop := Relation.ReflTransGen (Move allowed)

/-- What a whole operation does. -/
abbrev Steps (allowed : Hazard → Prop) : Core → Core → Prop := Relation.ReflTransGen (Step allowed)

variable {allowed : Hazard → Prop} {s t : Core}

theorem Told.moves (told : Told s.peerMessages messages) :
    Moves allowed s { s with peerMessages := messages } := by
  induction told with
  | refl => exact .refl
  | tail _ move ih => exact ih.tail (.messages move)

theorem Moves.steps (moves : Moves allowed s t) : Steps allowed s t := by
  induction moves with
  | refl => exact .refl
  | tail _ move ih => exact ih.tail (.move move)

theorem Move.agreements (move : Move allowed s t) : t.agreements = s.agreements := by
  cases move <;> rfl

theorem Moves.agreements (moves : Moves allowed s t) : t.agreements = s.agreements := by
  induction moves with
  | refl => rfl
  | tail _ move ih => exact move.agreements.trans ih

/-! ### The history beside a move -/

theorem LedgerWork.beside {old new : WorkLedger} {events : List WorkEvent}
    (work : LedgerWork allowed s old new events) (history : Table AgreementRevision.key) :
    LedgerWork allowed { s with agreements := history } old new events := by
  cases work with
  | join delegations grows few admits => exact .join delegations grows few admits
  | reserve accepted root positive free fits =>
    exact .reserve (accepted.with_agreements history) root positive free fits
  | start accepted root found fence first =>
    exact .start (accepted.with_agreements history) root found fence first
  | complete accepted root found fence input output duration =>
    exact .complete (accepted.with_agreements history) root found fence input output duration
  | unreserved hazard accepted root missing unstarted =>
    exact .unreserved hazard (accepted.with_agreements history) root missing unstarted
  | release accepted root found fence =>
    exact .release (accepted.with_agreements history) root found fence

theorem StepChange.beside {steps} (change : StepChange allowed s steps messages)
    (history : Table AgreementRevision.key) :
    StepChange allowed { s with agreements := history } steps messages := by
  cases change with
  | opens accepted run missing previous inserted taken worker acts =>
    exact .opens (accepted.with_agreements history) run missing previous inserted
      (taken.transfer rfl rfl) worker acts
  | completes accepted run found missing valid acts =>
    exact .completes (accepted.with_agreements history) run found missing valid acts

theorem ToolChange.beside (change : ToolChange allowed s tools)
    (history : Table AgreementRevision.key) :
    ToolChange allowed { s with agreements := history } tools := by
  cases change with
  | reserve accepted run program running child order room state own blank inserted worker acts =>
    exact .reserve (accepted.with_agreements history) run program running child order room state own
      blank inserted worker acts
  | start accepted run found answered asked top state own blank inserted worker acts =>
    exact .start (accepted.with_agreements history) run found answered asked top state own blank
      inserted worker acts
  | reuse accepted run found answered asked top earlier completed known inserted worker acts =>
    exact .reuse (accepted.with_agreements history) run found answered asked top earlier completed
      known inserted worker acts
  | take accepted run found isOpen taken acts =>
    exact .take (accepted.with_agreements history) run found isOpen taken acts
  | receive found isOpen acts => exact .receive found isOpen acts
  | interrupt interrupt => exact .interrupt interrupt

/-- A move is the same with any other agreement history. -/
theorem Move.beside (move : Move allowed s t) (history : Table AgreementRevision.key) :
    Move allowed { s with agreements := history } { t with agreements := history } := by
  cases move with
  | tick later => exact .tick later
  | openConversation free inserted => exact .openConversation free inserted
  | touchConversation found same slot => exact .touchConversation found same slot
  | run found same move kept => exact .run found same (move.transfer rfl rfl rfl rfl) kept
  | openRun fresh foreground inserted taken room client =>
    exact .openRun fresh foreground inserted taken room client
  | endRun found same move isOpen ended alone released marked =>
    exact .endRun found same (move.transfer rfl rfl rfl rfl) isOpen ended alone released marked
  | reopenRun found same move reopened foreground taken =>
    exact .reopenRun found same (move.transfer rfl rfl rfl rfl) reopened foreground taken
  | closeTask found same move ended background named running executes ends planned completed
      verified phase marked =>
    exact .closeTask found same (move.transfer rfl rfl rfl rfl) ended background named running
      executes ends planned completed verified phase marked
  | reopenTask found same move reopened background named executes ended phase current =>
    exact .reopenTask found same (move.transfer rfl rfl rfl rfl) reopened background named executes
      ended phase current
  | reopenRunning found same move reopened background named running executes current =>
    exact .reopenRunning found same (move.transfer rfl rfl rfl rfl) reopened background named
      running executes current
  | launch found same running names plan revision input brief idle executes terms fresh inserted
      room completion previous forgets phase client budget current =>
    exact .launch found same running names plan revision input brief idle executes terms fresh
      inserted room completion previous forgets phase client budget current
  | newTask status run plan delegation revision inserted room previous completion phase =>
    exact .newTask status run plan delegation revision inserted room previous completion phase
  | editTask found edit planned room completed verified phase =>
    exact .editTask found edit planned room completed verified phase
  | submit found running names next inserted => exact .submit found running names next inserted
  | repoint hazard found stored => exact .repoint hazard found stored
  | planTask found next inserted => exact .planTask found next inserted
  | steps change => exact .steps (change.beside history)
  | tools change => exact .tools (change.beside history)
  | messages move => exact .messages move
  | send inserted => exact .send inserted
  | input inserted => exact .input inserted
  | touchDelegation found same assignment agreement executes accepted =>
    exact .touchDelegation found same assignment agreement executes accepted
  | openLedger unused free unallocated inserted few =>
    exact .openLedger unused free unallocated inserted few
  | ledger found work draws => exact .ledger found (work.beside history) draws

theorem Moves.beside (moves : Moves allowed s t) (history : Table AgreementRevision.key) :
    Moves allowed { s with agreements := history } { t with agreements := history } := by
  induction moves with
  | refl => exact .refl
  | tail _ move ih => exact ih.tail (move.beside history)

end Protocol

end DomainryAgent
