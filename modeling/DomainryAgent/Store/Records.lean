import Mathlib.Tactic.Common
import DomainryAgent.Lib.Json

/-!
The rows the conversation store keeps: runs, background tasks and their plans,
tool calls, interactions, delegations and their agreements.

Identifiers stand for the source's opaque strings.  Those the source draws at
random or derives by hashing name one thing only, so they are plain numbers
here and a hash of a value is the value itself.  An optional identifier is the
source's possibly empty string.  Times are milliseconds.
-/

namespace DomainryAgent

/-- An opaque identifier. -/
abbrev Id := Nat

/-- A millisecond timestamp. -/
abbrev Time := Nat

/-! ### Errors -/

inductive ErrorClass where
  | badRequest
  | forbidden
  | notFound
  | conflict
  | rateLimited
  /-- A violated unique constraint, reported by the database itself. -/
  | constraint
  deriving DecidableEq

/-- `conversation_store.go::conversationError`. -/
structure Error where
  cls : ErrorClass
  code : String
  deriving DecidableEq

/-! ### Principals -/

structure Authority where
  runtimeID : Id
  workspaceID : Id
  userID : Id
  roleKey : Id
  known : Bool
  deriving DecidableEq

/-- The partition a row belongs to: `conversationOwner` hashes these three. -/
structure OwnerKey where
  runtimeID : Id
  workspaceID : Id
  userID : Id
  deriving DecidableEq

/-- `conversation_store.go::conversationOwner`. -/
def conversationOwner (a : Authority) : OwnerKey := ⟨a.runtimeID, a.workspaceID, a.userID⟩

/-- The workspace quota partition. -/
def workspaceKey (a : Authority) : Id × Id := (a.runtimeID, a.workspaceID)

/-! ### Agents -/

/-- The configuration of an agent that work was given to: its name and the
revision it had then. -/
structure AgentRef where
  id : Id
  revision : Nat
  deriving DecidableEq

/-- The agent of a conversation that names none. -/
def defaultAgentID : Id := 0

/-- What the registry of agents answers a user for one of their own agents, or
for one shared with them. -/
structure AgentProfile where
  viewer : OwnerKey
  id : Id
  revision : Nat
  enabled : Bool
  maxConcurrent : Nat
  deriving DecidableEq

/-! ### Conversations -/

structure Conversation where
  id : Id
  owner : OwnerKey
  agentID : Option Id
  delegationID : Option Id
  archived : Bool
  lastSeq : Nat
  activeRunID : Option Id
  revision : Nat
  deriving DecidableEq

inductive Role where
  | user
  | assistant
  deriving DecidableEq

structure Message where
  conversationID : Id
  seq : Nat
  runID : Id
  role : Role
  content : String
  backgroundTaskID : Option Id
  deriving DecidableEq

/-! ### Interactions -/

inductive InteractionKind where
  | input
  | confirmation
  | reconciliation
  deriving DecidableEq

inductive InteractionStatus where
  | pending
  | answered
  | approved
  | rejected
  | cancelled
  | expired
  | resolved
  deriving DecidableEq

structure Interaction where
  id : Id
  runID : Id
  step : Nat
  callID : Id
  kind : InteractionKind
  status : InteractionStatus
  revision : Nat
  expiresAt : Option Time
  answer : String
  deriving DecidableEq

inductive Decision where
  | answer
  | approve
  | reject
  deriving DecidableEq

structure InteractionResponse where
  clientID : Id
  interactionID : Id
  expectedRevision : Nat
  decision : Decision
  answer : String
  deriving DecidableEq

structure InteractionRecord where
  interaction : Interaction
  response : Option InteractionResponse
  deriving DecidableEq

/-! ### Receipts -/

inductive ToolStatus where
  | completed
  | failed
  | pending
  | uncertain
  deriving DecidableEq

structure ToolResult where
  status : ToolStatus
  errorCode : String
  content : String
  accepted : Bool
  deriving DecidableEq

/-- A write of an earlier assignment, with its receipt and where that is. -/
structure DelegationEffect where
  tool : Id
  arguments : Id
  conversationID : Id
  runID : Id
  step : Nat
  callID : Id
  receipt : ToolResult
  deriving DecidableEq

/-- What the next assignment of a delegation is told of the ones before. -/
structure Handoff where
  runs : List (Id × Id)
  effects : List DelegationEffect
  deriving DecidableEq

/-! ### Runs -/

inductive RunStatus where
  | queued
  | running
  | waitingUser
  | waitingConfirmation
  | needsReconciliation
  | completed
  | failed
  | cancelled
  deriving DecidableEq

/-- `ConversationRun.Terminal`. -/
def RunStatus.terminal : RunStatus → Bool
  | completed | failed | cancelled => true
  | _ => false

/-- `ConversationRun.Waiting`. -/
def RunStatus.waiting : RunStatus → Bool
  | waitingUser | waitingConfirmation | needsReconciliation => true
  | _ => false

/-- What the id of a peer message is made of; the source hashes these parts. -/
inductive PeerMessageID where
  /-- Sent to a delegation by a user, from a conversation or not, under the
  sender's own key. -/
  | sent (owner : OwnerKey) (delegationID : Id) (senderConversationID : Option Id) (clientID : Id)
  /-- The outcome of a run of the delegation. -/
  | outcome (delegationID runID : Id)
  | rejected (delegationID : Id) (revision : Nat)
  /-- A requirement change, as one side of a delegation is told of it.  A change
  that came from elsewhere also names the delegation it reached. -/
  | change (originID : Id) (originRevision : Nat) (reachedID : Option Id) (conversationID : Id)
  | disagreement (delegationID issueID : Id) (revision : Nat)
  deriving DecidableEq

/-- The client id of a run: a message of the user, a launch of a background task
(the generation is hashed from revision, brief version and the number of earlier
runs), or a peer message.  The last two are texts a user may choose as well. -/
inductive ClientMessage where
  | user (id : Id)
  | background (taskID : Id) (agreementRevision briefVersion previousRuns : Nat)
  | peer (messageID : PeerMessageID)
  deriving DecidableEq

/-- What a run was requested with: a digest of the request, or the peer message
itself. -/
inductive RequestHash where
  | content (digest : Id)
  | peer (messageID : PeerMessageID)
  deriving DecidableEq

structure TaskBudget where
  maxSteps : Nat
  maxToolCalls : Nat
  deriving DecidableEq

/-- How the completion of a task is found: by the response it gives, or by an
assessment of its conditions. -/
inductive CompletionMode where
  | legacyResponse
  | assessed
  deriving DecidableEq

/-- The task facts frozen onto the run that executes it. -/
structure TaskExecution where
  taskID : Id
  briefVersion : Nat
  agreementRevision : Nat
  planVersion : Nat
  completionMode : CompletionMode
  budget : TaskBudget
  delegationID : Option Id
  handoff : Option Handoff := none
  deriving DecidableEq

inductive ModelAttemptStatus where
  | started
  | failed
  | retryScheduled
  | completed
  deriving DecidableEq

/-- An attempt to have a model answer a step.  Summaries and plain replies have
negative steps. -/
structure ModelAttempt where
  step : Int
  runAttempt : Nat
  number : Nat
  status : ModelAttemptStatus
  retryAt : Option Time
  deriving DecidableEq

structure Run where
  id : Id
  conversationID : Id
  clientMessageID : ClientMessage
  requestHash : RequestHash
  agent : Option AgentRef
  status : RunStatus
  userSeq : Nat
  lastInputSeq : Nat
  attempt : Nat
  draftText : String
  assistantMessageSeq : Option Nat
  interaction : Option Interaction
  background : Option TaskExecution
  errorCode : String
  createdAt : Time
  /-- The attempts of its steps, the latest first. -/
  modelAttempts : List ModelAttempt := []
  deriving DecidableEq

/-- `conversation_run_store.go::conversationRunRow`. -/
structure RunRow where
  run : Run
  authority : Authority
  owner : Option Id
  fence : Nat
  expires : Time
  eventSeq : Nat
  deriving DecidableEq

/-- What a worker holds after `Claim`. -/
structure Claim where
  authority : Authority
  conversationID : Id
  runID : Id
  owner : Id
  fence : Nat
  deriving DecidableEq

/-! ### Tools and steps -/

inductive ToolEffect where
  | read
  | write
  deriving DecidableEq

inductive Idempotency where
  | natural
  | key
  | reconcile
  deriving DecidableEq

/-- Which component runs a tool: the host, or the store itself. -/
inductive ToolKind where
  | host
  | code
  | planUpdate
  | taskStart
  | completionSubmit
  deriving DecidableEq

structure ToolDefinition where
  key : Id
  version : Id
  effect : ToolEffect
  idempotency : Idempotency
  kind : ToolKind
  maxOutputBytes : Nat
  timeoutMillis : Nat := 0
  deriving DecidableEq

/-- A call: `arguments` is the JSON value of its arguments, `spelling` tells the
texts of one value apart. -/
structure ToolCall where
  id : Id
  name : Id
  arguments : Id
  spelling : Id := 0
  deriving DecidableEq

inductive ToolState where
  | queued
  | started
  | uncertain
  | completed
  deriving DecidableEq

/-- The key a tool owner deduplicates by: the source hashes these four. -/
structure IdempotencyKey where
  owner : OwnerKey
  runID : Id
  step : Nat
  callID : Id
  deriving DecidableEq

structure ToolExecution where
  runID : Id
  step : Nat
  call : ToolCall
  parentCallID : Option Id
  dispatchIndex : Nat
  definition : ToolDefinition
  idempotencyKey : IdempotencyKey
  state : ToolState
  result : Option ToolResult
  leaseOwner : Option Id
  fence : Nat
  /-- The call of an earlier assignment whose receipt this one repeats. -/
  reusedFrom : Option (Id × Nat × Id) := none
  deriving DecidableEq

/-- A query for the outcome of a call, made by a user.  The source keeps it in
the record of the call, as its latest. -/
structure ToolInspection where
  runID : Id
  step : Nat
  callID : Id
  token : Id
  clientID : Id
  expiresAt : Time
  actorID : Id
  completed : Bool
  deriving DecidableEq

abbrev ToolInspection.key (inspection : ToolInspection) : Id × Nat × Id :=
  (inspection.runID, inspection.step, inspection.callID)

inductive FinishReason where
  | stop
  | toolCalls
  deriving DecidableEq

/-- A message of a model request.  A tool's message carries its receipt with a
reference to the call, and an answered question is repeated as the user's. -/
inductive StepMessage where
  | plain (content : String)
  | assistant (content : String) (calls : List ToolCall)
  | tool (runID : Id) (step : Nat) (callID : Id) (output : ToolResult)
  | answer (content : String)
  deriving DecidableEq

structure StepRequest where
  tools : List ToolDefinition
  maxToolCalls : Nat
  maxParallelTools : Nat
  payload : Id
  /-- The peer messages that the input carries. -/
  inbox : List PeerMessageID := []
  messages : List StepMessage := []
  deriving DecidableEq

/-- The usage a provider reports for one step; a missing or malformed number
is `none`.  `cacheTokens` lists the cache counters that are present. -/
structure UsageReport where
  inputTokens : Option Nat
  outputTokens : Option Nat
  cacheTokens : List (Option Nat)
  deriving DecidableEq

structure StepResult where
  finishReason : FinishReason
  content : String
  calls : List ToolCall
  usage : UsageReport
  deriving DecidableEq

/-- The first request of a run, frozen when it was built. -/
structure ModelInput where
  runID : Id
  messages : List StepMessage
  deriving DecidableEq

structure ExecutionStep where
  runID : Id
  number : Nat
  input : StepRequest
  result : Option StepResult
  deriving DecidableEq

/-! ### Events -/

inductive EventKind where
  | queued
  | started
  | run (status : RunStatus)
  | delta
  | stepStarted
  | stepCompleted
  | contextAssembled
  | attempt (status : ModelAttemptStatus)
  | toolQueued
  | toolStarted (step : Nat) (callID : Id)
  | toolWaiting
  | toolReceiptReused
  | tool (state : ToolState)
  | inspectionStarted
  | inspectionCompleted (state : ToolState)
  | interactionResponded
  | interaction (status : InteractionStatus)
  | custom (kind : Id)
  deriving DecidableEq

structure Event where
  runID : Id
  seq : Nat
  kind : EventKind
  deriving DecidableEq

/-! ### Briefs, plans and tasks -/

/-- The parts of an agreement a plan step or a dependency can refer to.  The
constructors follow the alphabetical order the source sorts field lists by. -/
inductive AgreementField where
  | assignment
  | assumptions
  | audience
  | completionConditions
  | constraints
  | deliverable
  | dependencies
  | dueAt
  | goal
  | input
  | verificationRules
  deriving DecidableEq

/-- `ConversationCompletionRule`. -/
structure CompletionRule where
  condition : Nat
  kind : String
  schema : Option Lib.Json.RawMessage
  tool : String
  argumentsSchema : Option Lib.Json.RawMessage
  resultSchema : Option Lib.Json.RawMessage
  minReceipts : Nat
  completion : String
  deriving DecidableEq

/-- A time on the clock of its zone; the offset is in minutes. -/
structure ZonedTime where
  year : Nat
  month : Nat
  day : Nat
  hour : Nat
  minute : Nat
  second : Nat
  nanosecond : Nat
  offset : Int
  deriving DecidableEq

/-- `ConversationTaskBrief`.  A list that is `none` is nil and is not written like
an empty one. -/
structure Brief where
  version : Nat
  goal : String
  deliverable : String
  audience : String
  constraints : Option (List String)
  completionConditions : Option (List String)
  verificationRules : List CompletionRule
  assumptions : Option (List String)
  dueAt : Option ZonedTime
  deriving DecidableEq

/-- The completion conditions; a nil list has none. -/
def Brief.conditions (brief : Brief) : List String := brief.completionConditions.getD []

/-- `ConversationStructuredInput`. -/
structure StructuredInput where
  schema : Option Lib.Json.RawMessage
  data : Lib.Json.RawMessage
  deriving DecidableEq

inductive PlanStepStatus where
  | pending
  | inProgress
  | completed
  | blocked
  | skipped
  | needsReview
  deriving DecidableEq

structure PlanExecutor where
  agentID : Id
  runID : Id
  deriving DecidableEq

structure PlanStep where
  id : Id
  title : String
  status : PlanStepStatus
  dependsOn : List Id
  input : String
  expectedOutput : String
  requirementFields : List AgreementField
  executor : PlanExecutor
  evidence : List Id
  artifacts : List Id
  outcome : String
  blocker : String
  deriving DecidableEq

/-- A point in a run that something was derived from. -/
structure RunReference where
  conversationID : Id
  runID : Id
  beforeStep : Nat
  deriving DecidableEq

structure Plan where
  taskID : Id
  version : Nat
  agreementRevision : Nat
  reason : String
  steps : List PlanStep
  source : Option RunReference
  deriving DecidableEq

/-- Who wrote a plan version: `plan_update` under a client's id, or the store. -/
inductive PlanClient where
  | update (id : Id)
  | system
  deriving DecidableEq

structure PlanRow where
  plan : Plan
  client : PlanClient
  deriving DecidableEq

inductive TaskStatus where
  | queued
  | running
  | awaitingReview
  | completed
  | failed
  | cancelled
  deriving DecidableEq

/-- `ConversationTask.Terminal`. -/
def TaskStatus.terminal : TaskStatus → Bool
  | awaitingReview | completed | failed | cancelled => true
  | _ => false

/-- Where a task came from. -/
inductive TaskOrigin where
  | tool
  | schedule
  | businessEvent
  | delegation
  deriving DecidableEq

/-! ### Completion -/

inductive CheckMethod where
  | pending
  | program
  | recipient
  | user
  | agent
  deriving DecidableEq

inductive Verdict where
  | met
  | unmet
  | unknown
  deriving DecidableEq

/-- One condition of a brief, as it was checked. -/
structure CompletionCheck where
  requirement : String
  method : CheckMethod
  verdict : Verdict
  deriving DecidableEq

/-- The condition is met, and not by the recipient's own word alone. -/
def CompletionCheck.passed (check : CompletionCheck) : Bool :=
  check.verdict == .met && check.method != .recipient && check.method != .pending

/-- What a task hands in as its result; digests stand for what they digest. -/
structure CompletionSubmission where
  agreementRevision : Nat
  summary : String
  conditions : Id
  data : Id
  artifacts : Id
  source : Option RunReference
  deriving DecidableEq

/-- A submission as the delivery of a brief; its digest stands for it. -/
structure CompletionDelivery where
  agreementRevision : Nat
  briefVersion : Nat
  summary : String
  conditions : Id
  data : Id
  deriving DecidableEq

structure CompletionVerification where
  deliveryDigest : CompletionDelivery
  briefVersion : Nat
  agreementRevision : Nat
  checks : List CompletionCheck
  ready : Bool
  blockers : List String
  deriving DecidableEq

inductive CompletionKind where
  | agentAssessment
  | executionEnd
  | legacyResponse
  | review (method : CheckMethod)
  deriving DecidableEq

structure CompletionRecord where
  revision : Nat
  kind : CompletionKind
  submission : CompletionSubmission
  verification : CompletionVerification
  reason : String
  deriving DecidableEq

/-- Who recorded a completion: a client under its id, or the end of a run.  The
id of the second is a text a client may choose as well. -/
inductive CompletionClient where
  | client (id : Id)
  | finish (runID : Id)
  deriving DecidableEq

structure CompletionRow where
  taskID : Id
  clientID : CompletionClient
  requestHash : Option Id
  completion : CompletionRecord
  deriving DecidableEq

/-! ### Progress -/

inductive GoalStatus where
  | active
  | blocked
  | completed
  | paused
  | budgetExhausted
  deriving DecidableEq

inductive GoalPhase where
  | queued
  | executing
  | awaitingReview
  | completed
  | paused
  | failed
  | budgetExhausted
  deriving DecidableEq

structure GoalProgress where
  revision : Nat
  status : GoalStatus
  phase : GoalPhase
  blocker : String
  completedItems : List String
  remainingItems : List String
  deriving DecidableEq

structure Task where
  id : Id
  authority : Authority
  requestHash : Id
  origin : TaskOrigin
  followUp : Bool
  status : TaskStatus
  goal : String
  brief : Brief
  agreementRevision : Nat
  structuredInput : Option StructuredInput
  inputSource : Option RunReference
  budget : TaskBudget
  plan : Option Plan
  agent : Option AgentRef
  delegationID : Option Id
  sourceConversationID : Id
  sourceRunID : Option Id
  executionConversationID : Option Id
  executionRunID : Option Id
  previousExecutionRuns : List Id
  errorCode : String
  completionMode : CompletionMode
  completion : Option CompletionRecord
  goalProgress : GoalProgress
  createdAt : Time
  handoff : Option Handoff := none
  deriving DecidableEq

/-- The conversation a task's runs live in. -/
def Task.executionConversation (task : Task) : Id :=
  task.executionConversationID.getD task.sourceConversationID

/-! ### Delegations -/

inductive DelegationStatus where
  | accepted
  | running
  | awaitingDelivery
  | delivered
  | acceptedDelivery
  | needsChanges
  | needsUpdate
  | paused
  | failed
  | cancelled
  | rejected
  deriving DecidableEq

structure DependencyInput where
  delegationID : Id
  briefVersion : Nat
  agreementRevision : Nat
  fields : List AgreementField
  deriving DecidableEq

/-- A dependency with the text of the fields it froze. -/
structure Dependency where
  reference : DependencyInput
  values : Lib.Json.Text
  source : Option RunReference
  inputSource : Option RunReference
  deriving DecidableEq

structure RequirementChange where
  sourceDelegationID : Id
  sourceBriefVersion : Nat
  sourceAgreementRevision : Nat
  viaDelegationID : Option Id
  changedFields : List AgreementField
  deriving DecidableEq

structure Delivery where
  briefVersion : Nat
  agreementRevision : Nat
  payload : Id
  deriving DecidableEq

/-- The record that a delivery was checked.  A digest stands for what it
digests. -/
structure DeliveryVerification where
  deliveryDigest : Delivery
  briefVersion : Nat
  agreementRevision : Nat
  ready : Bool
  deriving DecidableEq

inductive DisagreementStatus where
  | opened
  | checking
  | needsRevision
  | waitingUser
  | resolved
  deriving DecidableEq

/-- A disagreement as its delegation shows it. -/
structure DisagreementSummary where
  id : Id
  revision : Nat
  status : DisagreementStatus
  condition : Option Nat
  briefVersion : Nat
  agreementRevision : Nat
  deliveryDigest : Option Delivery
  ownerAgentID : Option Id
  deriving DecidableEq

/-- The receipt of a tool call, as a claim or an assessment cites it. -/
structure ResultReference where
  runID : Id
  step : Nat
  callID : Id
  result : ToolResult
  deriving DecidableEq

structure DisagreementClaim where
  id : Id
  receipts : List ResultReference
  deriving DecidableEq

/-- One revision of a disagreement, under the owner that stored it. -/
structure Disagreement where
  owner : OwnerKey
  delegationID : Id
  summary : DisagreementSummary
  claims : List DisagreementClaim
  deriving DecidableEq

inductive DeliveryRecordKind where
  | deliver
  | acceptDelivery
  | reviewDelivery
  | republishDelivery
  deriving DecidableEq

/-- One entry of a delegation's delivery history. -/
structure DeliveryRecord where
  delegationID : Id
  revision : Nat
  kind : DeliveryRecordKind
  delivery : Delivery
  verification : Option DeliveryVerification
  reason : String
  deriving DecidableEq

structure WorkBudget where
  maxInputTokens : Nat
  maxOutputTokens : Nat
  maxDurationSeconds : Nat
  deriving DecidableEq

structure Delegation where
  id : Id
  owner : OwnerKey
  executionSubject : OwnerKey
  fromAgentID : Id
  sourceAgent : AgentRef
  toAgentID : Id
  sourceConversationID : Id
  sourceRunID : Option Id
  rootConversationID : Id
  conversationID : Id
  taskID : Id
  brief : Brief
  briefSource : Option RunReference
  structuredInput : Option StructuredInput
  inputSource : Option RunReference
  dependencies : List Dependency
  budget : TaskBudget
  workBudget : WorkBudget
  status : DelegationStatus
  agreementRevision : Nat
  adoptedAgreementRevision : Nat
  assignmentNumber : Nat
  pendingChanges : List RequirementChange
  delivery : Option Delivery
  verification : Option DeliveryVerification
  disagreements : List DisagreementSummary
  decision : String
  revision : Nat
  /-- Its executing subject was erased.  The operations here never set it, and of
  those that ask only the propagation of a change is modelled with it. -/
  subjectExited : Bool := false
  deriving DecidableEq

/-! ### Peer messages -/

inductive PeerMessageKind where
  | message
  | question
  | reply
  | requirementsChanged
  | taskRejected
  | taskOutcome (status : RunStatus)
  | disagreementChanged
  deriving DecidableEq

inductive DeliveryMode where
  | nextStep
  | nextRun
  deriving DecidableEq

/-- What became of a message that is no longer pending. -/
inductive Consumption where
  | step (runID : Id) (number : Nat)
  | superseded
  deriving DecidableEq

/-- A message between the two sides of a delegation, as stored under the
identity and the agent that receive it. -/
structure PeerMessage where
  id : PeerMessageID
  runtimeID : Id
  authority : Authority
  agent : Option AgentRef
  createdAt : Time
  consumed : Option Consumption
  delegationID : Id
  conversationID : Id
  fromAgentID : Option Id
  toAgentID : Id
  senderUserID : Option Id
  senderRoleKey : Option Id
  kind : PeerMessageKind
  content : String
  documents : Id
  source : Option RunReference
  briefVersion : Nat
  agreementRevision : Nat
  replyToID : Option PeerMessageID
  answeredByID : Option PeerMessageID
  answeredQuestionIDs : List PeerMessageID
  disagreement : Option (Id × Nat)
  afterRunID : Option Id
  superseded : Bool
  /-- A sender whom a grant of the delegation admits, and the grant's revision. -/
  participantUserID : Option Id := none
  participantRevision : Nat := 0
  deriving DecidableEq

/-- A message to be sent. -/
structure PeerSend where
  clientID : Id
  senderConversationID : Option Id
  toAgentID : Id
  kind : PeerMessageKind
  mode : DeliveryMode
  replyToID : Option PeerMessageID
  content : String
  documents : Id
  briefVersion : Nat
  agreementRevision : Nat
  executionAgent : Option AgentRef
  source : Option RunReference
  /-- The revision of the participant grant that admits the caller. -/
  grant : Option Nat := none
  deriving DecidableEq

/-- What the caller asks for; a grant is looked up. -/
def PeerSend.request (input : PeerSend) : PeerSend := { input with grant := none }

/-- A send that was carried out, with what it was answered. -/
structure PeerSendRecord where
  id : PeerMessageID
  request : PeerSend
  message : PeerMessage
  deriving DecidableEq

/-- The source and execution identities of a delegation between two users. -/
structure DelegationSubjects where
  delegationID : Id
  source : Authority
  execution : Authority
  deriving DecidableEq

/-- What a history entry says changed. -/
inductive AgreementChange where
  | requirements (fields : List AgreementField)
  | assignment
  deriving DecidableEq

/-- One entry of a delegation's agreement history. -/
structure AgreementRevision where
  delegationID : Id
  revision : Nat
  brief : Brief
  structuredInput : Option StructuredInput
  inputSource : Option RunReference
  dependencies : List Dependency
  source : Option RunReference
  changed : AgreementChange
  reason : String
  deriving DecidableEq

structure Assignment where
  delegationID : Id
  number : Nat
  agentID : Id
  conversationID : Id
  taskID : Id
  agreementRevision : Nat
  executor : Authority
  deriving DecidableEq

/-! ### Work ledgers -/

structure WorkUsage where
  inputTokens : Nat
  outputTokens : Nat
  durationMillis : Nat
  modelCalls : Nat
  toolCalls : Nat
  deriving DecidableEq

/-- The upper bounds a step may consume. -/
structure WorkReservation where
  inputTokenUpperBound : Nat
  maxOutputTokens : Nat
  maxDurationMillis : Nat
  deriving DecidableEq

structure ReservationKey where
  conversationID : Id
  runID : Id
  step : Nat
  deriving DecidableEq

structure WorkReservationRow where
  key : ReservationKey
  bounds : WorkReservation
  owner : OwnerKey
  delegationID : Id
  fence : Nat
  counted : Bool
  startedAt : Time
  deriving DecidableEq

structure WorkAllocation where
  delegationID : Id
  usage : WorkUsage
  deriving DecidableEq

structure LedgerKey where
  runtimeID : Id
  workspaceID : Id
  rootConversationID : Id
  deriving DecidableEq

/-! ### Limits -/

structure ExecutionLimits where
  maxQueuedPerUser : Nat
  maxQueuedPerWorkspace : Nat
  maxRunningPerUser : Nat
  maxRunningPerWorkspace : Nat
  deriving DecidableEq

end DomainryAgent
