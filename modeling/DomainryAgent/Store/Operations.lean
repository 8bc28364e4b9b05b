import DomainryAgent.Lib.System
import DomainryAgent.Store.Attempts
import DomainryAgent.Store.Messaging

/-!
The operations of the store as one alphabet, each a single transaction, and the
store as a system that takes them in any order.
-/

namespace DomainryAgent

open Lib

inductive Op where
  | tick (millis : Nat)
  | createConversation (id : Id) (agentID : Option Id) (a : Authority)
  | updateConversation (id : Id) (expectedRevision : Nat) (archived : Bool) (a : Authority)
  | enqueue (id : Id) (input : Send) (a : Authority)
  | claim (runtimeID worker : Id) (ttl : Nat) (agents : List AgentProfile)
  | heartbeat (claim : Claim) (ttl : Nat)
  | appendEvent (claim : Claim) (kind : Id)
  | appendDelta (claim : Claim) (offset : Nat) (delta : String)
  | finish (claim : Claim) (content code : String) (reported : Bool)
  | cancel (id runID : Id) (a : Authority)
  | resume (id runID : Id) (a : Authority)
  | waitExecution (claim : Claim) (wait : Wait)
  | respondExecution (id runID : Id) (response : InteractionResponse) (a : Authority)
  | expireInteraction (runID : Id)
  | modelInput (claim : Claim) (messages : List StepMessage)
  | executionStep (claim : Claim) (number : Nat) (input : StepRequest)
  | completeExecutionStep (claim : Claim) (number : Nat) (result : StepResult)
  | beginModelAttempt (claim : Claim) (step : Int)
  | failModelAttempt (claim : Claim) (step : Int) (number : Nat) (retryAt : Option Time)
  | completeModelAttempt (claim : Claim) (step : Int) (number : Nat)
  | prepareExecutionSubtool (claim : Claim) (number : Nat) (input : Subtool)
  | beginExecutionSubtool (claim : Claim) (number : Nat) (callID : Id)
  | beginExecutionTool (claim : Claim) (number : Nat) (callID : Id) (width : Nat)
  | finishExecutionTool (claim : Claim) (number : Nat) (callID : Id) (result : ToolResult)
  | startTask (request : ToolRequest) (start : TaskStart)
  | updatePlan (request : ToolRequest) (update : PlanUpdate) (prepared : Plan)
  | submitCompletion (request : ToolRequest) (submit : CompletionSubmit)
      (prepared : CompletionRecord) (judgment : CompletionJudgment)
  | reuseEffect (claim : Claim) (number : Nat) (call : ToolCall) (definition : ToolDefinition)
  | beginInspection (id : Id) (revision : Nat) (runID : Id) (step : Nat)
      (callID clientID token : Id) (a : Authority)
  | finishInspection (request : InspectionRequest) (result : ToolResult) (a : Authority)
  | reserveWork (claim : Claim) (step : Nat) (requested : WorkReservation)
  | startWork (claim : Claim) (step : Nat)
  | releaseWork (claim : Claim) (step : Nat)
  | acceptScheduledTask (start : TaskStart) (a : Authority)
  | acceptBusinessEventTask (start : TaskStart) (relatedTaskID : Option Id) (a : Authority)
  | launchTask (runtimeID runID : Id)
  | resumeQueuedTask (taskID : Id) (a : Authority)
  | cancelQueuedTask (taskID : Id) (a : Authority)
  | updateTaskAgreement (taskID : Id) (input : TaskAgreementUpdate) (a : Authority)
  | reviewTaskCompletion (taskID : Id) (review : CompletionReview) (a : Authority)
  | createDelegation (input : Admission) (a : Authority)
  | updateDelegation (id : Id) (update : DelegationUpdate) (a : Authority)
  | publishDelegation (id : Id) (expectedRevision : Nat) (a : Authority)
  | republishDelivery (id : Id) (input : DeliveryPublication) (a : Authority)
  | transferDelegation (id : Id) (input : Transfer) (a : Authority)
  | sendMessage (id : Id) (input : PeerSend) (a : Authority)
  | supersedeMessage (id : PeerMessageID) (a : Authority)
  | launchPeerMessage (runtimeID runID : Id)

/-- What an operation answers, as far as a caller goes on from it. -/
inductive Outcome where
  | done
  | leased (claim : Option Claim)
  | began (record : ToolExecution) (replayed : Bool)
  | attempting (attempt : ModelAttempt)
  | reused (receipt : Option ToolResult)

/-- The transaction of an operation. -/
def exec : Op → StoreTx Outcome
  | .tick millis => do
    Tx.write (fun s => { s with now := s.now + millis })
    pure .done
  | .createConversation id agentID a => createConversation id agentID a *> pure .done
  | .updateConversation id expectedRevision archived a =>
    updateConversation id expectedRevision archived a *> pure .done
  | .enqueue id input a => enqueue id input a *> pure .done
  | .claim runtimeID worker ttl agents => .leased <$> claimRun runtimeID worker ttl agents
  | .heartbeat claim ttl => heartbeat claim ttl *> pure .done
  | .appendEvent claim kind => appendEvent claim kind *> pure .done
  | .appendDelta claim offset delta => appendDelta claim offset delta *> pure .done
  | .finish claim content code reported => finish claim content code reported *> pure .done
  | .cancel id runID a => transitionRun id runID a false *> pure .done
  | .resume id runID a => transitionRun id runID a true *> pure .done
  | .waitExecution claim wait => waitExecution claim wait *> pure .done
  | .respondExecution id runID response a => respondExecution id runID response a *> pure .done
  | .expireInteraction runID => expireRunInteraction runID *> pure .done
  | .modelInput claim messages => modelInput claim messages *> pure .done
  | .executionStep claim number input => executionStep claim number input *> pure .done
  | .completeExecutionStep claim number result =>
    completeExecutionStep claim number result *> pure .done
  | .beginModelAttempt claim step => .attempting <$> beginConversationModelAttempt claim step
  | .failModelAttempt claim step number retryAt =>
    failConversationModelAttempt claim step number retryAt *> pure .done
  | .completeModelAttempt claim step number =>
    completeConversationModelAttempt claim step number *> pure .done
  | .prepareExecutionSubtool claim number input =>
    prepareExecutionSubtool claim number input *> pure .done
  | .beginExecutionSubtool claim number callID =>
    (fun begun => .began begun.1 begun.2) <$> beginExecutionSubtool claim number callID
  | .beginExecutionTool claim number callID width =>
    (fun begun => .began begun.1 begun.2) <$> beginExecutionTool claim number callID width
  | .finishExecutionTool claim number callID result =>
    finishExecutionTool claim number callID result *> pure .done
  | .startTask request start => applyConversationTaskTool request start *> pure .done
  | .updatePlan request update prepared =>
    applyConversationTaskPlanTool request update prepared *> pure .done
  | .submitCompletion request submit prepared judgment =>
    applyConversationTaskCompletionTool request submit prepared judgment *> pure .done
  | .reuseEffect claim number call definition =>
    .reused <$> reuseConversationDelegationEffect claim number call definition
  | .beginInspection id revision runID step callID clientID token a =>
    beginConversationOutcomeInspection id revision runID step callID clientID token a *> pure .done
  | .finishInspection request result a =>
    finishConversationOutcomeInspection request result a *> pure .done
  | .reserveWork claim step requested => reserveConversationWorkStep claim step requested *> pure .done
  | .startWork claim step => startConversationWorkStep claim step *> pure .done
  | .releaseWork claim step => releaseConversationWorkStep claim step *> pure .done
  | .acceptScheduledTask start a => acceptScheduledConversationTask start a *> pure .done
  | .acceptBusinessEventTask start relatedTaskID a =>
    acceptBusinessEventConversationTask start relatedTaskID a *> pure .done
  | .launchTask runtimeID runID => launchConversationTask runtimeID runID *> pure .done
  | .resumeQueuedTask taskID a => resumeQueuedConversationTask taskID a *> pure .done
  | .cancelQueuedTask taskID a => cancelQueuedConversationTask taskID a *> pure .done
  | .updateTaskAgreement taskID input a =>
    updateConversationTaskAgreement taskID input a *> pure .done
  | .reviewTaskCompletion taskID review a =>
    reviewConversationTaskCompletion taskID review a *> pure .done
  | .createDelegation input a => createConversationDelegation input a *> pure .done
  | .updateDelegation id update a => updateConversationDelegation id update a *> pure .done
  | .publishDelegation id expectedRevision a => publishDelegation id expectedRevision a *> pure .done
  | .republishDelivery id input a => republishDelivery id input a *> pure .done
  | .transferDelegation id input a => transferConversationDelegation id input a *> pure .done
  | .sendMessage id input a => sendConversationAgentMessage id input a *> pure .done
  | .supersedeMessage id a => supersedeConversationParticipantMessage id a *> pure .done
  | .launchPeerMessage runtimeID runID =>
    launchConversationPeerMessage runtimeID runID *> pure .done

/-- One operation on the store: a failed one leaves it alone. -/
def Db.step (s : Db) (op : Op) : Db := (exec op).commit s

end DomainryAgent
