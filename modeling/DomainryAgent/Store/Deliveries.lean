import DomainryAgent.Store.Delegations

/-!
Deliveries: their verification, the disagreements about them and the record
that is kept of both.

Whether the completion conditions of a brief are met is judged outside the
store; `Evaluation` is that judgement.  A verification is ready only when the
judgement is, the delivery is for the current agreement and no disagreement
blocks it.

Where no file is named, a definition models the function of `conversation_disagreement_store.go`
of its name.
-/

namespace DomainryAgent

open Lib Tx

/-! ### Verification -/

def disagreementDeliveryDigest (d : Delegation) : Option Delivery := d.delivery

/-- `execution/disagreement.go::DisagreementBlocks`. -/
def disagreementBlocks (v : DisagreementSummary) (d : Delegation) (deliveryDigest : Option Delivery) :
    Bool :=
  decide (v.status ≠ .resolved) || decide (v.briefVersion ≠ d.brief.version) ||
    decide (v.agreementRevision ≠ d.agreementRevision) ||
    decide (v.deliveryDigest ≠ deliveryDigest)

/-- What the evaluation of a brief's completion conditions answers. -/
inductive Evaluation where
  | schemaInvalid
  | evidenceChanged
  | invalid
  | judged (ready : Bool)
  deriving DecidableEq

def Evaluation.ready : Evaluation → Except Error Bool
  | schemaInvalid => .error (badRequest "delivery_schema_invalid")
  | evidenceChanged => .error (conflict "completion_evidence_changed")
  | invalid => .error (badRequest "completion_assessment_invalid")
  | judged ready => .ok ready

/-- A review names the delivery it is about. -/
structure DeliveryReview where
  deliveryDigest : Delivery
  evaluation : Evaluation
  deriving DecidableEq

/-- A delivery that is not for the current agreement, or waits for a change. -/
def deliveryOutdated (d : Delegation) (delivery : Delivery) : Bool :=
  decide (delivery.briefVersion ≠ d.brief.version) ||
    decide (max 1 delivery.agreementRevision ≠ d.agreementRevision) || !d.pendingChanges.isEmpty

/-- `conversation_verification_store.go::verifyDelegationDelivery`. -/
def verifyDelegationDelivery (d : Delegation) (delivery : Delivery) (review : Option Delivery)
    (evaluation : Evaluation) : Except Error DeliveryVerification :=
  if review.any (· ≠ delivery) then .error (conflict "delivery_changed")
  else do
    let ready ← evaluation.ready
    .ok
      { deliveryDigest := delivery, briefVersion := d.brief.version
        agreementRevision := d.agreementRevision
        ready := ready && !deliveryOutdated d delivery &&
          !d.disagreements.any (disagreementBlocks · d (some delivery)) }

/-! ### The delivery history -/

/-- `conversation_verification_store.go::saveDeliveryRecord`: an entry
that exists must be the same. -/
def saveDeliveryRecord (d : Delegation) (kind : DeliveryRecordKind) (reason : String) :
    StoreTx Unit := do
  let delivery ← require d.delivery (conflict "completion_verification_missing")
  let verification ← require d.verification (conflict "completion_verification_missing")
  let entry : DeliveryRecord :=
    { delegationID := d.id, revision := d.revision, kind := kind, delivery := delivery
      verification := some verification, reason := reason }
  let saved ← read (fun s => s.deliveryRecords.get? entry.key)
  demand (saved.all (· = entry)) (conflict "delivery_record_conflict")
  write (fun s => { s with
    deliveryRecords := (s.deliveryRecords.insert? entry).getD s.deliveryRecords })

/-- `conversation_delivery_publication_store.go::deliveryPublicationRecord`:
the current delivery, or the one recorded under a revision. -/
def deliveryPublicationRecord (s : Db) (d : Delegation) (revision : Nat) :
    Except Error (Delivery × Option DeliveryVerification) :=
  if revision = 0 then
    match d.delivery with
    | none => .error (notFound "delivery_record_not_found")
    | some delivery => .ok (delivery, d.verification)
  else match s.deliveryRecords.get? (d.id, revision) with
    | none => .error (notFound "delivery_record_not_found")
    | some entry => .ok (entry.delivery, entry.verification)

/-- A publication names the delivery it makes readable. -/
structure DeliveryPublication where
  expectedRevision : Nat
  deliveryRevision : Nat
  recordDigest : Delivery × Option DeliveryVerification
  reason : String
  deriving DecidableEq

/-- `conversation_delivery_publication_store.go::republishDelivery`:
only the revision and the history move. -/
def republishDelivery (id : Id) (input : DeliveryPublication) (a : Authority) : StoreTx Unit := do
  let d ← conversationDelegation id a
  let found ← delegationSubjects d.id a
  let subjects ← require found (forbidden "delegation_actor_invalid")
  demand (conversationOwner a = conversationOwner subjects.execution)
    (forbidden "delegation_actor_invalid")
  demand (d.revision = input.expectedRevision) (conflict "revision_conflict")
  let original ← check (deliveryPublicationRecord · d input.deliveryRevision)
  demand (original = input.recordDigest) (conflict "delivery_record_changed")
  let out := { d with revision := d.revision + 1 }
  saveConversationDelegation out input.expectedRevision a
  insertRow (·.deliveryRecords) (fun t s => { s with deliveryRecords := t })
    "_agent_conversation_delivery_records"
    { delegationID := out.id, revision := out.revision, kind := .republishDelivery
      delivery := original.1, verification := original.2, reason := input.reason }

/-! ### Disagreements -/

inductive DisagreementOutcome where
  | inspect (ownerAgentID : Id)
  | revise (ownerAgentID : Id)
  | askUser
  | adopt (claimID : Id)
  deriving DecidableEq

def DisagreementOutcome.status : DisagreementOutcome → DisagreementStatus
  | inspect _ => .checking
  | revise _ => .needsRevision
  | askUser => .waitingUser
  | adopt _ => .resolved

def DisagreementOutcome.ownerAgentID : DisagreementOutcome → Option Id
  | inspect agent | revise agent => some agent
  | askUser | adopt _ => none

/-- A decision names the agreement and the delivery it was made for. -/
structure DisagreementDecision where
  outcome : DisagreementOutcome
  briefVersion : Nat
  agreementRevision : Nat
  deliveryDigest : Option Delivery
  deriving DecidableEq

/-- A change of a disagreement; a new one has an id of its own. -/
inductive DisagreementChange where
  | raise (id : Id) (condition : Option Nat) (claims : List DisagreementClaim)
  | addClaim (id : Id) (expectedRevision : Nat) (claim : DisagreementClaim)
  | decide (id : Id) (expectedRevision : Nat) (decision : DisagreementDecision)
  deriving DecidableEq

def DisagreementChange.claims : DisagreementChange → List DisagreementClaim
  | raise _ _ claims => claims
  | addClaim _ _ claim => [claim]
  | decide .. => []

def DisagreementChange.decides : DisagreementChange → Bool
  | decide .. => true
  | _ => false

/-- The agents an outcome may make responsible. -/
def validOutcome (d : Delegation) : DisagreementOutcome → Bool
  | .inspect agent | .revise agent => agent == d.fromAgentID || agent == d.toAgentID
  | .askUser | .adopt _ => true

/-- `execution/disagreement.go::ValidateDisagreementChange`, without the
limits of its texts. -/
def validateDisagreementChange (d : Delegation) (change : DisagreementChange) : Bool :=
  change.claims.all (·.receipts.length ≤ 4) &&
  match change with
  | .raise _ condition claims =>
    decide (2 ≤ claims.length) && decide (claims.length ≤ 4) &&
      condition.all (· < d.brief.conditions.length)
  | .addClaim _ expectedRevision _ => decide (1 ≤ expectedRevision)
  | .decide _ expectedRevision decision =>
    decide (1 ≤ expectedRevision) && decide (1 ≤ decision.briefVersion) &&
      decide (1 ≤ decision.agreementRevision) && validOutcome d decision.outcome

/-- Who may change a disagreement from a run: the source, and the executor as
long as it does not decide. -/
def disagreementActor (s : Db) (d : Delegation) (change : DisagreementChange)
    (source : Option RunReference) (a : Authority) : Except Error Unit :=
  match source with
  | none => .ok ()
  | some reference =>
    if reference.conversationID ≠ d.sourceConversationID ∧
        (reference.conversationID ≠ d.conversationID ∨ change.decides = true) then
      .error (forbidden "delegation_actor_invalid")
    else ((getConversation reference.conversationID a).peek s).map (fun _ => ())

/-- A cited receipt is that of a completed call, unchanged. -/
def receiptHolds (s : Db) (a : Authority) (ref : ResultReference) : Bool :=
  (s.runs.get? ref.runID).any (fun row => conversationOwner row.authority == conversationOwner a) &&
  (s.tools.get? (ref.runID, ref.step, ref.callID)).any (fun record =>
    record.state == .completed && record.result == some ref.result)

def readDisagreement (s : Db) (delegationID id : Id) (revision : Nat) (a : Authority) :
    Except Error Disagreement :=
  match s.disagreements.get? (conversationOwner a, delegationID, id, revision) with
  | some row => .ok row
  | none => .error (notFound "disagreement_unavailable")

/-- The disagreement a change goes on from, at the revision the caller read. -/
def currentDisagreement (s : Db) (d : Delegation) (id : Id) (expectedRevision : Nat)
    (a : Authority) : Except Error Disagreement :=
  match d.disagreements.find? (·.id = id) with
  | none => .error (notFound "disagreement_unavailable")
  | some summary =>
    if summary.revision ≠ expectedRevision then .error (conflict "disagreement_changed")
    else readDisagreement s d.id id expectedRevision a

/-- New claims open a disagreement again; the delegating agent has to look. -/
def claimedDisagreement (s : Db) (d : Delegation) (value : Disagreement)
    (claims : List DisagreementClaim) (a : Authority) : Except Error Disagreement :=
  if 8 < value.claims.length + claims.length then
    .error (rateLimited "disagreement_capacity")
  else if claims.all (·.receipts.all (receiptHolds s a)) = false then
    .error (conflict "completion_evidence_changed")
  else .ok { value with
    claims := value.claims ++ claims
    summary := { value.summary with
      revision := value.summary.revision + 1, status := .opened
      ownerAgentID := some d.fromAgentID } }

/-- A decision must be about the agreement and the delivery there are. -/
def decidedDisagreement (d : Delegation) (value : Disagreement) (decision : DisagreementDecision) :
    Except Error Disagreement :=
  if decision.briefVersion ≠ d.brief.version ∨ decision.agreementRevision ≠ d.agreementRevision ∨
      decision.deliveryDigest ≠ disagreementDeliveryDigest d then
    .error (conflict "disagreement_context_changed")
  else if (match decision.outcome with
      | .adopt claimID => value.claims.any (·.id = claimID)
      | _ => true) = false then .error (badRequest "disagreement_claim_invalid")
  else .ok { value with summary := { value.summary with
    revision := value.summary.revision + 1, status := decision.outcome.status
    briefVersion := d.brief.version, agreementRevision := d.agreementRevision
    deliveryDigest := decision.deliveryDigest, ownerAgentID := decision.outcome.ownerAgentID } }

/-- A disagreement before its first claims. -/
def raisedDisagreement (d : Delegation) (id : Id) (condition : Option Nat) (a : Authority) :
    Disagreement :=
  { owner := conversationOwner a, delegationID := d.id, claims := []
    summary :=
      { id := id, revision := 0, status := .opened, condition := condition
        briefVersion := d.brief.version, agreementRevision := d.agreementRevision
        deliveryDigest := disagreementDeliveryDigest d, ownerAgentID := none } }

/-- The next revision of the disagreement a change is about. -/
def changedDisagreement (s : Db) (d : Delegation) (change : DisagreementChange) (a : Authority) :
    Except Error Disagreement :=
  match change with
  | .raise id condition claims =>
    if 16 ≤ d.disagreements.length then .error (rateLimited "disagreement_capacity")
    else claimedDisagreement s d (raisedDisagreement d id condition a) claims a
  | .addClaim id expectedRevision claim => do
    let value ← currentDisagreement s d id expectedRevision a
    claimedDisagreement s d value [claim] a
  | .decide id expectedRevision decision => do
    let value ← currentDisagreement s d id expectedRevision a
    decidedDisagreement d value decision

/-- A raised disagreement is added; another takes the place of the first with
its id. -/
def storeSummary (summaries : List DisagreementSummary) (change : DisagreementChange)
    (summary : DisagreementSummary) : List DisagreementSummary :=
  match change with
  | .raise .. => summaries ++ [summary]
  | .addClaim id .. | .decide id .. =>
    summaries.replaceF (fun v => if v.id = id then some summary else none)

/-- `applyDisagreement`: the record
with the changed disagreement, and the revision to be stored.  An accepted
delivery is open again if the disagreement blocks it. -/
def applyDisagreement (s : Db) (d : Delegation) (change : DisagreementChange)
    (source : Option RunReference) (a : Authority) : Except Error (Delegation × Disagreement) :=
  if validateDisagreementChange d change = false then .error (badRequest "disagreement_invalid")
  else do
    disagreementActor s d change source a
    let value ← changedDisagreement s d change a
    let next := { d with disagreements := storeSummary d.disagreements change value.summary }
    .ok ({ next with
      status := if d.status = .acceptedDelivery ∧
          disagreementBlocks value.summary d (disagreementDeliveryDigest d) then .delivered
        else d.status }, value)

/-- `saveDisagreement`: a revision
that exists must be the same. -/
def saveDisagreement (value : Disagreement) : StoreTx Unit := do
  let saved ← read (fun s => s.disagreements.get? value.key)
  demand (saved.all (· = value)) (conflict "disagreement_history_conflict")
  write (fun s => { s with
    disagreements := (s.disagreements.insert? value).getD s.disagreements })

/-- Who has to look at a disagreement: their agent, conversation and the
configuration they act under. -/
def disagreementRecipient (d : Delegation) (summary : DisagreementSummary) (a : Authority) :
    StoreTx (Id × Id × Option AgentRef) :=
  if summary.ownerAgentID = some d.toAgentID then do
    let task ← taskRow d.taskID a
    pure (d.toAgentID, d.conversationID, task.agent)
  else pure (d.fromAgentID, d.sourceConversationID, some d.sourceAgent)

/-- The agent that changed a disagreement from a run. -/
def disagreementSender (s : Db) (source : Option RunReference) : Option Id :=
  source.map (fun reference =>
    ((s.conversations.get? reference.conversationID).bind (·.agentID)).getD defaultAgentID)

/-- `disagreementNotice`: earlier
notices about this disagreement are superseded.  A user that is asked, and a
disagreement that is resolved, need no run. -/
def disagreementNotice (d : Delegation) (source : Option RunReference) (a : Authority)
    (value : Disagreement) : StoreTx Unit := do
  let old ← read (fun s => s.peerMessages.rows.filter (fun m =>
    conversationOwner m.authority = conversationOwner a ∧ m.delegationID = d.id ∧
      m.consumed = none ∧ m.disagreement.any (·.1 = value.summary.id)))
  forEach (old.map (·.id)) supersedeMessage
  let (agentID, conversationID, agent) ← disagreementRecipient d value.summary a
  let sender ← read (disagreementSender · source)
  onlyIf (value.summary.status ≠ .waitingUser ∧ value.summary.status ≠ .resolved)
    (insertConversationPeerNotice
      { id := .disagreement d.id value.summary.id value.summary.revision, delegationID := d.id
        conversationID := conversationID, fromAgentID := sender, toAgentID := agentID
        agent := agent, kind := .disagreementChanged
        content := "Disagreement " ++ toString value.summary.id ++ " changed. Read " ++
          "delegation_get and delegation_disagreement for current evidence and the assigned " ++
          "next action before continuing. This notice grants no new business authority."
        source := source, briefVersion := d.brief.version
        agreementRevision := d.agreementRevision
        disagreement := some (value.summary.id, value.summary.revision) } a none)

/-- The disagreement of a summary under the agent that takes over. -/
def handedDisagreement (s : Db) (d : Delegation) (toAgentID : Id) (a : Authority)
    (summary : DisagreementSummary) : Except Error (Option Disagreement) :=
  if summary.ownerAgentID ≠ some d.toAgentID ∨ summary.status = .resolved then .ok none
  else do
    let value ← readDisagreement s d.id summary.id summary.revision (delegationRecordAuthority d a)
    .ok (some { value with summary := { value.summary with
      revision := value.summary.revision + 1, ownerAgentID := some toAgentID } })

/-- `transferDisagreementResponsibilities`:
what the executor was to look at, its successor is. -/
def transferDisagreementResponsibilities (d : Delegation) (toAgentID : Id) (a : Authority) :
    StoreTx (List DisagreementSummary) := do
  let handed ← check (fun s => d.disagreements.mapM (handedDisagreement s d toAgentID a))
  forEach handed.reduceOption saveDisagreement
  pure (List.zipWith (fun summary value => (value.map (·.summary)).getD summary)
    d.disagreements handed)

end DomainryAgent
