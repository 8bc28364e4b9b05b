import DomainryAgent.AgentTask.Proposals

/-!
Proposals under concurrent decisions.

`Decide` is not one transaction: it reads the proposal, stores the decision,
carries out the effect, stores what came of it and resolves the task, and
`DecideProposal` inside it reads once more before its compare-and-swap.  Here
each statement is an action, and a decision that is under way is a job between
two of them; a crash drops the job.  Beside them proposals are created and
stored, and the state service decides on its own.
-/

namespace DomainryAgent.AgentTask

open Lib Tx

/-! ### Creating a proposal -/

/-- The tool a proposal names, under the first of its aliases. -/
structure ToolBinding where
  toolName : String
  objectKey : String
  recordID : String

/-- What a proposal asks for before it is normalised. -/
structure RawProposed where
  actionBinding : Option ActionBinding
  toolBinding : Option ToolBinding
  workflowBinding : Option String

/-- `modulehost.GuardedWriteContract`. -/
structure GuardedWriteContract where
  objectKey : String
  operation : String
  actionKey : String
  requiresRecord : Bool

/-- The operation of a record tool. -/
def toolOperation (toolName : String) : String :=
  if toolName = "createRecord" then "create"
  else if toolName = "updateRecord" then "update"
  else if toolName = "deleteRecord" then "delete"
  else ""

/-- `proposal_service.go::NormalizeGuardedWrite`. -/
def normalizeGuardedWrite (contracts : List GuardedWriteContract) (raw : RawProposed) : Proposed :=
  let unchanged : Proposed := ⟨raw.actionBinding, raw.workflowBinding⟩
  match raw.actionBinding, raw.toolBinding with
  | some _, _ | none, none => unchanged
  | none, some tool =>
    if toolOperation tool.toolName = "" ∨ tool.objectKey = "" then unchanged
    else match contracts.find? (fun contract => contract.objectKey = tool.objectKey ∧
        contract.operation = toolOperation tool.toolName ∧ contract.actionKey ≠ "") with
      | none => unchanged
      | some guarded =>
        if guarded.requiresRecord = true ∧ tool.recordID = "" then unchanged
        else { unchanged with
          actionBinding := some ⟨guarded.objectKey, tool.recordID, guarded.actionKey⟩ }

/-- `proposal_service.go::CreateProposalRequest`. -/
structure CreateProposalRequest where
  proposalID : Id
  title : String
  source : String
  reference : String
  proposed : RawProposed
  metadata : Metadata
  principal : Principal

/-- The metadata of a new proposal: what the request gives, and what is set. -/
def createdMetadata (request : CreateProposalRequest) : Metadata := fun key =>
  if key = "proposal_id" then .text (toString request.proposalID)
  else if key = "title" then .text (trimSpace request.title)
  else if key = "source" then .text (trimSpace request.source)
  else if key = "reference" then .text (trimSpace request.reference)
  else if key = "requesting_user" then .text (toString request.principal.userID)
  else if key = "service_role" then .text "agent_service_user"
  else if key = "automation_user" then .text "agent_automation"
  else request.metadata key

/-- `dialog_state_service.go::StoreProposal`, with
`agent_state_store.go::PutBatch`: whatever is stored under the key is replaced. -/
def storeProposal (record : Proposal) (now : Time) : DeskTx Proposal := do
  write fun desk => { desk with
    proposals := desk.proposals.upsert { record with updatedAt := now } }
  pure { record with updatedAt := now }

/-- The record `Create` stores. -/
def createdProposal (contracts : List GuardedWriteContract) (request : CreateProposalRequest) :
    Proposal where
  proposalID := request.proposalID
  workspaceID := request.principal.workspaceID
  userID := request.principal.userID
  role := request.principal.roleKey
  status := .draft
  proposed := normalizeGuardedWrite contracts request.proposed
  metadata := createdMetadata request
  execution := none
  decisionActor := none
  decisionReason := ""
  decidedAt := 0
  updatedAt := 0

/-- `proposal_service.go::Create`. -/
def createProposal (contracts : List GuardedWriteContract) (request : CreateProposalRequest)
    (now : Time) : DeskTx Proposal := storeProposal (createdProposal contracts request) now

/-- A draft a host tool returned. -/
structure HostDraft where
  proposalID : Option Id
  title : String
  source : String
  reference : String
  proposed : Option RawProposed
  metadata : Metadata

/-- The request a host draft makes.  `derived` is the id made of the hash of the
workspace, the reference, the idempotency key and what is proposed. -/
def hostDraftRequest (draft : HostDraft) (proposed : RawProposed) (derived : Id)
    (principal : Principal) : CreateProposalRequest where
  proposalID := draft.proposalID.getD derived
  title := draft.title
  source := draft.source
  reference := draft.reference
  proposed := proposed
  metadata := draft.metadata
  principal := principal

/-- `proposal_service.go::CreateHostDraft`. -/
def createHostDraft (contracts : List GuardedWriteContract) (draft : HostDraft) (derived : Id)
    (principal : Principal) (now : Time) : DeskTx Proposal :=
  match draft.proposed with
  | none => Tx.fail (badRequest "agent.tool.proposal_invalid")
  | some proposed => createProposal contracts (hostDraftRequest draft proposed derived principal) now

/-! ### The statements of a decision -/

/-- `DecideProposal` up to its compare-and-swap. -/
def lookProposal (decision : ProposalDecision) (principal : Principal) : DeskTx Proposal := do
  let value ← getProposal decision.proposalID principal
  demand (decision.expectedUpdatedAt = 0 ∨ decision.expectedUpdatedAt = value.updatedAt)
    (conflict "agent_dialog.proposal_decision_conflict")
  pure value

/-- `agent_state_store.go::CompareAndSwap`, of a decision. -/
def swapProposal (value : Proposal) (decision : ProposalDecision) (principal : Principal)
    (now : Time) : DeskTx Proposal := do
  let row ← read fun desk : Desk => desk.proposals.get? value.key
  demand (row.any (·.updatedAt = value.updatedAt) = true)
    (conflict "agent_dialog.proposal_decision_conflict")
  write fun desk => { desk with
    proposals := desk.proposals.put (decidedProposal value decision principal now) }
  pure (decidedProposal value decision principal now)

/-- A request to `Decide`. -/
structure Ask where
  proposalID : Id
  decision : Decision
  reason : String
  metadata : Metadata
  principal : Principal

/-- What `decideCAS` asks the state service to store. -/
def Ask.storing (ask : Ask) (proposal : Proposal) (execution : Option Execution) :
    ProposalDecision where
  proposalID := proposal.proposalID
  decision := ask.decision
  reason := ask.reason
  metadata := some ask.metadata
  execution := execution
  expectedUpdatedAt := proposal.updatedAt

/-- What follows once a decision is stored. -/
inductive After where
  /-- The effect is carried out. -/
  | execute (ask : Ask) (executor : Principal)
  /-- The task is resolved. -/
  | resolve
  /-- The state service was asked, and answers. -/
  | done

/-- A decision under way, before its next statement. -/
inductive Job where
  | asked (ask : Ask)
  | look (decision : ProposalDecision) (principal : Principal) (after : After)
  | swap (value : Proposal) (decision : ProposalDecision) (principal : Principal) (after : After)
  | execute (ask : Ask) (proposal : Proposal) (executor : Principal)
  | resolve (proposal : Proposal) (principal : Principal)

/-- The host is really asked to carry something out. -/
def Proposed.executable (proposed : Proposed) : Bool :=
  match proposed.actionBinding with
  | some binding => decide (binding.objectKey ≠ "" ∧ binding.actionKey ≠ "")
  | none => proposed.workflowBinding.any (· ≠ "")

/-- An effect the host was asked to carry out, and what came of it. -/
structure Carried where
  key : ProposalKey
  proposed : Proposed
  execution : Execution

/-- What a statement leaves: the job that goes on, the tables, and the effect it
carried out. -/
structure Progress where
  job : Option Job
  desk : Desk
  carried : List Carried

/-- Go on, if the statement succeeded. -/
def Progress.of (desk : Desk) (next : Proposal → Option Job) : Except Error (Proposal × Desk) → Progress
  | .ok (proposal, desk') => ⟨next proposal, desk', []⟩
  | .error _ => ⟨none, desk, []⟩

/-- `Decide` with the proposal it has read. -/
def Ask.next (ask : Ask) (host : ProposalHost) (proposal : Proposal) : Option Job :=
  match ask.decision with
  | .other _ => none
  | .approved =>
    if proposal.status = .draft then
      match resolveApprovalPrincipal host proposal with
      | .error _ => none
      | .ok executor =>
        some (.look (ask.storing proposal none) ask.principal (.execute ask executor))
    else if proposal.status = .decided .approved then some (.resolve proposal ask.principal)
    else none
  | decision =>
    if proposal.status = .draft then
      some (.look (ask.storing proposal none) ask.principal .resolve)
    else if proposal.status = .decided decision then some (.resolve proposal ask.principal)
    else none

def After.next (principal : Principal) (proposal : Proposal) : After → Option Job
  | .execute ask executor => some (.execute ask proposal executor)
  | .resolve => some (.resolve proposal principal)
  | .done => none

/-- The next statement of a job. -/
def Job.advance (host : ProposalHost) (now : Time) (desk : Desk) : Job → Progress
  | .asked ask => .of desk (ask.next host) (getProposal ask.proposalID ask.principal desk)
  | .look decision principal after =>
    .of desk (fun value => some (.swap value decision principal after))
      (lookProposal decision principal desk)
  | .swap value decision principal after =>
    .of desk (fun stored => after.next principal stored) (swapProposal value decision principal now desk)
  | .execute ask proposal executor =>
    { job := some (.look (ask.storing proposal
        (some (AgentTask.execute host proposal executor))) ask.principal .resolve)
      desk := desk
      carried := if proposal.proposed.executable then
        [⟨proposal.key, proposal.proposed, AgentTask.execute host proposal executor⟩] else [] }
  | .resolve proposal principal =>
    ⟨none, (resolveProposal proposal principal now).commit desk, []⟩

/-! ### The system -/

/-- The tables, the decisions under way and the effects carried out. -/
structure Office where
  desk : Desk
  jobs : Id → Option Job
  carried : List Carried

inductive OfficeAction where
  | create (contracts : List GuardedWriteContract) (request : CreateProposalRequest) (now : Time)
  | hostDraft (contracts : List GuardedWriteContract) (draft : HostDraft) (derived : Id)
      (principal : Principal) (now : Time)
  | store (record : Proposal) (now : Time)
  /-- A request to `Decide` begins. -/
  | ask (job : Id) (ask : Ask)
  /-- A request to `DecideProposal` of the state service begins. -/
  | decide (job : Id) (decision : ProposalDecision) (principal : Principal)
  | advance (job : Id) (host : ProposalHost) (now : Time)
  | crash (job : Id)
  /-- The task system goes on beside the proposals. -/
  | tasks (rows : Rows)

def Office.onDesk {α : Type} (w : Office) (tx : DeskTx α) : Office :=
  { w with desk := tx.commit w.desk }

/-- The office after a statement of a job. -/
def Office.goOn (w : Office) (job : Id) (progress : Progress) : Office where
  desk := progress.desk
  jobs := Function.update w.jobs job progress.job
  carried := progress.carried ++ w.carried

def Office.step (w : Office) : OfficeAction → Office
  | .create contracts request now => w.onDesk (createProposal contracts request now)
  | .hostDraft contracts draft derived principal now =>
    w.onDesk (createHostDraft contracts draft derived principal now)
  | .store record now => w.onDesk (storeProposal record now)
  | .ask job ask => { w with jobs := Function.update w.jobs job (some (.asked ask)) }
  | .decide job decision principal =>
    { w with jobs := Function.update w.jobs job (some (.look decision principal .done)) }
  | .advance job host now =>
    match w.jobs job with
    | none => w
    | some under => w.goOn job (under.advance host now w.desk)
  | .crash job => { w with jobs := Function.update w.jobs job none }
  | .tasks rows => { w with desk := { w.desk with rows := rows } }

/-- Nothing is proposed yet. -/
def Office.initial (rows : Rows) : Office := ⟨⟨.empty, rows⟩, fun _ => none, []⟩

/-! ### What a statement does -/

section Statements

variable {host : ProposalHost} {now : Time} {desk desk' : Desk} {p : Proposal}

/-- Where a principal finds a proposal. -/
abbrev proposalKey (principal : Principal) (proposalID : Id) : ProposalKey :=
  (principal.workspaceID, principal.userID, principal.roleKey, proposalID)

/-- The state service's decision is its look and its swap. -/
theorem dialogDecideProposal_eq (decision : ProposalDecision) (principal : Principal) (now : Time) :
    dialogDecideProposal decision principal now =
      (do
        let value ← lookProposal decision principal
        swapProposal value decision principal now : DeskTx Proposal) := by
  funext desk
  simp only [dialogDecideProposal, lookProposal, swapProposal, getProposal, Bind.bind, Pure.pure,
    Tx.read, require]
  cases found : desk.proposals.get? (proposalKey principal decision.proposalID) with
  | none => rfl
  | some value =>
    have here : desk.proposals.get? value.key = some value := Table.get?_key found
    dsimp only
    by_cases same : decision.expectedUpdatedAt = 0 ∨ decision.expectedUpdatedAt = value.updatedAt
    · simp [demand, same, here]
    · simp [demand, same]

/-- What the next statement of a job can come to. -/
inductive Proceeds (host : ProposalHost) (now : Time) (desk : Desk) : Job → Progress → Prop
  | stops {job : Job} : Proceeds host now desk job ⟨none, desk, []⟩
  | read {ask : Ask} {p : Proposal} {next : Job}
      (found : desk.proposals.get? (proposalKey ask.principal ask.proposalID) = some p)
      (goes : ask.next host p = some next) : Proceeds host now desk (.asked ask) ⟨some next, desk, []⟩
  | looked {decision : ProposalDecision} {principal : Principal} {after : After} {value : Proposal}
      (found : desk.proposals.get? (proposalKey principal decision.proposalID) = some value)
      (same : decision.expectedUpdatedAt = 0 ∨ decision.expectedUpdatedAt = value.updatedAt) :
      Proceeds host now desk (.look decision principal after)
        ⟨some (.swap value decision principal after), desk, []⟩
  | swapped {value row : Proposal} {decision : ProposalDecision} {principal : Principal}
      {after : After} (found : desk.proposals.get? value.key = some row)
      (same : row.updatedAt = value.updatedAt) :
      Proceeds host now desk (.swap value decision principal after)
        ⟨after.next principal (decidedProposal value decision principal now),
          { desk with proposals := desk.proposals.put (decidedProposal value decision principal now) },
          []⟩
  | executed {ask : Ask} {p : Proposal} {executor : Principal} {carried : List Carried}
      (carries : carried = if p.proposed.executable then
        [⟨p.key, p.proposed, execute host p executor⟩] else []) :
      Proceeds host now desk (.execute ask p executor)
        ⟨some (.look (ask.storing p (some (execute host p executor))) ask.principal .resolve), desk,
          carried⟩
  | resolved {p : Proposal} {principal : Principal} :
      Proceeds host now desk (.resolve p principal)
        ⟨none, (resolveProposal p principal now).commit desk, []⟩

/-- A statement and what follows from it. -/
theorem Proceeds.of {job : Job} {tx : DeskTx Proposal} {next : Proposal → Option Job}
    (ok : tx.Ensures desk fun p desk' => Proceeds host now desk job ⟨next p, desk', []⟩) :
    Proceeds host now desk job (.of desk next (tx desk)) := by
  cases run : tx desk with
  | ok out => exact ok out.1 out.2 run
  | error e => exact .stops

theorem Job.proceeds (host : ProposalHost) (now : Time) (desk : Desk) (job : Job) :
    Proceeds host now desk job (job.advance host now desk) := by
  cases job with
  | asked ask =>
    apply Proceeds.of
    simp only [getProposal, wp]
    intro p found
    cases goes : ask.next host p with
    | none => exact .stops
    | some next => exact .read found goes
  | look decision principal after =>
    apply Proceeds.of
    simp only [lookProposal, getProposal, wp]
    exact fun p found same => .looked found same
  | swap value decision principal after =>
    apply Proceeds.of
    simp only [swapProposal, wp]
    intro same
    obtain ⟨row, found, stamp⟩ := (Option.any_eq_true _ _).mp same
    exact .swapped found (of_decide_eq_true stamp)
  | execute ask p executor => exact .executed rfl
  | resolve p principal => exact .resolved

/-- Where `Decide` goes on from the proposal it has read. -/
theorem Ask.next_cases {ask : Ask} {next : Job} (goes : ask.next host p = some next) :
    (∃ executor, p.status = .draft ∧ ask.decision = .approved ∧
      next = .look (ask.storing p none) ask.principal (.execute ask executor)) ∨
    (p.status = .draft ∧ ask.decision ≠ .approved ∧
      next = .look (ask.storing p none) ask.principal .resolve) ∨
    p.status = .decided ask.decision ∧ next = .resolve p ask.principal := by
  unfold Ask.next at goes
  split at goes
  · cases goes
  · next approved =>
    split at goes
    · next draft =>
      split at goes
      · cases goes
      · next executor _ =>
        cases goes
        exact .inl ⟨executor, draft, approved, rfl⟩
    · split at goes
      · next decided =>
        cases goes
        exact .inr (.inr ⟨approved ▸ decided, rfl⟩)
      · cases goes
  · next differs =>
    split at goes
    · next draft =>
      cases goes
      exact .inr (.inl ⟨draft, differs, rfl⟩)
    · split at goes
      · next decided =>
        cases goes
        exact .inr (.inr ⟨decided, rfl⟩)
      · cases goes

/-- A resolution leaves the proposals alone. -/
theorem resolveProposal_proposals (p : Proposal) (principal : Principal) (now : Time) (desk : Desk) :
    ((resolveProposal p principal now).commit desk).proposals = desk.proposals := by
  have keeps : (resolveProposal p principal now).Ensures desk fun _ desk' =>
      desk'.proposals = desk.proposals := by
    unfold resolveProposal
    split
    · rw [ensures_pure]
    · simp only [wp]
      split
      · rw [ensures_pure]
      · split
        · exact ensures_fail
        · rw [ensures_pure]
        · simp only [wp, onRows_ensures]
          exact ensures_true
  exact keeps.commit rfl

end Statements

end DomainryAgent.AgentTask
