import DomainryAgent.AgentTask.Callbacks
import DomainryAgent.Lib.Service
import DomainryAgent.Store.Plans

/-!
Decisions on proposals, from the request to the task that waits for them.

A proposal points at its task by the `task_run_id` of its metadata.  A decision
made over HTTP always carries metadata of its own, which takes the place of the
proposal's: the task is reached only when the request names it once more.
-/

namespace DomainryAgent.AgentTask

open Lib Tx

/-! ### Proposals -/

/-- A value of a proposal's metadata; of one that is not a text only what it
prints as is kept. -/
inductive MetaValue where
  | null
  | text (value : String)
  | other (printed : String)
  deriving DecidableEq

/-- Metadata under its keys; a key that is missing reads as `null`. -/
abbrev Metadata := String → MetaValue

/-- No keys. -/
def Metadata.empty : Metadata := fun _ => .null

/-- `fmt.Sprint`. -/
def MetaValue.sprint : MetaValue → String
  | null => "<nil>"
  | text value => value
  | other printed => printed

/-- `proposal_handlers.go::stringValue`. -/
def stringValue : MetaValue → String
  | .text value => trimSpace value
  | _ => ""

/-- The run the metadata of a proposal points at, by its written id. -/
def taskRunID (metadata : Metadata) : Option String :=
  let runID := trimSpace (metadata "task_run_id").sprint
  if runID = "" ∨ runID = "<nil>" then none else some runID

/-- `modulehost.Principal`. -/
structure Principal where
  known : Bool
  workspaceID : Id
  userID : Id
  roleKey : Id
  deriving DecidableEq

structure ActionBinding where
  objectKey : String
  recordID : String
  actionKey : String

/-- What a proposal is to carry out. -/
structure Proposed where
  actionBinding : Option ActionBinding
  /-- The key of a workflow. -/
  workflowBinding : Option String

inductive ProposalStatus where
  | draft
  | decided (decision : Decision)
  deriving DecidableEq

/-- `agentsdk.AgentProposal`. -/
structure Proposal where
  proposalID : Id
  workspaceID : Id
  userID : Id
  role : Id
  status : ProposalStatus
  proposed : Proposed
  metadata : Metadata
  execution : Option Execution
  decisionActor : Option Id
  decisionReason : String
  decidedAt : Time
  updatedAt : Time

/-- Proposals are kept for the workspace, user and role they were raised for. -/
abbrev ProposalKey := Id × Id × Id × Id

abbrev Proposal.key (proposal : Proposal) : ProposalKey :=
  (proposal.workspaceID, proposal.userID, proposal.role, proposal.proposalID)

/-- The proposals and the task runs. -/
structure Desk where
  proposals : Table Proposal.key
  rows : Rows

abbrev DeskTx := Tx Desk Error

abbrev DeskService := Service Desk Error

/-- A statement of the task store. -/
def onRows {α : Type} (tx : TaskTx α) : DeskTx α := fun desk => match tx desk.rows with
  | .ok (a, rows) => .ok (a, { desk with rows := rows })
  | .error e => .error e

/-- What the host does for proposals. -/
structure ProposalHost where
  resolveProposalPrincipal : Id → Id → Except Error Principal
  /-- Its result, or the code of its error. -/
  invokeProposalAction : ActionBinding → Principal → Except String String
  runProposalWorkflow : String → Principal → Except String String

/-! ### A decision -/

/-- `dialog_state_service.go::GetProposal`. -/
def getProposal (proposalID : Id) (principal : Principal) : DeskTx Proposal := do
  let found ← read fun desk : Desk => desk.proposals.get?
    (principal.workspaceID, principal.userID, principal.roleKey, proposalID)
  require found (notFound "agent_dialog.proposal_not_found")

/-- `agentsdk.AgentProposalDecision`. -/
structure ProposalDecision where
  proposalID : Id
  decision : Decision
  reason : String
  metadata : Option Metadata
  execution : Option Execution
  expectedUpdatedAt : Time

/-- The proposal with a decision. -/
def decidedProposal (value : Proposal) (decision : ProposalDecision) (principal : Principal)
    (now : Time) : Proposal :=
  { value with
    status := .decided decision.decision, decisionActor := some principal.userID
    decisionReason := trimSpace decision.reason, decidedAt := now, updatedAt := now
    metadata := decision.metadata.getD value.metadata
    execution := decision.execution.or value.execution }

/-- `dialog_state_service.go::DecideProposal`. -/
def dialogDecideProposal (decision : ProposalDecision) (principal : Principal) (now : Time) :
    DeskTx Proposal := do
  let value ← getProposal decision.proposalID principal
  demand (decision.expectedUpdatedAt = 0 ∨ decision.expectedUpdatedAt = value.updatedAt)
    (conflict "agent_dialog.proposal_decision_conflict")
  write fun desk => { desk with
    proposals := desk.proposals.put (decidedProposal value decision principal now) }
  pure (decidedProposal value decision principal now)

/-- The run of a workspace under its written id. -/
def runNamed (rows : Rows) (workspaceID : Id) (runID : String) : Option TaskRun :=
  (rows.rows.find? fun row => row.run.workspaceID = workspaceID ∧ toString row.run.id = runID).map
    (·.run)

/-- The decision a proposal stands at. -/
def ProposalStatus.decision : ProposalStatus → Decision
  | draft => .other "draft"
  | decided decision => decision

/-- The resolution a proposal makes for its task. -/
def proposalResolution (proposal : Proposal) (principal : Principal) : Resolution where
  proposalID := proposal.proposalID
  decision := proposal.status.decision
  actor := some principal.userID
  reason := proposal.decisionReason
  execution := proposal.execution

/-- `task_execution_service.go::ResolveProposal`, with
`task_state_service.go::ResolveApproval`.  A run that is not found is no error. -/
def resolveProposal (proposal : Proposal) (principal : Principal) (now : Time) :
    DeskTx (List Call) := do
  match taskRunID proposal.metadata with
  | none => pure []
  | some runID =>
    match ← read (fun desk : Desk => runNamed desk.rows proposal.workspaceID runID) with
    | none => pure []
    | some copy =>
      match resolveApproval copy (proposalResolution proposal principal) now with
      | .error e => Tx.fail e
      | .ok .replayed => pure (notifies copy)
      | .ok (.save run) => do
        onRows (saveWaitingApproval run copy.revision)
        pure (notifies run)

/-- `proposal_service.go::resolveApprovalPrincipal`. -/
def resolveApprovalPrincipal (host : ProposalHost) (proposal : Proposal) :
    Except Error Principal := do
  let principal ← host.resolveProposalPrincipal proposal.userID proposal.role
  if principal.known = false ∨ principal.workspaceID ≠ proposal.workspaceID ∨
      principal.userID ≠ proposal.userID ∨ principal.roleKey ≠ proposal.role then
    .error (forbidden "agent.authorization.approval_principal_revoked")
  else .ok principal

/-- What the host answered. -/
def executionOf : Except String String → Execution
  | .error code => ⟨.failed, code⟩
  | .ok result => ⟨.applied, result⟩

/-- `proposal_service.go::execute`. -/
def execute (host : ProposalHost) (proposal : Proposal) (principal : Principal) : Execution :=
  match proposal.proposed.actionBinding with
  | some binding =>
    if binding.objectKey = "" ∨ binding.actionKey = "" then ⟨.skipped, "binding_incomplete"⟩
    else executionOf (host.invokeProposalAction binding principal)
  | none =>
    match proposal.proposed.workflowBinding with
    | some key =>
      if key = "" then ⟨.skipped, "binding_incomplete"⟩
      else executionOf (host.runProposalWorkflow key principal)
    | none => ⟨.skipped, "no_binding"⟩

/-- The times of the two writes of a decision and of the resolution. -/
structure DecisionClock where
  decidedAt : Time
  executedAt : Time
  resolvedAt : Time

/-- `proposal_service.go::decideCAS`. -/
def decideCAS (proposal : Proposal) (decision : Decision) (reason : String) (metadata : Metadata)
    (execution : Option Execution) (principal : Principal) (now : Time) : DeskTx Proposal :=
  dialogDecideProposal
    { proposalID := proposal.proposalID, decision := decision, reason := reason
      metadata := some metadata, execution := execution, expectedUpdatedAt := proposal.updatedAt }
    principal now

/-- The answer to a decision: the proposal, and the notifications its task
starts. -/
def answer (proposal : Proposal) (principal : Principal) (now : Time) :
    DeskService (Proposal × List Call) := do
  let calls ← .commit (resolveProposal proposal principal now)
  pure (proposal, calls)

/-- `proposal_service.go::Decide`. -/
def decideOn (host : ProposalHost) (proposalID : Id) (decision : Decision) (reason : String)
    (metadata : Metadata) (principal : Principal) (clock : DecisionClock) :
    DeskService (Proposal × List Call) := do
  let proposal ← .commit (getProposal proposalID principal)
  if proposal.status ≠ .draft then
    if proposal.status ≠ .decided decision then
      .fail (conflict "agent_dialog.proposal_already_decided")
    else answer proposal principal clock.resolvedAt
  else if decision = .approved then
    match resolveApprovalPrincipal host proposal with
    | .error e => .fail e
    | .ok executor => do
      let decided ← .commit
        (decideCAS proposal decision reason metadata none principal clock.decidedAt)
      let executed ← .commit (decideCAS decided decision reason metadata
        (some (execute host decided executor)) principal clock.executedAt)
      answer executed principal clock.resolvedAt
  else do
    let decided ← .commit
      (decideCAS proposal decision reason metadata none principal clock.decidedAt)
    answer decided principal clock.resolvedAt

/-! ### The request -/

/-- A request to decide on a proposal. -/
structure DecisionRequest where
  proposalID : Option Id
  reason : String
  metadata : Option Metadata
  principal : Option Principal

/-- `proposal_handlers.go::proposalWritePolicy`, for decisions. -/
def proposalWritePolicy (metadata : Metadata) : Option String :=
  let asked := stringValue (metadata "run_mode")
  let runMode :=
    if asked = "" then
      if stringValue (metadata "agent_mode") = "domain-flow" then "suggested_write" else "read_only"
    else asked
  if runMode = "read_only" then some "agent_dialog.policy_read_only"
  else if runMode ≠ "suggested_write" then some "agent_dialog.policy_run_mode_denied"
  else if stringValue (metadata "risk_level") = "critical" then
    some "agent_dialog.policy_risk_denied"
  else none

def decisionText (decision : Decision) : String :=
  if decision = .approved then "approved" else "rejected"

/-- The metadata a decision is made with: what the request gives, and what the
handler sets. -/
def decisionMetadata (request : DecisionRequest) (proposalID : Id) (decision : Decision)
    (principal : Principal) : Metadata := fun key =>
  if key = "proposal_id" then .text (toString proposalID)
  else if key = "decision" then .text (decisionText decision)
  else if key = "reason" then .text (trimSpace request.reason)
  else if key = "requesting_user" then .text (toString principal.userID)
  else if key = "service_role" then .text "agent_service_user"
  else if key = "automation_user" then .text "agent_automation"
  else request.metadata.getD .empty key

/-- `proposal_handlers.go::decideProposal`.  It is reached with
`approved` and `rejected`. -/
def decideProposal (host : ProposalHost) (request : DecisionRequest) (decision : Decision)
    (clock : DecisionClock) : DeskService (Proposal × List Call) :=
  match request.proposalID, request.principal with
  | none, _ => .fail (badRequest "agent_dialog.proposal_id_required")
  | some _, none => .fail (forbidden "backend.workspace_scope_required")
  | some proposalID, some principal =>
    match proposalWritePolicy (request.metadata.getD .empty) with
    | some code => .fail (forbidden code)
    | none => decideOn host proposalID decision request.reason
        (decisionMetadata request proposalID decision principal) principal clock

/-! ### What a decision leaves -/

section Reaches

variable {desk desk' : Desk} {proposal : Proposal} {principal : Principal} {row : Row}

theorem onRows_ensures {α : Type} {tx : TaskTx α} {Q : α → Desk → Prop} :
    (onRows tx).Ensures desk Q ↔
      tx.Ensures desk.rows fun a rows => Q a { desk with rows := rows } := by
  constructor
  · intro h a rows ok
    exact h a _ (by simp [onRows, ok])
  · intro h a desk' ok
    unfold onRows at ok
    cases ran : tx desk.rows with
    | ok r => rw [ran] at ok; cases ok; exact h _ _ ran
    | error e => rw [ran] at ok; cases ok

/-- Written ids tell runs apart. -/
theorem written_injective {a b : Id} (same : toString a = toString b) : a = b := by
  have digits : Nat.toDigits 10 a = Nat.toDigits 10 b := by
    have written : a.repr = b.repr := same
    rw [Nat.repr_eq_ofList_toDigits, Nat.repr_eq_ofList_toDigits] at written
    exact String.ofList_injective written
  calc a = Nat.ofDigitChars 10 (Nat.toDigits 10 a) 0 :=
        (Nat.ofDigitChars_toDigits (by decide) (by decide)).symm
    _ = Nat.ofDigitChars 10 (Nat.toDigits 10 b) 0 := by rw [digits]
    _ = b := Nat.ofDigitChars_toDigits (by decide) (by decide)

theorem runNamed_of_get? {rows : Rows} (stored : rows.get? row.key = some row) :
    runNamed rows row.run.workspaceID (toString row.run.id) = some row.run := by
  have named : rows.rows.find? (fun other => other.run.workspaceID = row.run.workspaceID ∧
      toString other.run.id = toString row.run.id) = rows.get? row.key := by
    unfold Table.get?
    congr 1
    funext other
    apply decide_eq_decide.mpr
    constructor
    · rintro ⟨workspace, id⟩
      exact Prod.ext workspace (written_injective id)
    · intro same
      exact ⟨congrArg Prod.fst same, congrArg toString (congrArg Prod.snd same)⟩
  rw [runNamed, named, stored]
  rfl

/-- What a decision writes on its proposal. -/
theorem decideCAS_ensures (decision : Decision) (reason : String) (metadata : Metadata)
    (execution : Option Execution) (now : Time) :
    (decideCAS proposal decision reason metadata execution principal now).Ensures desk
      fun decided desk' => desk'.rows = desk.rows ∧ decided.workspaceID = principal.workspaceID ∧
        decided.status = .decided decision ∧ decided.metadata = metadata := by
  unfold decideCAS dialogDecideProposal getProposal
  simp only [wp]
  intro value found _
  exact ⟨trivial, congrArg Prod.fst (Table.key_of_get? found), rfl, rfl⟩

/-- A task has the status of a decision: failed, where what was approved could
not be carried out. -/
def TaskDecided (key : Key) (decision : Decision) (out : Proposal × List Call) (desk : Desk) : Prop :=
  ∃ row, desk.rows.get? key = some row ∧ row.status = row.run.status ∧
    row.run.status = if decision = .rejected then .rejected
      else if out.1.execution.map (·.status) = some .failed then .failed else .succeeded

/-- The task a proposal names has the status of the decision. -/
theorem answer_reaches (now : Time) {decision : Decision}
    (asked : decision = .approved ∨ decision = .rejected)
    (status : proposal.status = .decided decision)
    (stored : desk.rows.get? row.key = some row) (raised : row.run.workspaceID = proposal.workspaceID)
    (waiting : row.run.status = .waitingApproval)
    (linked : taskRunID proposal.metadata = some (toString row.run.id)) :
    (answer proposal principal now).Ensures desk (TaskDecided row.key decision) := by
  have named := runNamed_of_get? stored
  rw [raised] at named
  unfold answer resolveProposal
  simp only [Service.ensures_bind, Service.ensures_commit, Service.ensures_pure, linked, wp, named]
  cases resolves : resolveApproval row.run (proposalResolution proposal principal) now with
  | error e => exact ensures_fail
  | ok outcome =>
    cases outcome with
    | replayed =>
      -- only a run that has ended is replayed
      have ended := terminal_of_replayed resolves
      rw [waiting] at ended
      cases ended
    | save run =>
      obtain ⟨approval, result, -, -, -, decided, rfl⟩ := resolvedRun_key_of resolves
      simp only [wp, onRows_ensures]
      refine (saveWaitingApproval_ensures _ _).mono ?_
      rintro _ rows ⟨there, found, -, -, -, rfl⟩
      obtain rfl : there = row := Option.some.inj (found.symm.trans stored)
      refine ⟨_, Table.get?_put_self stored, rfl, ?_⟩
      simp only [decisionResult, proposalResolution, status, ProposalStatus.decision] at decided
      obtain rfl | rfl := asked
      · dsimp only at decided
        split at decided <;> cases decided
        · next failed => simp [failed, resolvedRun, statusRow]
        · next fine => simp [fine, resolvedRun, statusRow]
      · cases decided
        rfl

/-- A task the proposal does not name stays as it is. -/
theorem answer_misses (now : Time) (stored : desk.rows.get? row.key = some row)
    (other : taskRunID proposal.metadata ≠ some (toString row.run.id)) :
    (answer proposal principal now).Ensures desk
      fun _ desk' => desk'.rows.get? row.key = some row := by
  unfold answer resolveProposal
  simp only [Service.ensures_bind, Service.ensures_commit, Service.ensures_pure]
  cases names : taskRunID proposal.metadata with
  | none => exact ensures_pure.mpr stored
  | some text =>
    simp only [wp]
    cases found : runNamed desk.rows proposal.workspaceID text with
    | none => exact ensures_pure.mpr stored
    | some copy =>
      dsimp only
      cases resolves : resolveApproval copy (proposalResolution proposal principal) now with
      | error e => exact ensures_fail
      | ok outcome =>
        cases outcome with
        | replayed => exact ensures_pure.mpr stored
        | save run =>
          simp only [wp, onRows_ensures]
          refine (saveWaitingApproval_ensures _ _).mono ?_
          rintro _ rows ⟨there, _, -, -, -, rfl⟩
          -- What is saved is the run the text is of.
          have written : toString copy.id = text := by
            obtain ⟨source, chosen, rfl⟩ := Option.map_eq_some_iff.mp found
            have fits := List.find?_some chosen
            exact (of_decide_eq_true fits).2
          obtain ⟨approval, result, -, -, -, -, rfl⟩ := resolvedRun_key_of resolves
          refine (Table.get?_put_of_ne fun same => other ?_).trans stored
          rw [names, ← written]
          exact congrArg (fun key => some (toString key.2)) same.symm

/-- Once a decision has been answered, a waiting task of its workspace has the
status of the decision exactly if the proposal names it. -/
theorem answer_ensures (now : Time) {decision : Decision}
    (asked : decision = .approved ∨ decision = .rejected)
    (status : proposal.status = .decided decision)
    (stored : desk.rows.get? row.key = some row) (raised : row.run.workspaceID = proposal.workspaceID)
    (waiting : row.run.status = .waitingApproval) :
    (answer proposal principal now).Ensures desk fun out desk' =>
      (TaskDecided row.key decision out desk' ↔
        taskRunID proposal.metadata = some (toString row.run.id)) := by
  by_cases linked : taskRunID proposal.metadata = some (toString row.run.id)
  · intro out desk' ran
    exact iff_of_true
      (answer_reaches now asked status stored raised waiting linked out desk' ran) linked
  · intro out desk' ran
    refine iff_of_false ?_ linked
    rintro ⟨row', found, -, decided⟩
    cases found.symm.trans (answer_misses now stored linked out desk' ran)
    rw [waiting] at decided
    split at decided
    · cases decided
    · split at decided <;> cases decided

/-- Once a decision has been handled, the waiting run has the status of the
decision exactly if the metadata it leaves on the proposal (the request's, for a
draft) name the run. -/
theorem decision_reaches_task {host : ProposalHost} {request : DecisionRequest}
    {decision : Decision} {clock : DecisionClock} {out : Proposal × List Call}
    (asked : decision = .approved ∨ decision = .rejected)
    (sender : request.principal = some principal)
    (named : request.proposalID = some proposal.proposalID)
    (found : desk.proposals.get?
      (principal.workspaceID, principal.userID, principal.roleKey, proposal.proposalID) =
        some proposal)
    (stored : desk.rows.get? row.key = some row) (raised : row.run.workspaceID = proposal.workspaceID)
    (waiting : row.run.status = .waitingApproval)
    (handled : decideProposal host request decision clock desk = (.ok out, desk')) :
    TaskDecided row.key decision out desk' ↔
      taskRunID (if proposal.status = .draft then request.metadata.getD .empty
        else proposal.metadata) = some (toString row.run.id) := by
  suffices spec : (decideProposal host request decision clock).Ensures desk
      (fun out desk' => TaskDecided row.key decision out desk' ↔
        taskRunID (if proposal.status = .draft then request.metadata.getD .empty
          else proposal.metadata) = some (toString row.run.id)) from spec out desk' handled
  have home : proposal.workspaceID = principal.workspaceID :=
    congrArg Prod.fst (Table.key_of_get? found)
  unfold decideProposal
  rw [named, sender]
  dsimp only
  split
  · exact Service.ensures_fail
  · unfold decideOn getProposal
    simp only [Service.ensures_bind, Service.ensures_commit, wp]
    intro value there
    obtain rfl : value = proposal := Option.some.inj (there.symm.trans found)
    by_cases draft : value.status = .draft
    · rw [if_neg (not_not_intro draft)]
      simp only [if_pos draft]
      -- the proposal as it stands once its decision is written
      have reaches : ∀ (decided : Proposal) (later : Desk), later.rows = desk.rows →
          decided.workspaceID = principal.workspaceID → decided.status = .decided decision →
          decided.metadata = decisionMetadata request value.proposalID decision principal →
          (answer decided principal clock.resolvedAt).Ensures later fun out desk' =>
            (TaskDecided row.key decision out desk' ↔
              taskRunID (request.metadata.getD .empty) = some (toString row.run.id)) := by
        intro decided later rows workspace status metadata
        have kept : taskRunID decided.metadata = taskRunID (request.metadata.getD .empty) :=
          metadata ▸ rfl
        rw [← kept]
        exact answer_ensures clock.resolvedAt asked status (rows ▸ stored)
          (raised.trans (home.trans workspace.symm)) waiting
      split
      · cases resolveApprovalPrincipal host value with
        | error e => exact Service.ensures_fail
        | ok executor =>
          simp only [Service.ensures_bind, Service.ensures_commit]
          refine (decideCAS_ensures _ _ _ _ _).mono ?_
          rintro decided first ⟨kept, -⟩
          refine (decideCAS_ensures _ _ _ _ _).mono ?_
          rintro executed second ⟨kept', workspace, status, metadata⟩
          exact reaches executed second (kept'.trans kept) workspace status metadata
      · simp only [Service.ensures_bind, Service.ensures_commit]
        refine (decideCAS_ensures _ _ _ _ _).mono ?_
        rintro decided later ⟨kept, workspace, status, metadata⟩
        exact reaches decided later kept workspace status metadata
    · rw [if_pos draft]
      simp only [if_neg draft]
      split
      · exact Service.ensures_fail
      · next same =>
        exact answer_ensures clock.resolvedAt asked (not_not.mp same) stored raised waiting

/-- The sample task waits for proposal 5. -/
def waitingRow : Row :=
  savedRow (claimedRow (newRow sampleRequest 0) 1 0 1000) (waitingRun heldRun 5 10)

def raisedProposal : Proposal where
  proposalID := 5
  workspaceID := 1
  userID := 2
  role := 4
  status := .draft
  proposed := ⟨none, none⟩
  metadata := fun key => if key = "task_run_id" then .text "7" else .null
  execution := none
  decisionActor := none
  decisionReason := ""
  decidedAt := 0
  updatedAt := 10

def waitingDesk : Desk where
  proposals := ⟨[raisedProposal], by decide⟩
  rows := ⟨[waitingRow], by decide⟩

/-- A host that has nothing to carry out. -/
def idleHost : ProposalHost where
  resolveProposalPrincipal user role := .ok ⟨true, 1, user, role⟩
  invokeProposalAction _ _ := .error "unused"
  runProposalWorkflow _ _ := .error "unused"

/-- Approve proposal 5 with these metadata. -/
def approval (metadata : Metadata) : DecisionRequest :=
  { proposalID := some 5, reason := "fine", metadata := some metadata
    principal := some ⟨true, 1, 2, 4⟩ }

/-- What the write policy asks for, and nothing else. -/
def modeOnly : Metadata := fun key => if key = "run_mode" then .text "suggested_write" else .null

/-- The request is answered, the proposal is approved, and its task goes on
waiting. -/
theorem approval_misses_task :
    let handled := decideProposal idleHost (approval modeOnly) .approved ⟨20, 21, 22⟩ waitingDesk
    handled.1.toOption.map (fun out => (out.1.status, out.2)) = some (.decided .approved, []) ∧
    taskRunID raisedProposal.metadata = some "7" ∧
    (handled.2.rows.get? (1, 7)).map (fun row => (row.status, row.run.status)) =
      some (.waitingApproval, .waitingApproval) := by
  decide

/-- The same, and the run. -/
def modeAndRun : Metadata := fun key => if key = "task_run_id" then .text " 7 " else modeOnly key

theorem decision_reaches_task_named :
    ∃ out desk', decideProposal idleHost (approval modeAndRun) .approved ⟨20, 21, 22⟩ waitingDesk =
      (.ok out, desk') ∧ TaskDecided (1, 7) .approved out desk' := by
  match handled : decideProposal idleHost (approval modeAndRun) .approved ⟨20, 21, 22⟩
      waitingDesk with
  | (.ok out, desk') =>
    refine ⟨out, desk', rfl, ?_⟩
    have found : waitingDesk.proposals.get? (1, 2, 4, 5) = some raisedProposal := rfl
    have stored : waitingDesk.rows.get? waitingRow.key = some waitingRow := rfl
    have linked : taskRunID (if raisedProposal.status = .draft then
        (approval modeAndRun).metadata.getD .empty else raisedProposal.metadata) =
          some (toString waitingRow.run.id) := by decide
    exact (decision_reaches_task (.inl rfl) rfl rfl found stored rfl rfl handled).mpr linked
  | (.error e, desk') =>
    have fine : (decideProposal idleHost (approval modeAndRun) .approved ⟨20, 21, 22⟩
        waitingDesk).1.isOk = true := by decide
    rw [handled] at fine
    cases fine

end Reaches

end DomainryAgent.AgentTask
