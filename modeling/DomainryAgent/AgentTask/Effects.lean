import DomainryAgent.AgentTask.World

/-!
What one action of the task system can do.

`Outcome` says it once, for every action: the table stays as it is and some call
or event follows from a look at it (`Looks`), a run is created, or one row is
written (`Change`).  The invariants of the system are read off these cases.
-/

namespace DomainryAgent.AgentTask

open Lib Tx Table

/-! ### How an execution ends -/

/-- An attempt fails with this copy of the run, error code and retry. -/
inductive Fails : Call → Reply → Time → TaskRun → String → Bool → Time → Prop
  | execute {copy : TaskRun} {code : String} {retryable : Bool} {computedAt now : Time}
      (going : copy.cancelRequestedAt = none) :
      Fails (.execute copy) (.failed code retryable computedAt) now copy code retryable computedAt
  | provider {copy : TaskRun} {code : String} {retryable : Bool} {computedAt now : Time} :
      Fails (.provider copy) (.failed code retryable computedAt) now copy code retryable computedAt
  | result {copy : TaskRun} {result : TaskResult} {now : Time}
      (refused : taskCompletion copy result = none) :
      Fails (.provider copy) (.result result) now copy "agent.task.output_invalid" false now

/-- An attempt completes with this copy of the run. -/
inductive Completes : Call → Reply → TaskRun → Completion → Prop
  | cancelled {copy : TaskRun} {reply : Reply} (asked : copy.cancelRequestedAt.isSome = true) :
      Completes (.execute copy) reply copy (cancelledCompletion copy)
  | result {copy : TaskRun} {result : TaskResult} {completion : Completion}
      (taken : taskCompletion copy result = some completion) :
      Completes (.provider copy) (.result result) copy completion

/-- The run a call hands to `SaveRunning`, and the copy it was made from. -/
inductive Saves : Call → Reply → Time → TaskRun → TaskRun → Prop
  | wait {copy : TaskRun} {proposalID : Id} {reply : Reply} {now : Time} :
      Saves (.awaitApproval copy proposalID) reply now copy (waitingRun copy proposalID now)
  | fail {call : Call} {reply : Reply} {now : Time} {copy : TaskRun} {code : String}
      {retryable : Bool} {computedAt : Time}
      (fails : Fails call reply now copy code retryable computedAt) :
      Saves call reply now copy
        (failedRun (failingRun copy retryable) code retryable (nextAttempt copy computedAt) now)
  | complete {call : Call} {reply : Reply} {now : Time} {copy : TaskRun} {completion : Completion}
      (completes : Completes call reply copy completion)
      (terminal : completion.status.terminal = true) :
      Saves call reply now copy (completedRun copy completion now)

/-! ### Writes and looks -/

/-- The action is a claim with these parameters. -/
inductive Action.Claims : Action → Id → Time → Nat → Prop
  | one {key : Key} {owner : Id} {now : Time} {duration : Nat} :
      Action.Claims (.claim key owner now duration) owner now duration
  | next {workspaceID owner : Id} {now : Time} {duration : Nat} :
      Action.Claims (.claimNext workspaceID owner now duration) owner now duration

/-- An action writes the second row over the first, and starts these calls with
these events. -/
inductive Change : Action → Row → Row → List Call → List Event → Prop
  | claim {action : Action} {owner : Id} {now : Time} {duration : Nat} {row : Row}
      (asks : action.Claims owner now duration) (eligible : row.eligible now) :
      Change action row (claimedRow row owner now duration)
        [.execute (claimedRow row owner now duration).run]
        [.claimed row.key owner (row.fencingToken + 1)]
  | touch {row : Row} {owner : Option Id} {token : Nat} {now : Time} {duration : Nat}
      (leased : row.leased owner token) :
      Change (.heartbeat row.key owner token now duration) row
        { row with leaseExpiresAt := now + duration, updatedAt := now }
        [.heartbeatRead row.key owner token now duration] []
  | beat {row : Row} {copy : TaskRun} {owner : Option Id} {token : Nat} {stamp : Time}
      {duration : Nat} {reply : Reply} {now : Time} (same : copy.key = row.key)
      (leased : row.leased owner token) :
      Change (.resume (.heartbeatWrite copy owner token stamp duration) reply now) row
        { row with run := beatRun copy stamp (stamp + duration) } [] []
  | save {row : Row} {call : Call} {reply : Reply} {now : Time} {copy run : TaskRun}
      (saves : Saves call reply now copy run) (running : copy.status = .running)
      (same : copy.key = row.key) (leased : row.leased copy.lease.owner copy.lease.token) :
      Change (.resume call reply now) row (savedRow row run) (notifies run) []
  | begin {row : Row} {copy : TaskRun} {tool : Tool} {inputHash authorization : Id} {reply : Reply}
      {now : Time} {calls : Nat} (same : copy.key = row.key)
      (leased : row.leased copy.lease.owner copy.lease.token)
      (reserved : reserveCall row.run (toolCallStart copy tool inputHash authorization now) =
        .ok calls) :
      Change (.resume (.beginTool copy tool inputHash authorization) reply now) row
        (payloadRow row
          (begunRun row.run (toolCallStart copy tool inputHash authorization now) calls))
        [.finishTool copy calls] []
  | finish {row : Row} {copy : TaskRun} {ref : Nat} {result : ToolResult} {now : Time}
      {item : Invocation} (same : copy.key = row.key)
      (leased : row.leased copy.lease.owner copy.lease.token)
      (named : row.run.invocations.find? (·.ref = ref) = some item)
      (unfinished : item.finishedAt = none) :
      Change (.resume (.finishTool copy ref) (.tool result) now) row
        (payloadRow row (finishedRun row.run (toolCallFinish copy ref result now)))
        (result.proposal.map (Call.awaitApproval copy)).toList []
  | cancel {row : Row} {copy : TaskRun} {reason : String} {stamp : Time} {reply : Reply}
      {now : Time} (same : copy.key = row.key) (unmoved : row.updatedAt = copy.updatedAt) :
      Change (.resume (.cancelWrite copy reason stamp) reply now) row
        (statusRow row (cancelledRun copy reason stamp))
        (cancelOutcome (cancelledRun copy reason stamp)).1
        (cancelOutcome (cancelledRun copy reason stamp)).2
  | resolve {row : Row} {copy run : TaskRun} {resolution : Resolution} {stamp : Time}
      {resolver : Resolver} {reply : Reply} {now : Time}
      (resolves : resolveApproval copy resolution stamp = .ok (.save run))
      (same : copy.key = row.key) (waiting : row.status = .waitingApproval)
      (revision : row.run.revision = copy.revision) :
      Change (.resume (.resolveWrite copy resolution stamp resolver) reply now) row
        (statusRow row run) (resolvedOutcome run resolver).1
        ((resolvedOutcome run resolver).2 ++
          [.resolved row.key row.fencingToken resolution.decision])
  | mark {row : Row} {copy : TaskRun} {stamp : Time} {reply : Reply} {now : Time}
      (same : copy.key = row.key) (terminal : copy.status.terminal = true)
      (status : row.status = copy.status) (revision : row.run.revision = copy.revision) :
      Change (.resume (.markWrite copy stamp) reply now) row
        (payloadRow row (deliveredRun copy stamp)) []
        [.marked row.key copy.status copy.outcome copy.output]
  | operate {row : Row} {copy run : TaskRun} {operation : Operation} {stamp : Time} {reply : Reply}
      {now : Time} (operates : operate copy operation stamp = .ok (.save run))
      (same : copy.key = row.key) (status : row.status = copy.status)
      (revision : row.run.revision = copy.revision) :
      Change (.resume (.operateWrite copy operation stamp) reply now) row (statusRow row run) [] []
  | override {row : Row} {copy : TaskRun} {output : String} {stamp : Time} {reply : Reply}
      {now : Time} (same : copy.key = row.key) (terminal : copy.status.terminal = true)
      (status : row.status = copy.status) (revision : row.run.revision = copy.revision) :
      Change (.resume (.overrideWrite copy output stamp) reply now) row
        (payloadRow row (overriddenRun copy output stamp)) [] []

/-- An action leaves the table alone, and starts these calls with these events. -/
inductive Looks (rows : Rows) : Action → List Call → List Event → Prop
  | nothing {action : Action} : Looks rows action [] []
  | started {copy : TaskRun} {now : Time} (going : copy.cancelRequestedAt = none) :
      Looks rows (.resume (.execute copy) .started now) [.provider copy]
        [.started copy.key copy.lease.token]
  | acknowledged {run : TaskRun} {now : Time} :
      Looks rows (.resume (.notify run) .acknowledged now) [.mark run.key]
        [.acknowledged run.key run.status run.outcome run.output]
  | mark {row : Row} {reply : Reply} {now : Time} (found : rows.get? row.key = some row)
      (open' : marks row.run) :
      Looks rows (.resume (.mark row.key) reply now) [.markWrite row.run now] []
  | beatRead {row : Row} {owner : Option Id} {token : Nat} {stamp : Time} {duration : Nat}
      {reply : Reply} {now : Time} (found : rows.get? row.key = some row) :
      Looks rows (.resume (.heartbeatRead row.key owner token stamp duration) reply now)
        [.heartbeatWrite row.run owner token stamp duration] []
  | finished {copy : TaskRun} {ref : Nat} {result : ToolResult} {now : Time} :
      Looks rows (.resume (.finishTool copy ref) (.tool result) now)
        (result.proposal.map (Call.awaitApproval copy)).toList []
  | invoke {row : Row} {tool : Tool} {inputHash authorization : Id}
      (found : rows.get? row.key = some row) (running : row.run.status = .running)
      (going : row.run.cancelRequestedAt = none) :
      Looks rows (.invoke row.key tool inputHash authorization)
        [.beginTool row.run tool inputHash authorization] []
  | cancelSettled {row : Row} {reason : String} {now : Time}
      (found : rows.get? row.key = some row)
      (settled : row.run.status.terminal = true ∨ row.run.cancelRequestedAt.isSome = true) :
      Looks rows (.requestCancel row.key reason now) (cancelOutcome row.run).1
        (cancelOutcome row.run).2
  | cancel {row : Row} {reason : String} {now : Time} (found : rows.get? row.key = some row)
      (live : row.run.status.terminal = false) (fresh : row.run.cancelRequestedAt = none) :
      Looks rows (.requestCancel row.key reason now) [.cancelWrite row.run reason now] []
  | cancelMissed {copy : TaskRun} {reason : String} {stamp : Time} {reply : Reply} {now : Time}
      (missed : ∀ row, rows.get? copy.key = some row → row.updatedAt ≠ copy.updatedAt) :
      Looks rows (.resume (.cancelWrite copy reason stamp) reply now) [.cancelRead copy.key] []
  | cancelRead {row : Row} {reply : Reply} {now : Time} (found : rows.get? row.key = some row) :
      Looks rows (.resume (.cancelRead row.key) reply now) (cancelOutcome row.run).1
        (cancelOutcome row.run).2
  | resolve {key : Key} {resolution : Resolution} {decided : Bool} :
      Looks rows (.resolve key resolution decided)
        [.resolve key resolution (if decided then .proposal else .deadline)] []
  | resolveReplayed {row : Row} {resolution : Resolution} {resolver : Resolver} {reply : Reply}
      {now : Time} (found : rows.get? row.key = some row)
      (replayed : resolveApproval row.run resolution now = .ok .replayed) :
      Looks rows (.resume (.resolve row.key resolution resolver) reply now)
        (resolvedOutcome row.run resolver).1 (resolvedOutcome row.run resolver).2
  | resolveRead {row : Row} {resolution : Resolution} {resolver : Resolver} {reply : Reply}
      {now : Time} {run : TaskRun} (found : rows.get? row.key = some row)
      (resolves : resolveApproval row.run resolution now = .ok (.save run)) :
      Looks rows (.resume (.resolve row.key resolution resolver) reply now)
        [.resolveWrite row.run resolution now resolver] []
  | operate {row : Row} {operation : Operation} {now : Time} {run : TaskRun}
      (found : rows.get? row.key = some row)
      (operates : AgentTask.operate row.run operation now = .ok (.save run)) :
      Looks rows (.operate row.key operation now) [.operateWrite row.run operation now] []
  | override {row : Row} {output : String} {now : Time} (found : rows.get? row.key = some row)
      (terminal : row.run.status.terminal = true) :
      Looks rows (.override row.key output now) [.overrideWrite row.run output now] []
  | observe {row : Row} (found : rows.get? row.key = some row) :
      Looks rows (.observe row.key) (notifies row.run) []

/-- The row a claim takes. -/
def Action.takes? (rows : Rows) : Action → Option Row
  | .claim key _ now _ => claimable rows key now
  | .claimNext workspaceID _ now _ => nextClaimable rows workspaceID now
  | _ => none

/-- What an action leaves of a table. -/
inductive Outcome (rows : Rows) (action : Action) : Turn → Prop
  | look {calls : List Call} {events : List Event} (look : Looks rows action calls events) :
      Outcome rows action ⟨rows, calls, events⟩
  | create {request : Request} {now : Time} {rows' : Rows} (asked : action = .start request now)
      (inserted : rows.insert? (newRow request now) = some rows') :
      Outcome rows action ⟨rows', [], []⟩
  | write {row new : Row} {calls : List Call} {events : List Event}
      (found : rows.get? row.key = some row) (change : Change action row new calls events)
      (target : ∀ owner now duration, action.Claims owner now duration →
        action.takes? rows = some row := by rintro _ _ _ ⟨⟩) :
      Outcome rows action ⟨rows.put new, calls, events⟩

/-! ### The cases are all there are -/

variable {now : Time} {call : Call} {reply : Reply} {copy : TaskRun} {w : World} {row new : Row}
  {calls : List Call} {events : List Event}

variable {code : String} {resolution : Resolution} {operated : TaskRun} {kind : OperationKind}

section Cases

variable {rows : Rows} {action : Action}

theorem Outcome.idle : Outcome rows action (.idle rows) := .look .nothing

/-- A transaction and what follows from it. -/
theorem Outcome.of {α : Type} {tx : TaskTx α} {follow : α → List Call × List Event}
    (ok : tx.Ensures rows fun a rows' => Outcome rows action ⟨rows', (follow a).1, (follow a).2⟩) :
    Outcome rows action (.of rows tx follow) := by
  unfold Turn.of
  cases run : tx rows with
  | ok r => exact ok r.1 r.2 run
  | error e => exact .idle

/-- A look at a stored run. -/
theorem Outcome.reading {key : Key} {follow : TaskRun → List Call × List Event}
    (each : ∀ row, rows.get? row.key = some row → row.key = key →
      Looks rows action (follow row.run).1 (follow row.run).2) :
    Outcome rows action (.reading rows key follow) := by
  unfold Turn.reading
  cases found : rows.get? key with
  | none => exact .idle
  | some row => exact .look (each row (get?_key found) (key_of_get? found))

variable {rows' : Rows} {stamp : Time}

theorem claimed_outcome {target : Option Row} {owner : Id} {duration : Nat}
    (asks : action.Claims owner now duration) (takes : action.takes? rows = target)
    (found : ∀ row, target = some row → rows.get? row.key = some row ∧ row.eligible now) :
    Tx.Ensures (match target with
      | none => pure none
      | some row => takeRow row owner now duration) rows fun out rows' =>
        Outcome rows action ⟨rows', (claimed owner out).1, (claimed owner out).2⟩ := by
  cases target with
  | none => exact ensures_pure.mpr .idle
  | some row =>
    obtain ⟨stored, eligible⟩ := found row rfl
    simp only [takeRow, wp]
    exact .write stored (.claim asks eligible) fun _ _ _ _ => takes

/-- What a run is created with and keeps. -/
structure Contract where
  processID : Option Id
  maxAttempts : Nat
  maxToolCalls : Nat
  maxCostUnits : Nat

/-- The contract of a run. -/
def TaskRun.contract (run : TaskRun) : Contract :=
  ⟨run.processID, run.maxAttempts, run.maxToolCalls, run.maxCostUnits⟩

/-- What a run takes over from the copy it was made from. -/
structure Carries (copy run : TaskRun) : Prop where
  key : run.key = copy.key
  contract : run.contract = copy.contract
  lease : run.lease = copy.lease
  attempt : run.attempt = copy.attempt
  cancel : run.cancelRequestedAt = copy.cancelRequestedAt

theorem failedRun_carries (copy : TaskRun) (code : String) (retryable retry : Bool)
    (next now : Time) :
    Carries copy (failedRun (failingRun copy retryable) code retry next now) := by
  unfold failedRun failingRun
  dsimp only
  split <;> split <;> exact ⟨rfl, rfl, rfl, rfl, rfl⟩

variable {run : TaskRun}

theorem Saves.carries (saves : Saves call reply now copy run) : Carries copy run := by
  cases saves with
  | wait | complete => exact ⟨rfl, rfl, rfl, rfl, rfl⟩
  | fail fails => exact failedRun_carries _ _ _ _ _ _

/-- What a run that is saved under its own lease leaves. -/
theorem Outcome.saved (saves : Saves call reply now copy run) (running : copy.status = .running)
    (saved : ∃ row, rows.get? run.key = some row ∧
      row.leased copy.lease.owner copy.lease.token ∧ rows' = rows.put (savedRow row run)) :
    Outcome rows (.resume call reply now) ⟨rows', notifies run, []⟩ := by
  obtain ⟨row, found, leased, rfl⟩ := saved
  have same : copy.key = row.key := saves.carries.key.symm.trans (key_of_get? found).symm
  exact .write (get?_key found) (.save saves running same leased)

theorem notifies_of_live (live : run.status.terminal = false) : notifies run = [] := by
  simp [notifies, live]

theorem failClaim_outcome {retryable : Bool} {computedAt : Time}
    (fails : Fails call reply now copy code retryable computedAt) :
    Outcome rows (.resume call reply now) (failClaim rows copy code retryable computedAt now) := by
  have status : (failingRun copy retryable).status = copy.status := by
    unfold failingRun; split <;> rfl
  apply Outcome.of
  simp only [failAttempt, wp]
  rintro ⟨running, -⟩
  refine (saveRunning_ensures _ _ _).mono fun _ _ saved => ?_
  have follow := Outcome.saved (.fail fails) (status ▸ running) saved
  split
  · next scheduled =>
    rw [notifies_of_live (by rw [scheduled]; rfl)] at follow
    exact follow
  · exact follow

theorem completeClaim_outcome {completion : Completion}
    (completes : Completes call reply copy completion) :
    Outcome rows (.resume call reply now) (completeClaim rows copy completion now) := by
  apply Outcome.of
  simp only [complete, wp]
  rintro ⟨running, -, terminal⟩
  exact (saveRunning_ensures _ _ _).mono fun _ _ saved =>
    .saved (.complete completes terminal) running saved

theorem executeClaim_outcome (copy : TaskRun) (reply : Reply) (now : Time) :
    Outcome rows (.resume (.execute copy) reply now) (executeClaim rows copy reply now) := by
  unfold executeClaim
  split
  · next asked => exact completeClaim_outcome (.cancelled asked)
  · next going =>
    have fresh : copy.cancelRequestedAt = none := by simpa using going
    cases reply with
    | failed code retryable computedAt => exact failClaim_outcome (.execute fresh)
    | started => exact .look (.started fresh)
    | silent | result _ | acknowledged | tool _ => exact .idle

theorem settleClaim_outcome (copy : TaskRun) (reply : Reply) (now : Time) :
    Outcome rows (.resume (.provider copy) reply now) (settleClaim rows copy reply now) := by
  cases reply with
  | failed code retryable computedAt => exact failClaim_outcome .provider
  | result result =>
    unfold settleClaim
    dsimp only
    split
    · next taken => exact completeClaim_outcome (.result taken)
    · next refused => exact failClaim_outcome (.result refused)
  | silent | started | acknowledged | tool _ => exact .idle

theorem requestCancel_outcome (key : Key) (reason : String) (now : Time) :
    Outcome rows (.requestCancel key reason now) (requestCancel rows key reason now) := by
  apply Outcome.reading
  rintro row found rfl
  split
  · next settled => exact .cancelSettled found settled
  · next live =>
    simp only [not_or, Bool.not_eq_true, Option.isSome_eq_false_iff, Option.isNone_iff_eq_none]
      at live
    exact .cancel found live.1 live.2

theorem resolvedRun_key_of (resolves : resolveApproval copy resolution stamp = .ok (.save run)) :
    ∃ approval result, copy.status = .waitingApproval ∧ copy.approval = some approval ∧
      approval.proposalID = resolution.proposalID ∧
      decisionResult resolution copy.lastErrorCode = some result ∧
      run = resolvedRun copy approval resolution result stamp := by
  unfold resolveApproval at resolves
  cases approved : copy.approval with
  | none => simp [approved] at resolves
  | some approval =>
    simp only [approved] at resolves
    split at resolves
    · cases resolves
    · split at resolves
      · cases resolves
      · next fits =>
        simp only [not_or, not_not] at fits
        cases decided : decisionResult resolution copy.lastErrorCode with
        | none => simp [decided] at resolves
        | some result =>
          simp only [decided, Except.ok.injEq, Resolving.save.injEq] at resolves
          exact ⟨approval, result, fits.1, rfl, fits.2, rfl, resolves.symm⟩

theorem operatedRun_key_of {operation : Operation}
    (operates : operate copy operation stamp = .ok (.save run)) :
    ∃ operated, operatedRun copy operation.kind = .ok operated ∧
      run = { operated with
        operations := copy.operations ++ [operation], updatedAt := stamp
        revision := copy.revision + 1 } := by
  unfold operate at operates
  split at operates
  · split at operates <;> cases operates
  · split at operates
    · cases operates
    · next operated made =>
      simp only [Except.ok.injEq, Operating.save.injEq] at operates
      exact ⟨operated, made, operates.symm⟩

/-- What an operator's command makes of a run. -/
theorem operatedRun_spec (made : operatedRun copy kind = .ok operated) :
    operated.key = copy.key ∧ operated.contract = copy.contract ∧ (operated.status = .pending ∨
      operated.status = .manualReview ∧ operated.reconciliation.state = .manuallyResolved) := by
  cases kind with
  | other text => cases made
  | retry | reconcile =>
    simp only [operatedRun] at made
    split at made
    · cases made
    · cases made
      exact ⟨rfl, rfl, .inl rfl⟩
  | resolve =>
    simp only [operatedRun] at made
    split at made
    · cases made
    · cases made
      exact ⟨rfl, rfl, .inr ⟨rfl, rfl⟩⟩

theorem resumeCall_outcome (call : Call) (reply : Reply) (now : Time) :
    Outcome rows (.resume call reply now) (resumeCall rows call reply now) := by
  cases call with
  | execute run => exact executeClaim_outcome run reply now
  | provider run => exact settleClaim_outcome run reply now
  | notify run =>
    cases reply with
    | acknowledged => exact .look .acknowledged
    | silent | started | failed _ _ _ | result _ | tool _ => exact .idle
  | mark key =>
    unfold resumeCall
    apply Outcome.reading
    rintro row found rfl
    dsimp only
    split
    · next open' => exact .mark found open'
    · exact .nothing
  | markWrite copy stamp =>
    apply Outcome.of
    simp only [saveTerminalOverride, wp, rowOf_ensures]
    rintro terminal row found ⟨status, revision⟩
    have key : copy.key = row.key := (key_of_get? found).symm
    have change : Change (.resume (.markWrite copy stamp) reply now) row _ _ _ :=
      .mark key terminal status revision
    exact key ▸ .write (get?_key found) change
  | heartbeatRead key owner token stamp duration =>
    unfold resumeCall
    apply Outcome.reading
    rintro row found rfl
    exact .beatRead found
  | heartbeatWrite copy owner token stamp duration =>
    apply Outcome.of
    simp only [heartbeatWrite, wp]
    split
    · exact ensures_pure.mpr .idle
    · next row found =>
      obtain ⟨stored, leased⟩ := Option.filter_eq_some_iff.mp found
      exact ensures_write.mpr (.write (get?_key stored)
        (.beat (key_of_get? stored).symm (of_decide_eq_true leased)))
  | beginTool copy tool inputHash authorization =>
    apply Outcome.of
    simp only [beginAgentToolCall, wp, rowOf_ensures]
    intro row found leased calls reserved
    exact .write (get?_key found) (.begin (key_of_get? found).symm leased reserved)
  | finishTool copy ref =>
    cases reply with
    | tool result =>
      apply Outcome.of
      simp only [finishAgentToolCall, wp, rowOf_ensures]
      intro row found leased
      split
      · exact ensures_fail
      · next item named =>
        refine ensures_ite.mpr ⟨fun _ => ensures_pure.mpr (.look .finished), fun going => ?_⟩
        exact ensures_write.mpr (.write (get?_key found)
          (.finish (key_of_get? found).symm leased named (not_not.mp going)))
    | silent | started | failed _ _ _ | result _ | acknowledged => exact .idle
  | awaitApproval copy proposalID =>
    apply Outcome.of
    simp only [waitForApproval, wp]
    rintro ⟨running, -⟩
    refine (saveRunning_ensures _ _ _).mono fun _ _ saved => ?_
    have follow : Outcome rows (.resume (.awaitApproval copy proposalID) reply now) _ :=
      .saved .wait running saved
    rw [notifies_of_live rfl] at follow
    exact follow
  | cancelWrite copy reason stamp =>
    apply Outcome.of
    simp only [cancelWrite, wp]
    split
    · next missing =>
      refine ensures_pure.mpr (.look (.cancelMissed fun row stored same => ?_))
      simp [stored, same] at missing
    · next row found =>
      obtain ⟨stored, unmoved⟩ := Option.filter_eq_some_iff.mp found
      simp only [wp]
      exact .write (get?_key stored)
        (.cancel (key_of_get? stored).symm (of_decide_eq_true unmoved))
  | cancelRead key =>
    unfold resumeCall
    apply Outcome.reading
    rintro row found rfl
    exact .cancelRead found
  | resolve key resolution resolver =>
    unfold resumeCall
    apply Outcome.reading
    rintro row found rfl
    cases resolved : resolveApproval row.run resolution now with
    | error e => exact .nothing
    | ok outcome =>
      cases outcome with
      | replayed => exact .resolveReplayed found resolved
      | save run => exact .resolveRead found resolved
  | resolveWrite copy resolution stamp resolver =>
    unfold resumeCall
    dsimp only
    split
    · next run resolves =>
      obtain ⟨approval, result, -, -, -, -, made⟩ := resolvedRun_key_of resolves
      refine .of ((saveWaitingApproval_ensures _ _).mono ?_)
      rintro _ rows' ⟨row, found, waiting, revision, -, rfl⟩
      have key : copy.key = row.key := by
        have stored := (key_of_get? found).symm
        rw [made] at stored
        exact stored
      have token : tokenOf rows copy.key = row.fencingToken := by
        simp [tokenOf, key, get?_key found]
      have change : Change (.resume (.resolveWrite copy resolution stamp resolver) reply now) row
          _ _ _ := .resolve resolves key waiting revision
      rw [token, key]
      exact .write (get?_key found) change
    · exact .idle
  | operateWrite copy operation stamp =>
    unfold resumeCall
    dsimp only
    split
    · next run operates =>
      obtain ⟨operated, made, same⟩ := operatedRun_key_of operates
      apply Outcome.of
      simp only [saveOperationalTransition, wp, rowOf_ensures]
      rintro row found ⟨status, revision⟩
      have key : copy.key = row.key := by
        have stored := (key_of_get? found).symm
        rw [same] at stored
        exact (operatedRun_spec made).1.symm.trans stored
      exact .write (get?_key found) (.operate operates key status revision)
    · exact .idle
  | overrideWrite copy output stamp =>
    apply Outcome.of
    simp only [saveTerminalOverride, wp, rowOf_ensures]
    rintro terminal row found ⟨status, revision⟩
    exact .write (get?_key found)
      (.override (key_of_get? found).symm terminal status revision)

/-- Every action has one of the outcomes. -/
theorem turn_outcome (rows : Rows) (action : Action) : Outcome rows action (turn rows action) := by
  cases action with
  | start request now =>
    apply Outcome.of
    simp only [create, wp]
    split
    · exact ensures_pure.mpr .idle
    · simp only [wp]
      exact fun grown inserted => .create rfl inserted
  | claim key owner now duration =>
    apply Outcome.of
    simp only [claimAgentTaskRunOnce, wp]
    exact claimed_outcome .one rfl fun _ => claimable_spec
  | claimNext workspaceID owner now duration =>
    apply Outcome.of
    simp only [claimNextOnce, wp]
    exact claimed_outcome .next rfl fun _ => nextClaimable_spec
  | heartbeat key owner token now duration =>
    apply Outcome.of
    simp only [heartbeatTouch, wp]
    split
    · exact ensures_pure.mpr .idle
    · next row found =>
      obtain ⟨stored, leased⟩ := Option.filter_eq_some_iff.mp found
      obtain rfl := key_of_get? stored
      simp only [wp]
      exact .write stored (.touch (of_decide_eq_true leased).1)
  | invoke key tool inputHash authorization =>
    unfold turn invokeTool
    apply Outcome.reading
    rintro row found rfl
    split
    · next open' => exact .invoke found open'.1 open'.2.1
    · exact .nothing
  | requestCancel key reason now => exact requestCancel_outcome key reason now
  | resolve key resolution decided => exact .look .resolve
  | operate key operation now =>
    unfold turn
    apply Outcome.reading
    rintro row found rfl
    cases operated : operate row.run operation now with
    | error e => exact .nothing
    | ok outcome =>
      cases outcome with
      | replayed => exact .nothing
      | save run => exact .operate found operated
  | override key output now =>
    unfold turn
    apply Outcome.reading
    rintro row found rfl
    dsimp only
    split
    · next terminal => exact .override found terminal
    · exact .nothing
  | observe key =>
    unfold turn
    apply Outcome.reading
    rintro row found rfl
    dsimp only
    split
    · exact .observe found
    · exact .nothing
  | resume call reply now => exact resumeCall_outcome call reply now
  | crash call => exact .idle

end Cases

/-! ### Statuses -/

/-- The status is one of those in which a token is in use. -/
def Status.active (status : Status) : Prop := status = .running ∨ status = .waitingApproval

theorem operatedRun_active (made : operatedRun copy kind = .ok operated) :
    ¬operated.status.active := by
  obtain ⟨-, -, status | ⟨status, -⟩⟩ := operatedRun_spec made <;> simp [status, Status.active]

theorem decisionResult_terminal {result : Status × String × String}
    (decided : decisionResult resolution code = some result) : result.1.terminal = true := by
  unfold decisionResult at decided
  repeat' split at decided
  all_goals cases decided <;> rfl

theorem not_active_of_terminal {status : Status} (terminal : status.terminal = true) :
    ¬status.active := by
  rintro (rfl | rfl)
  · cases terminal
  · cases terminal

/-! ### One step of the world -/

/-- What holds of the world as it is and of each outcome of the action holds
after it. -/
theorem step_rule {P : World → Prop} {action : Action} (stay : P w)
    (moves : ∀ t, Outcome w.rows action t → action.stray w = false →
      P ⟨t.rows, t.calls ++ action.left w, t.events ++ w.log⟩) : P (step w action) := by
  unfold step
  split
  · exact stay
  · next taken => exact moves _ (turn_outcome w.rows action) (by simpa using taken)

/-- An action leaves no call that was not there. -/
theorem mem_of_left {action : Action} (member : call ∈ action.left w) : call ∈ w.calls := by
  cases action with
  | resume _ _ _ | crash _ => exact List.mem_of_mem_erase member
  | _ => exact member

/-- A call that is taken up is in progress. -/
theorem mem_of_resumed (taken : (Action.resume call reply now).stray w = false) :
    call ∈ w.calls := by
  simpa [Action.stray] using taken

/-- A token never goes back. -/
theorem Change.token_le {action : Action} (change : Change action row new calls events) :
    row.fencingToken ≤ new.fencingToken := by
  cases change with
  | claim => exact Nat.le_succ _
  | _ => exact Nat.le_refl _

/-- Where a write leaves a row leased, a claim took it or it was leased before:
no other statement sets a run going, unless a cancel request brings back a
status that is no longer the row's. -/
theorem Change.leased_before {action : Action} (change : Change action row new calls events)
    (cancel : ∀ copy reason stamp reply now,
      action = .resume (.cancelWrite copy reason stamp) reply now → copy.key = row.key →
        row.updatedAt = copy.updatedAt → row.status = copy.status) {owner : Option Id} {token : Nat}
    (leased : new.leased owner token) : row.leased owner token ∨ token = row.fencingToken + 1 := by
  cases change with
  | claim => exact .inr leased.2.2.symm
  | touch | beat | begin | finish | mark | override => exact .inl leased
  | save saves running same held => exact .inl ⟨held.1, leased.2.1, leased.2.2⟩
  | cancel same unmoved =>
    refine .inl ⟨?_, leased.2.1, leased.2.2⟩
    have status := cancel _ _ _ _ _ rfl same unmoved
    have running := leased.1
    simp only [statusRow, cancelledRun] at running
    split at running
    · cases running
    · exact status.trans running
  | resolve resolves =>
    obtain ⟨approval, result, -, -, -, decided, rfl⟩ := resolvedRun_key_of resolves
    have running : result.1 = .running := leased.1
    have terminal := decisionResult_terminal decided
    rw [running] at terminal
    cases terminal
  | operate operates =>
    obtain ⟨operated, made, rfl⟩ := operatedRun_key_of operates
    exact absurd (.inl leased.1) (operatedRun_active made)

/-- A change writes the row of the same run. -/
theorem Change.key {action : Action} (change : Change action row new calls events) :
    new.key = row.key := by
  cases change with
  | claim | touch | begin | finish => rfl
  | beat same leased | cancel same unmoved | mark same | override same => exact same
  | save saves running same => exact saves.carries.key.trans same
  | resolve resolves same =>
    obtain ⟨approval, result, -, -, -, -, rfl⟩ := resolvedRun_key_of resolves
    exact same
  | operate operates same =>
    obtain ⟨operated, made, rfl⟩ := operatedRun_key_of operates
    exact (operatedRun_spec made).1.trans same

end DomainryAgent.AgentTask
