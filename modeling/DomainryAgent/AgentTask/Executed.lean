import DomainryAgent.AgentTask.DecidedOnce

/-!
A task succeeds by an approval only after the effect was carried out.

The approval is stored before the effect is carried out and before it is known
what came of it.  A decision that finds the approval stored goes on to the task:
it must find the execution recorded as well.
-/

namespace DomainryAgent.AgentTask

open Lib Tx Table

variable {host : ProposalHost} {now : Time} {desk desk' : Desk} {w w' : Office} {k : ProposalKey}

/-- A decision that finds an approval with an effect finds its execution, and no
proposal is stored over another one.  Proposals are made and decided by the
proposal service only: no record is put with the state service directly, and no
decision taken there. -/
def Recorded (w : Office) : OfficeAction → Prop
  | .create _ request _ =>
    w.desk.proposals.get? (proposalKey request.principal request.proposalID) = none
  | .hostDraft _ draft derived principal _ =>
    w.desk.proposals.get? (proposalKey principal (draft.proposalID.getD derived)) = none
  | .store .. | .decide .. => False
  | .advance job _ _ =>
    match w.jobs job with
    | some (.asked ask) => ∀ p, w.desk.proposals.get? (proposalKey ask.principal ask.proposalID) =
        some p → p.status = .decided .approved → p.proposed.executable = true → p.execution ≠ none
    | _ => True
  | _ => True

/-- What is recorded of an effect came of carrying it out. -/
def Evidenced (w : Office) (k : ProposalKey) (proposed : Proposed) (e : Execution) : Prop :=
  proposed.executable = true → ⟨k, proposed, e⟩ ∈ w.carried

/-- The proposal is stored and proposes this. -/
def Proposes (desk : Desk) (k : ProposalKey) (proposed : Proposed) : Prop :=
  ∃ row, desk.proposals.get? k = some row ∧ row.proposed = proposed

/-- An approval is stored with its effect still to come, or with its execution. -/
def Leads (decision : ProposalDecision) (principal : Principal) : After → Prop
  | .execute ask _ => ask.principal = principal
  | .resolve => decision.decision = .approved → decision.execution ≠ none
  | .done => False

/-- What a job goes on with rests on an effect that was carried out. -/
def Job.Backed (w : Office) : Job → Prop
  | .asked _ => True
  | .look decision principal after =>
    Leads decision principal after ∧ ∀ e, decision.execution = some e → ∃ proposed,
      Proposes w.desk (proposalKey principal decision.proposalID) proposed ∧
        Evidenced w (proposalKey principal decision.proposalID) proposed e
  | .swap value decision principal after =>
    Leads decision principal after ∧ value.key = proposalKey principal value.proposalID ∧
      Proposes w.desk value.key value.proposed ∧
      (∀ e, value.execution = some e → Evidenced w value.key value.proposed e) ∧
      ∀ e, decision.execution = some e → Evidenced w value.key value.proposed e
  | .execute ask p _ =>
    p.key = proposalKey ask.principal p.proposalID ∧ Proposes w.desk p.key p.proposed
  | .resolve p _ => p.status = .decided .approved → p.proposed.executable = true →
      ∃ e, p.execution = some e ∧ Evidenced w p.key p.proposed e

structure Backing (w : Office) : Prop where
  stored : ∀ k row, w.desk.proposals.get? k = some row → ∀ e, row.execution = some e →
    Evidenced w k row.proposed e
  jobs : ∀ i job, w.jobs i = some job → job.Backed w

/-- What was proposed stays so, and what was carried out stays on record. -/
structure Keeps (w w' : Office) : Prop where
  proposes : ∀ k proposed, Proposes w.desk k proposed → Proposes w'.desk k proposed
  carried : w.carried ⊆ w'.carried

theorem Evidenced.kept {proposed : Proposed} {e : Execution} (evidenced : Evidenced w k proposed e)
    (keeps : Keeps w w') : Evidenced w' k proposed e := fun has => keeps.carried (evidenced has)

theorem Job.Backed.kept {job : Job} (backed : job.Backed w) (keeps : Keeps w w') :
    job.Backed w' := by
  cases job with
  | asked => trivial
  | look decision principal after =>
    refine ⟨backed.1, fun e recorded => ?_⟩
    obtain ⟨proposed, proposes, evidenced⟩ := backed.2 e recorded
    exact ⟨proposed, keeps.proposes _ _ proposes, evidenced.kept keeps⟩
  | swap value decision principal after =>
    obtain ⟨leads, key, proposes, before, recorded⟩ := backed
    exact ⟨leads, key, keeps.proposes _ _ proposes, fun e has => (before e has).kept keeps,
      fun e has => (recorded e has).kept keeps⟩
  | execute ask p executor => exact ⟨backed.1, keeps.proposes _ _ backed.2⟩
  | resolve p principal =>
    intro approved executable
    obtain ⟨e, recorded, evidenced⟩ := backed approved executable
    exact ⟨e, recorded, evidenced.kept keeps⟩

/-- A proposal that is stored where none was. -/
theorem Backing.stored_new {record : Proposal} (inv : Backing w)
    (free : w.desk.proposals.get? record.key = none) (blank : record.execution = none) :
    Backing (w.onDesk (storeProposal record now)) := by
  have lookup : ∀ k, (w.onDesk (storeProposal record now)).desk.proposals.get? k =
      if k = record.key then some { record with updatedAt := now } else w.desk.proposals.get? k :=
    fun k => get?_upsert _ _ _
  have keeps : Keeps w (w.onDesk (storeProposal record now)) := by
    refine ⟨fun k proposed ⟨row, found, same⟩ => ⟨row, ?_, same⟩, fun _ member => member⟩
    rw [lookup, if_neg, found]
    rintro rfl
    cases free.symm.trans found
  refine ⟨fun k row there e recorded => ?_, fun i job at_job => (inv.jobs i job at_job).kept keeps⟩
  rw [lookup] at there
  split at there
  · cases there
    cases blank.symm.trans recorded
  · exact (inv.stored k row there e recorded).kept keeps

theorem Proceeds.backed {under : Job} {progress : Progress}
    (proceeds : Proceeds host now w.desk under progress) (job : Id) (inv : Backing w)
    (backed : under.Backed w)
    (recorded : ∀ ask, under = .asked ask → ∀ p, w.desk.proposals.get?
      (proposalKey ask.principal ask.proposalID) = some p → p.status = .decided .approved →
        p.proposed.executable = true → p.execution ≠ none) :
    Keeps w (w.goOn job progress) ∧
      (∀ k row, progress.desk.proposals.get? k = some row → ∀ e, row.execution = some e →
        Evidenced (w.goOn job progress) k row.proposed e) ∧
      ∀ next, progress.job = some next → next.Backed (w.goOn job progress) := by
  have kept : ∀ {next : Option Job}, Keeps w (w.goOn job ⟨next, w.desk, []⟩) :=
    ⟨fun _ _ proposes => proposes, fun _ member => member⟩
  cases proceeds with
  | stops =>
    exact ⟨kept, inv.stored, fun _ none => nomatch none⟩
  | @read ask p next found goes =>
    refine ⟨kept, inv.stored, ?_⟩
    rintro _ ⟨⟩
    rcases Ask.next_cases goes with ⟨executor, _, _, rfl⟩ | ⟨_, differs, rfl⟩ | ⟨decided, rfl⟩
    · exact ⟨rfl, fun _ none => nomatch none⟩
    · exact ⟨fun approved => absurd approved differs, fun _ none => nomatch none⟩
    · intro approved executable
      obtain ⟨e, has⟩ := Option.ne_none_iff_exists'.mp (recorded ask rfl p found approved executable)
      have key : p.key = proposalKey ask.principal ask.proposalID := key_of_get? found
      exact ⟨e, has, inv.stored p.key p (key ▸ found) e has⟩
  | @looked decision principal after value found same =>
    refine ⟨kept, inv.stored, ?_⟩
    rintro _ ⟨⟩
    have key : value.key = proposalKey principal decision.proposalID := key_of_get? found
    have id : value.proposalID = decision.proposalID := congrArg (·.2.2.2) key
    have here : w.desk.proposals.get? value.key = some value := key ▸ found
    refine ⟨backed.1, id ▸ key, ⟨value, here, rfl⟩, inv.stored _ value here, fun e has => ?_⟩
    obtain ⟨proposed, ⟨row, there, proposes⟩, evidenced⟩ := backed.2 e has
    cases there.symm.trans found
    rw [proposes, key]
    exact evidenced
  | @swapped value row decision principal after found same =>
    obtain ⟨leads, key, ⟨row', there, proposes⟩, before, recorded⟩ := backed
    cases there.symm.trans found
    have put := get?_put_self (v := decidedProposal value decision principal now) found
    have keeps : Keeps w (w.goOn job ⟨after.next principal (decidedProposal value decision principal now),
        { w.desk with proposals := w.desk.proposals.put (decidedProposal value decision principal now) },
        []⟩) := by
      refine ⟨fun k proposed ⟨old, at_old, same⟩ => ?_, fun _ member => member⟩
      by_cases here : k = value.key
      · subst here
        cases at_old.symm.trans found
        exact ⟨_, put, proposes.symm.trans same⟩
      · have there := get?_put_of_ne (t := w.desk.proposals)
          (v := decidedProposal value decision principal now) here
        exact ⟨old, there.trans at_old, same⟩
    have mine : ∀ e, (decidedProposal value decision principal now).execution = some e →
        Evidenced w value.key value.proposed e := by
      intro e has
      rcases Option.or_eq_some_iff.mp has with has | ⟨_, has⟩
      · exact recorded e has
      · exact before e has
    refine ⟨keeps, fun k row there e has => ?_, fun next goes => ?_⟩
    · rcases get?_put_some there with ⟨rfl, rfl, _⟩ | ⟨_, there⟩
      · exact (mine e has).kept keeps
      · exact (inv.stored k row there e has).kept keeps
    · cases after with
      | done => exact leads.elim
      | execute ask executor =>
        cases goes
        refine ⟨?_, _, put, rfl⟩
        rw [show ask.principal = principal from leads]
        exact key
      | resolve =>
        cases goes
        intro approved _
        obtain ⟨e, has⟩ := Option.ne_none_iff_exists'.mp (leads (ProposalStatus.decided.inj approved))
        have recorded' : (decidedProposal value decision principal now).execution = some e := by
          simp [decidedProposal, has]
        exact ⟨e, recorded', (mine e recorded').kept keeps⟩
  | @executed ask p executor carried carries =>
    obtain ⟨key, proposes⟩ := backed
    have keeps : Keeps w (w.goOn job ⟨some (.look (ask.storing p (some (execute host p executor)))
        ask.principal .resolve), w.desk, carried⟩) :=
      ⟨fun _ _ proposes => proposes, fun _ member => List.mem_append_right _ member⟩
    refine ⟨keeps, fun k row found e has => (inv.stored k row found e has).kept keeps, ?_⟩
    rintro _ ⟨⟩
    refine ⟨fun _ none => (nomatch none), ?_⟩
    rintro _ ⟨⟩
    refine ⟨p.proposed, key ▸ proposes, fun executable => ?_⟩
    rw [carries, if_pos executable]
    exact key ▸ List.mem_append_left _ (List.mem_singleton.mpr rfl)
  | resolved =>
    have same := resolveProposal_proposals
    refine ⟨⟨fun k proposed ⟨row, found, is⟩ => ⟨row, ?_, is⟩, fun _ member => member⟩,
      fun k row found e has => ?_, fun _ none => nomatch none⟩
    · exact (same _ _ _ _).symm ▸ found
    · rw [same] at found
      exact inv.stored k row found e has

theorem Backing.initial (rows : Rows) : Backing (.initial rows) where
  stored k row found := by simp [Office.initial] at found
  jobs i job at_job := nomatch at_job

theorem Backing.update (inv : Backing w) {job : Id} {next : Option Job}
    (fine : ∀ under, next = some under → under.Backed w) :
    Backing { w with jobs := Function.update w.jobs job next } where
  stored := inv.stored
  jobs i under at_job :=
    (all_jobs_update fine inv.jobs i under at_job).kept
      ⟨fun _ _ proposes => proposes, fun _ member => member⟩

theorem Backing.step (inv : Backing w) {action : OfficeAction} (recorded : Recorded w action) :
    Backing (w.step action) := by
  cases action with
  | create contracts request now =>
    have free : w.desk.proposals.get? (createdProposal contracts request).key = none := recorded
    exact inv.stored_new free rfl
  | hostDraft contracts draft derived principal now =>
    simp only [Office.step, createHostDraft]
    cases draft.proposed with
    | none => exact ⟨inv.stored, inv.jobs⟩
    | some proposed =>
      have free : w.desk.proposals.get? (createdProposal contracts
          (hostDraftRequest draft proposed derived principal)).key = none := recorded
      exact inv.stored_new free rfl
  | store | decide => exact recorded.elim
  | ask job ask =>
    refine inv.update ?_
    rintro _ ⟨⟩
    trivial
  | crash job =>
    refine inv.update fun _ none => ?_
    cases none
  | tasks rows =>
    have keeps : Keeps w { w with desk := { w.desk with rows := rows } } :=
      ⟨fun _ _ proposes => proposes, fun _ member => member⟩
    exact ⟨fun k row found e has => (inv.stored k row found e has).kept keeps,
      fun i job at_job => (inv.jobs i job at_job).kept keeps⟩
  | advance job host now =>
    cases at_job : w.jobs job with
    | none => simpa only [Office.step, at_job] using inv
    | some under =>
      simp only [Office.step, at_job]
      simp only [Recorded, at_job] at recorded
      obtain ⟨keeps, stored, next⟩ := (under.proceeds host now w.desk).backed job inv
        (inv.jobs job under at_job) (by rintro ask rfl; exact recorded)
      exact ⟨stored, all_jobs_update next fun i under' at_i => (inv.jobs i under' at_i).kept keeps⟩

/-- Only an approval that did not fail is a success. -/
theorem decisionResult_succeeds {resolution : Resolution} {lastErrorCode : String}
    {result : Status × String × String}
    (decided : decisionResult resolution lastErrorCode = some result) (succeeds : result.1 = .succeeded) :
    resolution.decision = .approved ∧ resolution.execution.map (·.status) ≠ some .failed := by
  unfold decisionResult at decided
  split at decided
  · next approved =>
    split at decided
    · cases decided
      cases succeeds
    · next fine => exact ⟨approved, fine⟩
  all_goals cases decided
  all_goals cases succeeds

/-- A resolution that ends a run with success was made for an approval that did
not fail, and leaves its execution on the run. -/
theorem resolveProposal_succeeds {p : Proposal} {principal : Principal} {key : Key} {row row' : Row}
    (before : desk.rows.get? key = some row)
    (after : ((resolveProposal p principal now).commit desk).rows.get? key = some row')
    (unsettled : row.run.status ≠ .succeeded) (succeeds : row'.run.status = .succeeded) :
    p.status = .decided .approved ∧ p.execution.map (·.status) ≠ some .failed ∧
      ∃ approval, row'.run.approval = some approval ∧ approval.proposalID = p.proposalID ∧
        approval.execution = p.execution := by
  have other : desk.rows.get? key = some row' → False := by
    intro same
    cases before.symm.trans same
    exact unsettled succeeds
  revert after
  refine Ensures.commit (P := fun d : Desk => d.rows.get? key = some row' → _) ?_
    fun same => (other same).elim
  unfold resolveProposal
  split
  · exact ensures_pure.mpr fun same => (other same).elim
  simp only [wp]
  split
  · exact ensures_pure.mpr fun same => (other same).elim
  split
  · exact ensures_fail
  · exact ensures_pure.mpr fun same => (other same).elim
  next run saves =>
  obtain ⟨approval, result, -, -, named, decided, rfl⟩ := resolvedRun_key_of saves
  simp only [wp, onRows_ensures]
  refine (saveWaitingApproval_ensures _ _).mono ?_
  rintro _ rows ⟨old, found, -, -, -, rfl⟩ after
  rcases get?_put_some after with ⟨_, rfl, _⟩ | ⟨_, after⟩
  · obtain ⟨approved, fine⟩ := decisionResult_succeeds decided succeeds
    refine ⟨?_, fine, _, rfl, named, rfl⟩
    cases status : p.status with
    | draft =>
      simp only [proposalResolution, status, ProposalStatus.decision] at approved
      cases approved
    | decided decision =>
      simp only [proposalResolution, status, ProposalStatus.decision] at approved
      rw [approved]
  · exact (other after).elim

/-- A run that a decision ends with success belongs to an approval whose effect,
if it has one, was carried out and did not fail. -/
theorem approved_means_executed {rows : Rows} {w : Office}
    (reached : Reaches Office.step Recorded (.initial rows) w) {job : Id} {host : ProposalHost}
    {now : Time} {key : Key} {row row' : Row} (before : w.desk.rows.get? key = some row)
    (after : (w.step (.advance job host now)).desk.rows.get? key = some row')
    (unsettled : row.run.status ≠ .succeeded) (succeeds : row'.run.status = .succeeded) :
    ∃ p principal approval, w.jobs job = some (.resolve p principal) ∧
      p.status = .decided .approved ∧ row'.run.approval = some approval ∧
      approval.proposalID = p.proposalID ∧ approval.execution = p.execution ∧
      (p.proposed.executable = true → ∃ e, p.execution = some e ∧ e.status ≠ .failed ∧
        ⟨p.key, p.proposed, e⟩ ∈ w.carried) := by
  have inv : Backing w := reached.invariant (.initial rows) fun _ inv _ recorded => inv.step recorded
  have other : w.desk.rows.get? key = some row' → False := by
    intro same
    cases before.symm.trans same
    exact unsettled succeeds
  cases at_job : w.jobs job with
  | none =>
    simp only [Office.step, at_job] at after
    exact (other after).elim
  | some under =>
    simp only [Office.step, at_job, Office.goOn] at after
    have backed := inv.jobs job under at_job
    generalize made : under.advance host now w.desk = progress at after
    have proceeds := made ▸ under.proceeds host now w.desk
    cases proceeds with
    | stops | read | looked | swapped | executed => exact (other after).elim
    | @resolved p principal =>
      obtain ⟨approved, fine, approval, has, named, execution⟩ :=
        resolveProposal_succeeds before after unsettled succeeds
      refine ⟨p, principal, approval, rfl, approved, has, named, execution, fun executable => ?_⟩
      obtain ⟨e, recorded, evidenced⟩ := backed approved executable
      rw [recorded] at fine
      exact ⟨e, recorded, fun failed => fine (congrArg some failed), evidenced executable⟩

/-! ### Samples -/

/-- The approval is stored and its worker crashes; the request is repeated. -/
def repeatedApproval : List OfficeAction :=
  raises 10 :: approves 1 :: goes 1 [20, 20, 20] ++ [.crash 1, approves 2] ++ goes 2 [30]

/-- The task succeeds, and the effect was never carried out. -/
theorem approval_succeeds_unexecuted :
    ∃ w job host now row row', Reaches Office.step (fun _ _ => True) (.initial waitingDesk.rows) w ∧
      w.desk.rows.get? (1, 7) = some row ∧
      (w.step (.advance job host now)).desk.rows.get? (1, 7) = some row' ∧
      row.run.status = .waitingApproval ∧ row'.run.status = .succeeded ∧
      (∃ p principal, w.jobs job = some (.resolve p principal) ∧ p.proposed.executable = true) ∧
      w.carried = [] := by
  have before : ((afterActions repeatedApproval).desk.rows.get? (1, 7)).map (·.run.status) =
      some .waitingApproval := by decide
  have after : (((afterActions repeatedApproval).step (.advance 2 workingHost 31)).desk.rows.get?
      (1, 7)).map (·.run.status) = some .succeeded := by decide
  have under : ((afterActions repeatedApproval).jobs 2).any (fun
      | .resolve p _ => p.proposed.executable
      | _ => false) = true := by decide
  obtain ⟨row, found, waiting⟩ := Option.map_eq_some_iff.mp before
  obtain ⟨row', found', succeeded⟩ := Option.map_eq_some_iff.mp after
  obtain ⟨job, at_job, resolves⟩ := (Option.any_eq_true _ _).mp under
  refine ⟨afterActions repeatedApproval, 2, workingHost, 31, row, row', reaches_afterActions _, found,
    found', waiting, succeeded, ?_, rfl⟩
  cases job with
  | resolve p principal => exact ⟨p, principal, at_job, resolves⟩
  | asked | look | swap | execute => cases resolves

instance (desk : Desk) (k : ProposalKey) (P : Proposal → Prop) [DecidablePred P] :
    Decidable (∀ p, desk.proposals.get? k = some p → P p) :=
  inferInstanceAs (Decidable (∀ p ∈ desk.proposals.get? k, P p))

instance (w : Office) : (action : OfficeAction) → Decidable (Recorded w action)
  | .create .. | .hostDraft .. => inferInstanceAs (Decidable (_ = none))
  | .store .. | .decide .. => inferInstanceAs (Decidable False)
  | .advance job _ _ => by
    dsimp only [Recorded]
    rcases w.jobs job with _ | _ | _ | _ | _ | _ <;> infer_instance
  | .ask .. | .crash _ | .tasks _ => inferInstanceAs (Decidable True)

/-- The whole approval but for the task, and then the task. -/
def uninterruptedApproval : List OfficeAction :=
  raises 10 :: approves 1 :: goes 1 [20, 20, 20, 20, 21, 21]

theorem uninterrupted_approval_is_executed :
    ∃ (p : Proposal) (e : Execution), p.proposed.executable = true ∧ e.status ≠ .failed ∧
      ⟨p.key, p.proposed, e⟩ ∈ (afterActions uninterruptedApproval).carried := by
  have before : ((afterActions uninterruptedApproval).desk.rows.get? (1, 7)).map (·.run.status) =
      some .waitingApproval := by decide
  have after : (((afterActions uninterruptedApproval).step (.advance 1 workingHost 22)).desk.rows.get?
      (1, 7)).map (·.run.status) = some .succeeded := by decide
  have under : ((afterActions uninterruptedApproval).jobs 1).any (fun
      | .resolve p _ => p.proposed.executable
      | _ => false) = true := by decide
  have reached : Reaches Office.step Recorded (.initial waitingDesk.rows)
      (afterActions uninterruptedApproval) :=
    .decided uninterruptedApproval (by decide)
  obtain ⟨row, found, waiting⟩ := Option.map_eq_some_iff.mp before
  obtain ⟨row', found', succeeded⟩ := Option.map_eq_some_iff.mp after
  obtain ⟨job, at_job, resolves⟩ := (Option.any_eq_true _ _).mp under
  obtain ⟨p, principal, approval, at_job', _, _, _, _, executed⟩ :=
    approved_means_executed reached found found' (by rw [waiting]; exact nofun) succeeded
  cases at_job.symm.trans at_job'
  obtain ⟨e, _, fine, carried⟩ := executed resolves
  exact ⟨p, e, resolves, fine, carried⟩

end DomainryAgent.AgentTask
