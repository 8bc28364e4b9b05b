import DomainryAgent.AgentTask.Decisions

/-!
A decided proposal stays decided, and its effect is carried out once.

A decision is stored over the version that was read: the stamp tells versions
apart as long as the clock goes on between two writes of a proposal.  Creating
and storing proposals is not guarded like that, so nothing holds once a proposal
is stored over another one.
-/

namespace DomainryAgent.AgentTask

open Lib Table

/-! ### Decided once -/

section Once

variable {host : ProposalHost} {now : Time} {desk desk' : Desk} {w : Office} {k : ProposalKey}

/-- The proposal is stored with this stamp or a later one; with this stamp, it
is as `P` says. -/
def Stamped (desk : Desk) (k : ProposalKey) (stamp : Time) (P : Proposal → Prop) : Prop :=
  ∃ row, desk.proposals.get? k = some row ∧ stamp ≤ row.updatedAt ∧ (row.updatedAt = stamp → P row)

/-- The decision may be stored over this proposal: it is a draft, or it was
decided so before.  What is yet to be carried out was a draft. -/
def Fits (decision : ProposalDecision) : After → Proposal → Prop
  | .execute .., row => row.status = .draft
  | _, row => row.status = .draft ∨ row.status = .decided decision.decision

/-- What follows belongs to the decision. -/
def After.Of (decision : ProposalDecision) (principal : Principal) : After → Prop
  | .execute ask _ => ask.principal = principal ∧ ask.decision = decision.decision
  | _ => True

/-- What a job has read is still there, or a later version of it. -/
def Job.InStep (desk : Desk) : Job → Prop
  | .look _ _ .done => True
  | .look decision principal after =>
    after.Of decision principal ∧ decision.expectedUpdatedAt ≠ 0 ∧
      Stamped desk (proposalKey principal decision.proposalID) decision.expectedUpdatedAt
        (Fits decision after)
  | .swap value decision principal after =>
    after.Of decision principal ∧ value.key = proposalKey principal value.proposalID ∧
      Fits decision after value ∧ Stamped desk value.key value.updatedAt (· = value)
  | .execute ask p _ =>
    p.key = proposalKey ask.principal p.proposalID ∧ p.status = .decided ask.decision ∧
      p.updatedAt ≠ 0 ∧ Stamped desk p.key p.updatedAt (· = p)
  | _ => True

/-- The clock has gone on since the proposal was last written. -/
def Later (desk : Desk) (k : ProposalKey) (now : Time) : Prop :=
  0 < now ∧ ∀ row, desk.proposals.get? k = some row → row.updatedAt < now

/-- What `DecideProposal` of the state service finds when it is asked directly. -/
def Repeats (desk : Desk) (decision : ProposalDecision) (principal : Principal) : Prop :=
  ∀ row, desk.proposals.get? (proposalKey principal decision.proposalID) = some row →
    row.status = .draft ∨ row.status = .decided decision.decision

/-- No proposal is stored over another one, the state service is not asked to
decide otherwise, and the clock goes on between two writes of a proposal. -/
def Orderly (w : Office) : OfficeAction → Prop
  | .create _ request now =>
    w.desk.proposals.get? (proposalKey request.principal request.proposalID) = none ∧ 0 < now
  | .hostDraft _ draft derived principal now =>
    w.desk.proposals.get? (proposalKey principal (draft.proposalID.getD derived)) = none ∧ 0 < now
  | .store record now => w.desk.proposals.get? record.key = none ∧ 0 < now
  | .advance job _ now =>
    match w.jobs job with
    | some (.look decision principal .done) => Repeats w.desk decision principal
    | some (.swap value _ _ _) => Later w.desk value.key now
    | _ => True
  | _ => True

/-- A job is about to carry out the effect of a proposal. -/
def Executing (w : Office) (job : Id) (k : ProposalKey) : Prop :=
  ∃ ask p executor, w.jobs job = some (.execute ask p executor) ∧ p.key = k

/-- How often the effect of a proposal was carried out. -/
def carriedOut (w : Office) (k : ProposalKey) : Nat := (w.carried.filter (·.key = k)).length

/-- The effect is carried out once: while the proposal is a draft it is not
under way, and then one job has it. -/
structure Once (w : Office) (k : ProposalKey) : Prop where
  fresh : (∀ row, w.desk.proposals.get? k = some row → row.status = .draft) →
    carriedOut w k = 0 ∧ ∀ job, ¬Executing w job k
  single : carriedOut w k ≤ 1
  spent : carriedOut w k ≠ 0 → ∀ job, ¬Executing w job k
  only : ∀ i j, Executing w i k → Executing w j k → i = j

structure Orderliness (w : Office) : Prop where
  positive : ∀ k row, w.desk.proposals.get? k = some row → row.updatedAt ≠ 0
  jobs : ∀ i job, w.jobs i = some job → job.InStep w.desk
  once : ∀ k, Once w k

/-- What a statement does to the stored proposals: nothing, or it adds one, or it
writes one later than it was. -/
inductive Rewrites (desk desk' : Desk) : Prop
  | keep (same : desk'.proposals = desk.proposals) : Rewrites desk desk'
  | add {record : Proposal} (free : desk.proposals.get? record.key = none)
      (stamp : record.updatedAt ≠ 0)
      (found : ∀ k, desk'.proposals.get? k =
        if k = record.key then some record else desk.proposals.get? k) : Rewrites desk desk'
  | write {old new : Proposal} (found : desk.proposals.get? new.key = some old)
      (later : old.updatedAt < new.updatedAt)
      (decided : ∀ decision, old.status = .decided decision → new.status = old.status)
      (written : desk'.proposals = desk.proposals.put new) : Rewrites desk desk'

theorem Rewrites.stays (rewrites : Rewrites desk desk') {row : Proposal}
    (found : desk.proposals.get? k = some row) : ∃ row', desk'.proposals.get? k = some row' ∧
      (row' = row ∨ row.updatedAt < row'.updatedAt) ∧
      ∀ decision, row.status = .decided decision → row'.status = row.status := by
  cases rewrites with
  | keep same => exact ⟨row, same ▸ found, .inl rfl, fun _ _ => rfl⟩
  | @add record free _ lookup =>
    refine ⟨row, ?_, .inl rfl, fun _ _ => rfl⟩
    rw [lookup, if_neg, found]
    rintro rfl
    cases free.symm.trans found
  | @write old new there later decided written =>
    by_cases here : k = new.key
    · subst here
      cases there.symm.trans found
      exact ⟨new, by rw [written]; exact get?_put_self there, .inr later, decided⟩
    · exact ⟨row, by rw [written, get?_put_of_ne here]; exact found, .inl rfl, fun _ _ => rfl⟩

theorem Stamped.rewritten {stamp : Time} {P : Proposal → Prop} (stamped : Stamped desk k stamp P)
    (rewrites : Rewrites desk desk') : Stamped desk' k stamp P := by
  obtain ⟨row, found, reached, holds⟩ := stamped
  obtain ⟨row', found', next, _⟩ := rewrites.stays found
  rcases next with rfl | later
  · exact ⟨row', found', reached, holds⟩
  · exact ⟨row', found', reached.trans later.le, fun same => absurd same (reached.trans_lt later).ne'⟩

theorem Job.InStep.rewritten {job : Job} (inStep : job.InStep desk)
    (rewrites : Rewrites desk desk') : job.InStep desk' := by
  cases job with
  | asked | resolve => trivial
  | look decision principal after =>
    cases after with
    | done => trivial
    | execute | resolve => exact ⟨inStep.1, inStep.2.1, inStep.2.2.rewritten rewrites⟩
  | swap =>
    obtain ⟨belongs, key, fits, stamped⟩ := inStep
    exact ⟨belongs, key, fits, stamped.rewritten rewrites⟩
  | execute =>
    obtain ⟨key, decided, stamp, stamped⟩ := inStep
    exact ⟨key, decided, stamp, stamped.rewritten rewrites⟩

theorem storeProposal_rewrites {record : Proposal} (free : desk.proposals.get? record.key = none)
    (positive : 0 < now) : Rewrites desk ((storeProposal record now).commit desk) := by
  have vacant : desk.proposals.get? ({ record with updatedAt := now } : Proposal).key = none := free
  exact .add vacant positive.ne' fun k => get?_upsert _ _ k

theorem Rewrites.positive (rewrites : Rewrites desk desk')
    (before : ∀ k row, desk.proposals.get? k = some row → row.updatedAt ≠ 0) :
    ∀ k row, desk'.proposals.get? k = some row → row.updatedAt ≠ 0 := by
  intro k row there
  cases rewrites with
  | keep same => exact before k row (same ▸ there)
  | @add record free stamp lookup =>
    rw [lookup] at there
    split at there
    · cases there
      exact stamp
    · exact before k row there
  | @write old new found later _ written =>
    rw [written] at there
    rcases get?_put_some there with ⟨_, rfl, _⟩ | ⟨_, there⟩
    · exact (Nat.zero_lt_of_lt later).ne'
    · exact before k row there

variable {progress : Progress} {i : Id} {carried : List Carried}

/-- What a job goes on with is in step, and so is what it writes. -/
theorem Proceeds.inStep {job : Job} (proceeds : Proceeds host now desk job progress)
    (positive : ∀ k row, desk.proposals.get? k = some row → row.updatedAt ≠ 0)
    (inStep : job.InStep desk)
    (repeats : ∀ decision principal, job = .look decision principal .done →
      Repeats desk decision principal)
    (later : ∀ value decision principal after, job = .swap value decision principal after →
      Later desk value.key now) :
    Rewrites desk progress.desk ∧ ∀ next, progress.job = some next → next.InStep progress.desk := by
  have now_there : ∀ {k row}, desk.proposals.get? k = some row → ∀ {P : Proposal → Prop}, P row →
      Stamped desk k row.updatedAt P := fun found _ holds => ⟨_, found, le_rfl, fun _ => holds⟩
  cases proceeds with
  | stops => exact ⟨.keep rfl, fun _ none => nomatch none⟩
  | @read ask p next found goes =>
    refine ⟨.keep rfl, ?_⟩
    rintro _ ⟨⟩
    have key : p.key = proposalKey ask.principal ask.proposalID := key_of_get? found
    have id : p.proposalID = ask.proposalID := congrArg (·.2.2.2) key
    rw [← id] at found
    rcases Ask.next_cases goes with ⟨executor, draft, approved, rfl⟩ | ⟨draft, _, rfl⟩ | ⟨_, rfl⟩
    · refine ⟨⟨rfl, rfl⟩, positive _ p found, ?_⟩
      exact now_there found draft
    · refine ⟨trivial, positive _ p found, ?_⟩
      exact now_there found (.inl draft)
    · trivial
  | @looked decision principal after value found same =>
    refine ⟨.keep rfl, ?_⟩
    rintro _ ⟨⟩
    have key : value.key = proposalKey principal decision.proposalID := key_of_get? found
    have id : value.proposalID = decision.proposalID := congrArg (·.2.2.2) key
    have stamped : Stamped desk value.key value.updatedAt (· = value) :=
      now_there (key ▸ found) rfl
    have fits : after.Of decision principal ∧ Fits decision after value := by
      cases after with
      | done => exact ⟨trivial, repeats _ _ rfl value found⟩
      | execute ask executor | resolve =>
        obtain ⟨belongs, stamp, row, there, _, holds⟩ := inStep
        cases there.symm.trans found
        exact ⟨belongs, holds (same.resolve_left stamp).symm⟩
    exact ⟨fits.1, id ▸ key, fits.2, stamped⟩
  | @swapped value row decision principal after found same =>
    obtain ⟨belongs, key, fits, there, found', _, holds⟩ := inStep
    cases found'.symm.trans found
    obtain rfl : row = value := holds same
    obtain ⟨positive_now, after_row⟩ := later row decision principal after rfl
    have newer := after_row row found
    have rewrites : Rewrites desk { desk with
        proposals := desk.proposals.put (decidedProposal row decision principal now) } := by
      have stored : desk.proposals.get? (decidedProposal row decision principal now).key = some row :=
        found
      refine .write stored newer ?_ rfl
      intro earlier decided
      have repeated : row.status = .decided decision.decision := by
        cases after with
        | execute => cases fits.symm.trans decided
        | resolve | done => exact fits.resolve_left (fun draft => nomatch draft.symm.trans decided)
      rw [repeated]
      rfl
    refine ⟨rewrites, fun next goes => ?_⟩
    cases after with
    | done => cases goes
    | resolve => cases goes; trivial
    | execute ask executor =>
      cases goes
      refine ⟨?_, congrArg ProposalStatus.decided belongs.2.symm, positive_now.ne', _,
        get?_put_self found, le_rfl, fun _ => rfl⟩
      rw [belongs.1]
      exact key
  | @executed ask p executor carried =>
    obtain ⟨key, decided, stamp, row, found, reached, holds⟩ := inStep
    refine ⟨.keep rfl, ?_⟩
    rintro _ ⟨⟩
    refine ⟨trivial, stamp, row, key ▸ found, reached, fun same => .inr ?_⟩
    rw [holds same]
    exact decided
  | resolved =>
    exact ⟨.keep (resolveProposal_proposals _ _ _ _), fun _ none => nomatch none⟩

variable {w' : Office} {job : Id} {next : Option Job}

/-- An action that starts no effect and carries none out. -/
theorem Once.mono (once : Once w k) (rewrites : Rewrites w.desk w'.desk)
    (carried : carriedOut w' k = carriedOut w k)
    (executing : ∀ job, Executing w' job k → Executing w job k) : Once w' k := by
  have drafts : (∀ row, w'.desk.proposals.get? k = some row → row.status = .draft) →
      ∀ row, w.desk.proposals.get? k = some row → row.status = .draft := by
    intro all row found
    obtain ⟨row', found', _, decided⟩ := rewrites.stays found
    cases status : row.status with
    | draft => rfl
    | decided decision =>
      have kept := decided decision status
      rw [all row' found', status] at kept
      cases kept
  refine ⟨fun all => ?_, carried ▸ once.single, fun spent job busy => ?_, fun i j first second => ?_⟩
  · obtain ⟨none, idle⟩ := once.fresh (drafts all)
    exact ⟨carried.trans none, fun job busy => idle job (executing job busy)⟩
  · exact once.spent (carried ▸ spent) job (executing job busy)
  · exact once.only i j (executing i first) (executing j second)

theorem executing_update {desk : Desk}
    (busy : Executing ⟨desk, Function.update w.jobs job next, carried⟩ i k) :
    (i = job ∧ ∃ ask p executor, next = some (.execute ask p executor) ∧ p.key = k) ∨
      i ≠ job ∧ Executing w i k := by
  obtain ⟨ask, p, executor, at_job, key⟩ := busy
  dsimp only at at_job
  by_cases here : i = job
  · subst here
    rw [Function.update_self] at at_job
    exact .inl ⟨rfl, ask, p, executor, at_job, key⟩
  · rw [Function.update_of_ne here] at at_job
    exact .inr ⟨here, ask, p, executor, at_job, key⟩

/-- A job that was not about to carry out an effect, and is not now. -/
theorem executing_of_idle {desk : Desk}
    (idle : ∀ ask p executor, next ≠ some (.execute ask p executor))
    (busy : Executing ⟨desk, Function.update w.jobs job next, carried⟩ i k) : Executing w i k := by
  rcases executing_update busy with ⟨_, ask, p, executor, goes, _⟩ | ⟨_, busy⟩
  · exact absurd goes (idle ask p executor)
  · exact busy

/-- The decision to execute is stored over a draft, so nothing has the effect
under way. -/
theorem Once.started (once : Once w k) (job : Id) {old new : Proposal}
    (found : w.desk.proposals.get? k = some old) (draft : old.status = .draft)
    (found' : w'.desk.proposals.get? k = some new) (decided : new.status ≠ .draft)
    (carried : carriedOut w' k = carriedOut w k)
    (executing : ∀ i, Executing w' i k → i = job ∨ Executing w i k) : Once w' k := by
  obtain ⟨none, idle⟩ := once.fresh fun row there => by
    cases there.symm.trans found
    exact draft
  have mine : ∀ i, Executing w' i k → i = job := fun i busy =>
    (executing i busy).resolve_right (idle i)
  refine ⟨fun all => absurd (all new found') decided, carried ▸ once.single, fun spent => ?_,
    fun i j first second => (mine i first).trans (mine j second).symm⟩
  exact absurd (carried.trans none) spent

/-- The job that had the effect under way has carried it out. -/
theorem Once.finished (once : Once w k) (busy : Executing w job k)
    (desk : w'.desk.proposals = w.desk.proposals) (carried : carriedOut w' k ≤ carriedOut w k + 1)
    (executing : ∀ i, Executing w' i k → i ≠ job ∧ Executing w i k) : Once w' k := by
  have none : carriedOut w k = 0 := by
    by_contra spent
    exact once.spent spent job busy
  have idle : ∀ i, ¬Executing w' i k := fun i again =>
    (executing i again).1 (once.only i job (executing i again).2 busy)
  refine ⟨fun all => ?_, by omega, fun _ => idle, fun i j first _ => absurd first (idle i)⟩
  exact absurd busy ((once.fresh (desk ▸ all)).2 job)

theorem carriedOut_cons (w : Office) (k : ProposalKey) (c : Carried) :
    carriedOut { w with carried := c :: w.carried } k =
      carriedOut w k + if c.key = k then 1 else 0 := by
  unfold carriedOut
  by_cases here : c.key = k
  · simp [here]
  · simp [here]

theorem Proceeds.once {under : Job} (proceeds : Proceeds host now w.desk under progress)
    (at_job : w.jobs job = some under) (inStep : under.InStep w.desk)
    (rewrites : Rewrites w.desk progress.desk) (once : Once w k) :
    Once (w.goOn job progress) k := by
  cases proceeds with
  | stops | resolved =>
    exact once.mono rewrites rfl fun _ => executing_of_idle fun _ _ _ none => nomatch none
  | read _ goes =>
    refine once.mono rewrites rfl fun _ => executing_of_idle fun ask p executor same => ?_
    cases same
    rcases Ask.next_cases goes with ⟨_, _, _, other⟩ | ⟨_, _, other⟩ | ⟨_, other⟩ <;> cases other
  | looked =>
    exact once.mono rewrites rfl fun _ => executing_of_idle fun _ _ _ same => nomatch same
  | @swapped value row decision principal after found same =>
    obtain ⟨_, _, fits, _, found', _, holds⟩ := inStep
    cases found'.symm.trans found
    obtain rfl : row = value := holds same
    cases after with
    | done => exact once.mono rewrites rfl fun _ => executing_of_idle fun _ _ _ none => nomatch none
    | resolve => exact once.mono rewrites rfl fun _ => executing_of_idle fun _ _ _ same => nomatch same
    | execute ask executor =>
      by_cases here : row.key = k
      · subst here
        refine once.started job found fits (get?_put_self found) nofun
          rfl fun i busy => ?_
        exact (executing_update busy).imp And.left And.right
      · refine once.mono rewrites rfl fun i busy => ?_
        rcases executing_update busy with ⟨_, _, p, _, goes, key⟩ | ⟨_, busy⟩
        · cases goes
          exact absurd key here
        · exact busy
  | @executed ask p executor carried carries =>
    have next : ∀ i, Executing (w.goOn job ⟨some (.look (ask.storing p (some (execute host p executor)))
        ask.principal .resolve), w.desk, carried⟩) i k → i ≠ job ∧ Executing w i k := by
      intro i busy
      rcases executing_update busy with ⟨_, _, _, _, goes, _⟩ | kept
      · cases goes
      · exact kept
    by_cases here : p.key = k
    · have busy : Executing w job k := ⟨ask, p, executor, at_job, here⟩
      refine once.finished busy rfl ?_ next
      rw [carries]
      split
      · have count := carriedOut_cons w k ⟨p.key, p.proposed, execute host p executor⟩
        rw [if_pos here] at count
        exact count.le
      · exact Nat.le_succ _
    · refine once.mono rewrites ?_ fun i busy => (next i busy).2
      rw [carries]
      split
      · have count := carriedOut_cons w k ⟨p.key, p.proposed, execute host p executor⟩
        rw [if_neg here] at count
        exact count
      · rfl

theorem Orderliness.initial (rows : Rows) : Orderliness (.initial rows) where
  positive k row found := by simp [Office.initial] at found
  jobs i job at_job := nomatch at_job
  once k := ⟨fun _ => ⟨rfl, fun _ busy => by obtain ⟨_, _, _, at_job, _⟩ := busy; cases at_job⟩,
    Nat.zero_le _, fun spent => absurd rfl spent,
    fun _ _ busy => by obtain ⟨_, _, _, at_job, _⟩ := busy; cases at_job⟩

/-- A change of the tables beside the jobs. -/
theorem Orderliness.onDesk (inv : Orderliness w) (rewrites : Rewrites w.desk desk') :
    Orderliness { w with desk := desk' } where
  positive := rewrites.positive inv.positive
  jobs i job at_job := (inv.jobs i job at_job).rewritten rewrites
  once k := (inv.once k).mono rewrites rfl fun _ busy => busy

/-- One job goes on and the others stay. -/
theorem all_jobs_update {P : Job → Prop} (fine : ∀ under, next = some under → P under)
    (others : ∀ i under, w.jobs i = some under → P under) (i : Id) (under : Job)
    (at_job : Function.update w.jobs job next i = some under) : P under := by
  by_cases here : i = job
  · subst here
    rw [Function.update_self] at at_job
    exact fine under at_job
  · rw [Function.update_of_ne here] at at_job
    exact others i under at_job

/-- A request comes in, or is lost. -/
theorem Orderliness.update (inv : Orderliness w)
    (fine : ∀ under, next = some under → under.InStep w.desk)
    (idle : ∀ ask p executor, next ≠ some (.execute ask p executor)) :
    Orderliness { w with jobs := Function.update w.jobs job next } where
  positive := inv.positive
  jobs := all_jobs_update fine inv.jobs
  once k := (inv.once k).mono (.keep rfl) rfl fun _ busy => executing_of_idle idle busy

/-- What an orderly action keeps, and what it does to the proposals. -/
theorem Orderliness.step (inv : Orderliness w) {action : OfficeAction} (orderly : Orderly w action) :
    Orderliness (w.step action) ∧ Rewrites w.desk (w.step action).desk := by
  cases action with
  | create contracts request now =>
    have free : w.desk.proposals.get? (createdProposal contracts request).key = none := orderly.1
    have rewrites := storeProposal_rewrites free orderly.2
    exact ⟨inv.onDesk rewrites, rewrites⟩
  | hostDraft contracts draft derived principal now =>
    have rewrites : Rewrites w.desk
        ((createHostDraft contracts draft derived principal now).commit w.desk) := by
      unfold createHostDraft
      split
      · exact .keep rfl
      · exact storeProposal_rewrites orderly.1 orderly.2
    exact ⟨inv.onDesk rewrites, rewrites⟩
  | store record now =>
    have rewrites := storeProposal_rewrites orderly.1 orderly.2
    exact ⟨inv.onDesk rewrites, rewrites⟩
  | ask job ask | decide job decision principal =>
    refine ⟨inv.update ?_ (fun _ _ _ same => nomatch same), .keep rfl⟩
    rintro _ ⟨⟩
    trivial
  | crash job =>
    exact ⟨inv.update (fun _ none => nomatch none) (fun _ _ _ none => nomatch none), .keep rfl⟩
  | tasks rows =>
    have rewrites : Rewrites w.desk { w.desk with rows := rows } := .keep rfl
    exact ⟨inv.onDesk rewrites, rewrites⟩
  | advance job host now =>
    cases at_job : w.jobs job with
    | none =>
      have same : w.step (.advance job host now) = w := by simp only [Office.step, at_job]
      rw [same]
      exact ⟨inv, .keep rfl⟩
    | some under =>
      have goes : w.step (.advance job host now) = w.goOn job (under.advance host now w.desk) := by
        simp only [Office.step, at_job]
      simp only [Orderly, at_job] at orderly
      have inStep := inv.jobs job under at_job
      have proceeds := under.proceeds host now w.desk
      obtain ⟨rewrites, next⟩ := proceeds.inStep inv.positive inStep
        (by rintro decision principal rfl; exact orderly)
        (by rintro value decision principal after rfl; exact orderly)
      rw [goes]
      refine ⟨⟨rewrites.positive inv.positive, all_jobs_update next ?_, fun k =>
        proceeds.once at_job inStep rewrites (inv.once k)⟩, rewrites⟩
      exact fun i under' at_i => (inv.jobs i under' at_i).rewritten rewrites

/-- In orderly runs a decided proposal keeps its decision, and its effect is
carried out at most once. -/
theorem decided_proposals_stay {rows : Rows} {w : Office}
    (reached : Reaches Office.step Orderly (.initial rows) w) :
    (∀ k, carriedOut w k ≤ 1) ∧
    ∀ w', Reaches Office.step Orderly w w' → ∀ k row decision,
      w.desk.proposals.get? k = some row → row.status = .decided decision →
      ∃ row', w'.desk.proposals.get? k = some row' ∧ row'.status = .decided decision := by
  have inv : Orderliness w := reached.invariant (.initial rows) fun _ inv _ orderly =>
    (inv.step orderly).1
  refine ⟨fun k => (inv.once k).single, fun w' later k row decision found decided => ?_⟩
  have both : Orderliness w' ∧ ∃ row', w'.desk.proposals.get? k = some row' ∧
      row'.status = .decided decision := by
    refine later.invariant (P := fun u => Orderliness u ∧ ∃ row', u.desk.proposals.get? k = some row' ∧
      row'.status = .decided decision) ⟨inv, row, found, decided⟩ ?_
    rintro u ⟨inv, row', found', decided'⟩ action orderly
    obtain ⟨inv', rewrites⟩ := inv.step orderly
    obtain ⟨next, there, _, kept⟩ := rewrites.stays found'
    exact ⟨inv', next, there, (kept decision decided').trans decided'⟩
  exact both.2

/-! ### Samples -/

/-- A host whose action goes through. -/
def workingHost : ProposalHost where
  resolveProposalPrincipal user role := .ok ⟨true, 1, user, role⟩
  invokeProposalAction _ _ := .ok "done"
  runProposalWorkflow _ _ := .ok "done"

/-- A tool of the sample task asks to close an order. -/
def closeOrder : HostDraft where
  proposalID := none
  title := "Close the order"
  source := "agent"
  reference := "order-1"
  proposed := some ⟨some ⟨"order", "1", "close"⟩, none, none⟩
  metadata := fun key => if key = "task_run_id" then .text "7" else .null

/-- The same draft always has the same derived id. -/
def raises (now : Time) : OfficeAction := .hostDraft [] closeOrder 5 ⟨true, 1, 2, 4⟩ now

/-- A request to approve it. -/
def approves (job : Id) : OfficeAction := .ask job
  { proposalID := 5, decision := .approved, reason := "fine", metadata := modeAndRun
    principal := ⟨true, 1, 2, 4⟩ }

/-- The next statements of a job. -/
def goes (job : Id) (times : List Time) : List OfficeAction :=
  times.map (.advance job workingHost)

/-- An approval from the request to the task. -/
def wholeApproval (job : Id) (now : Time) : List OfficeAction :=
  approves job :: goes job [now, now, now, now, now + 1, now + 1, now + 2]

/-- The state service is asked to reject whatever is stored. -/
def rejectsDirectly (job : Id) : OfficeAction := .decide job
  { proposalID := 5, decision := .rejected, reason := "", metadata := none, execution := none
    expectedUpdatedAt := 0 } ⟨true, 1, 2, 4⟩

/-- The office of the sample task after some actions. -/
def afterActions (actions : List OfficeAction) : Office :=
  runActions Office.step (.initial waitingDesk.rows) actions

/-- The status of the sample proposal. -/
def sampleStatus (w : Office) : Option ProposalStatus :=
  (w.desk.proposals.get? (1, 2, 4, 5)).map (·.status)

theorem reaches_afterActions (actions : List OfficeAction) :
    Reaches Office.step (fun _ _ => True) (.initial waitingDesk.rows) (afterActions actions) :=
  Reaches.start.runActions actions fun _ _ _ => trivial

/-- A draft raised again takes the place of the approved proposal, its effect is
carried out again, and the state service decides otherwise. -/
theorem approved_proposal_is_undone :
    (∃ w w', Reaches Office.step (fun _ _ => True) (.initial waitingDesk.rows) w ∧
      Reaches Office.step (fun _ _ => True) w w' ∧ sampleStatus w = some (.decided .approved) ∧
      sampleStatus w' = some .draft) ∧
    (∃ w, Reaches Office.step (fun _ _ => True) (.initial waitingDesk.rows) w ∧
      carriedOut w (1, 2, 4, 5) = 2) ∧
    ∃ w w', Reaches Office.step (fun _ _ => True) (.initial waitingDesk.rows) w ∧
      Reaches Office.step (fun _ _ => True) w w' ∧ sampleStatus w = some (.decided .approved) ∧
      sampleStatus w' = some (.decided .rejected) := by
  have onward : ∀ before after, Reaches Office.step (fun _ _ => True) (afterActions before)
      (runActions Office.step (afterActions before) after) :=
    fun before after => Reaches.start.runActions after fun _ _ _ => trivial
  refine ⟨⟨afterActions (raises 10 :: wholeApproval 1 20), _, reaches_afterActions _,
      onward _ [raises 30], by decide, by decide⟩,
    ⟨afterActions (raises 10 :: wholeApproval 1 20 ++ raises 30 :: wholeApproval 2 40),
      reaches_afterActions _, by decide⟩,
    ⟨afterActions (raises 10 :: wholeApproval 1 20), _, reaches_afterActions _,
      onward _ (rejectsDirectly 2 :: goes 2 [30, 31]), by decide, by decide⟩⟩

instance (desk : Desk) (k : ProposalKey) (now : Time) : Decidable (Later desk k now) :=
  inferInstanceAs (Decidable (0 < now ∧ ∀ row ∈ desk.proposals.get? k, row.updatedAt < now))

instance (desk : Desk) (decision : ProposalDecision) (principal : Principal) :
    Decidable (Repeats desk decision principal) :=
  inferInstanceAs (Decidable (∀ row ∈ desk.proposals.get? (proposalKey principal decision.proposalID),
    row.status = .draft ∨ row.status = .decided decision.decision))

instance (w : Office) (action : OfficeAction) : Decidable (Orderly w action) := by
  cases action with
  | advance job =>
    dsimp only [Orderly]
    rcases w.jobs job with _ | _ | ⟨_, _, _ | _ | _⟩ | _ | _ | _ <;> infer_instance
  | _ => dsimp only [Orderly]; infer_instance

/-- Two approvals at once, each statement at its own time: one of them carries
the effect out. -/
def racingApprovals : List OfficeAction :=
  raises 10 :: approves 1 :: approves 2 :: goes 1 [11] ++ goes 2 [12, 13] ++ goes 1 [14, 15] ++
    goes 2 [16] ++ goes 1 [17, 18, 19, 20]

theorem racing_approvals_stay_decided :
    carriedOut (afterActions racingApprovals) (1, 2, 4, 5) = 1 ∧
    (∀ k, carriedOut (afterActions racingApprovals) k ≤ 1) ∧
    ∀ w', Reaches Office.step Orderly (afterActions racingApprovals) w' → ∀ k row decision,
      (afterActions racingApprovals).desk.proposals.get? k = some row →
      row.status = .decided decision →
      ∃ row', w'.desk.proposals.get? k = some row' ∧ row'.status = .decided decision := by
  have reached : Reaches Office.step Orderly (.initial waitingDesk.rows) (afterActions racingApprovals) :=
    .decided racingApprovals (by decide)
  exact ⟨by decide, decided_proposals_stay reached⟩

end Once

end DomainryAgent.AgentTask
