import DomainryAgent.TaskRecords

/-!
How the delegating side learns of what became of its work.

A run that ends and thereby changes the status of its delegation leaves a notice
for the delegating conversation (`Announced`).  The id of the notice names the
delegation and the run, and a second one with the same id is dropped: a run that
is resumed after it was announced ends a second time in silence.
-/

namespace DomainryAgent

open Lib Tx Table Protocol Refinement

variable {s u : Db}

/-- Between two states a run of a delegation's current task ended, and the
status of the delegation changed. -/
structure Settles (s u : Db) (d d' : Delegation) (row row' : RunRow) : Prop where
  before : s.delegations.get? d.id = some d
  run : s.runs.get? row.run.id = some row
  current : row.run.background.map (·.taskID) = some d.taskID
  isOpen : row.run.status.terminal = false
  after : u.delegations.get? d.id = some d'
  run' : u.runs.get? row.run.id = some row'
  ended : row'.run.status.terminal = true
  changed : d'.status ≠ d.status

/-- A notice to the delegating conversation of how a run ended, which can be
delivered. -/
structure Announces (u : Db) (d : Delegation) (run : Run) (m : PeerMessage) : Prop where
  stored : u.peerMessages.get? (.outcome d.id run.id) = some m
  kind : m.kind = .taskOutcome run.status
  conversation : m.conversationID = d.sourceConversationID
  pending : m.consumed = none
  ready : (peerMessageReady m m.authority).peek u = .ok true

variable {d d' : Delegation} {row row' : RunRow} {id runID : Id} {a : Authority}

variable {c : Core} {reported : Bool} {old : RunRow} {record : InteractionRecord}
  {response : InteractionResponse}

/-- What changes the status of a delegation tells it, unless the id of the notice
is taken. -/
theorem announces_of_announced {belongs : Option Id} {run : Run}
    (announced : Announced c belongs run u.delegations u.peerMessages)
    (positive : 1 ≤ d.agreementRevision) (present : d.subjectExited = false)
    (before : c.delegations.get? d.id = some d)
    (after : u.delegations.get? d.id = some d') (changed : d'.status ≠ d.status)
    (free : c.peerMessages.get? (.outcome d.id run.id) = none) : ∃ m, Announces u d' run m := by
  generalize stored : u.delegations = delegations at announced after
  generalize holds : u.peerMessages = messages at announced
  cases announced with
  | silent =>
    rw [before] at after
    cases after
    exact absurd rfl changed
  | @told e recipient _ found _ known owner =>
    by_cases here : d.id = e.id
    · rw [here, found] at before
      cases before
      have saved : (c.delegations.put (settled d run.status)).get? d.id =
          some (settled d run.status) := get?_put_self (v := settled d run.status) found
      rw [saved] at after
      cases after
      -- The id of the notice is free, so it is stored.
      cases inserted : c.peerMessages.insert?
          ((outcomeNotice (settled d run.status) run).row recipient c.now) with
      | none =>
        obtain ⟨m, taken⟩ := insert?_eq_none_iff.mp inserted
        cases free.symm.trans taken
      | some grown =>
        rw [inserted, Option.getD_some] at holds
        have written := get?_insert?_self inserted
        refine ⟨_, ⟨holds ▸ written, rfl, rfl, rfl, ?_⟩⟩
        refine ready_of_current (d := settled d run.status) (stored ▸ saved) known owner rfl
          present ?_ rfl
        refine ⟨⟨rfl, Nat.max_eq_right positive⟩, .inr rfl, ?_⟩
        exact fun _ h => nomatch h
    · rw [get?_put_of_ne (v := settled e run.status) here, before] at after
      cases after
      exact absurd rfl changed

/-- An operation either leaves the delegations or ends one run and closes its
task. -/
inductive Concludes (s t : Db) : Prop
  | stays (same : t.delegations = s.delegations)
  | ends {c mid : Core} {new : RunRow} {reported : Bool}
      (closed : TaskClosed c new.run reported mid)
      (runs : c.runs = s.runs) (delegations : c.delegations = s.delegations)
      (messages : c.peerMessages = s.peerMessages)
      (after : t.toCore = { mid with runs := mid.runs.put new })

/-- The end of one run announces it, whatever run and delegation one watches. -/
theorem announces_of_concludes {op : Op} (concludes : (exec op).Ensures s fun _ t => Concludes s t)
    (routed : s.Routed) (present : Present s.delegations)
    (settles : Settles s (s.step op) d d' row row')
    (free : s.peerMessages.get? (.outcome d.id row.run.id) = none) :
    ∃ m, Announces (s.step op) d' row'.run m := by
  rcases Tx.Ensures.commit (P := Concludes s) concludes (.stays rfl) with
    same | @⟨c, mid, new, _, closed, runs, delegations, messages, after⟩
  · -- Where the delegations stay, nothing is settled.
    have after := settles.after
    rw [Db.step, same, settles.before] at after
    cases after
    exact absurd rfl settles.changed
  change (s.step op).toCore = _ at after
  have kept : mid.runs = s.runs := by cases closed <;> exact runs
  have there : (s.runs.put new).get? row.run.id = some row' := by
    rw [← kept, ← settles.run']
    exact congrArg (fun x : Core => x.runs.get? row.run.id) after.symm
  rcases get?_put_some there with ⟨mine, rfl, _⟩ | ⟨_, unchanged⟩
  · have before : c.delegations.get? d.id = some d := delegations ▸ settles.before
    have positive : 1 ≤ d.agreementRevision := by
      obtain ⟨task, named, belongs, _⟩ := routed.assigned settles.before
      obtain ⟨_, found, bound⟩ := routed.delegated named belongs
      cases settles.before.symm.trans found
      exact (routed.positive named).trans bound
    have names : row'.run.id = row.run.id := mine.symm
    have unannounced : c.peerMessages.get? (.outcome d.id row'.run.id) = none := by
      rw [messages, names]
      exact free
    have told : (s.step op).delegations = mid.delegations ∧
        (s.step op).peerMessages = mid.peerMessages :=
      ⟨(congrArg Core.delegations after :), (congrArg Core.peerMessages after :)⟩
    have announced : ∃ belongs,
        Announced c belongs row'.run (s.step op).delegations (s.step op).peerMessages := by
      rw [told.1, told.2]
      cases closed with
      | foreground => exact ⟨none, .silent⟩
      | closed _ _ _ _ _ _ announced => exact ⟨_, announced⟩
    obtain ⟨belongs, announced⟩ := announced
    exact announces_of_announced announced positive (present _ _ settles.before) before
      settles.after settles.changed unannounced
  · -- No other run ended.
    rw [settles.run] at unchanged
    cases unchanged
    cases settles.isOpen.symm.trans settles.ended

theorem finish_concludes {claim : Claim} {content code : String} :
    (exec (.finish claim content code reported)).Ensures s fun _ t => Concludes s t := by
  simp only [exec, ensures_seqRight, ensures_pure]
  refine finish_finishes.mono ?_
  intro _ t finished
  generalize after : t.toCore = u at finished
  cases finished with
  | finished _ _ _ _ _ _ _ _ _ closed => exact .ends closed rfl rfl rfl after

theorem cancel_concludes :
    (exec (.cancel id runID a)).Ensures s fun _ t => Concludes s t := by
  simp only [exec, ensures_seqRight, ensures_pure]
  refine cancel_cancels.mono ?_
  rintro _ t ⟨old, _, cancelled⟩
  generalize after : t.toCore = u at cancelled
  cases cancelled with
  | ended => exact .stays (congrArg Core.delegations after :)
  | cancelled _ _ _ _ _ _ _ _ _ closed =>
    exact .ends closed rfl rfl rfl after

/-! ### Responses and expiries -/

theorem expireInteraction_delegations {c : Conversation} :
    (expireInteraction old c record).Ensures s (fun _ t => t.delegations = s.delegations) := by
  unfold expireInteraction
  refine ensures_ite.mpr ⟨fun _ => ?_, fun _ => ensures_pure.mpr rfl⟩
  rw [ensures_bind]
  refine closeRunInteraction_noted.mono ?_
  rintro v s₁ ⟨core₁, _⟩
  rw [ensures_bind]
  refine onlyIf_saveConversation.mono ?_
  rintro _ s₂ ⟨_, _, _, core₂⟩
  simp only [wp, ensures_event, ensures_saveRun]
  intro _ _ _ _ _ _ _ _
  have first : s₁.delegations = s.delegations := congrArg Core.delegations core₁
  have second : s₂.delegations = s₁.delegations := (congrArg Core.delegations core₂ :)
  exact second.trans first

theorem applyResponse_delegations {c : Conversation} {status : InteractionStatus} :
    (applyResponse c old record response status a).Ensures s (fun _ t =>
      t.delegations = s.delegations) := by
  simp only [applyResponse, wp]
  refine writeInteraction_core.mono ?_
  intro _ s₁ core₁
  simp only [ensures_insertMessage, ensures_saveConversation, ensures_event, ensures_saveRun]
  intro _ _ _ _ _ _ _ _ _ _ _ _ _ _ _ _
  exact congrArg Core.delegations core₁

/-- A response ends a run without its task, so no delegation changes. -/
theorem respondExecution_delegations : (respondExecution id runID response a).Ensures s (fun _ t =>
      t.delegations = s.delegations) := by
  simp only [respondExecution, wp, ensures_getConversation, ensures_runRow]
  intro _ _ c held _ old found conversation principal record chosen
  split
  · exact ensures_demand.mpr (fun _ => rfl)
  · simp only [wp]
    intro _ _
    refine ensures_ite.mpr ⟨fun _ => expireInteraction_delegations, fun _ => ?_⟩
    simp only [wp]
    intro _ status _
    refine ensures_ite.mpr ⟨fun _ => applyResponse_delegations, fun _ => ?_⟩
    simp only [wp, ensures_checkConversationQueueCapacity]
    exact fun _ => applyResponse_delegations

theorem expireRunInteraction_delegations :
    (expireRunInteraction runID).Ensures s (fun _ t => t.delegations = s.delegations) := by
  simp only [expireRunInteraction, wp]
  intro row found
  split
  · exact ensures_pure.mpr rfl
  · refine ensures_ite.mpr ⟨fun _ => ?_, fun _ => ensures_pure.mpr rfl⟩
    simp only [wp, ensures_getConversation]
    intro _ c held _
    split
    · exact ensures_pure.mpr rfl
    · exact expireInteraction_delegations

/-! ### Every outcome -/

/-- An operation that ends no run settles nothing. -/
theorem settled_by_end (wf : WellFormed s) {op : Op} (settles : Settles s (s.step op) d d' row row') :
    endsRuns op = true := by
  by_contra quiet
  have kept : ¬Raises s op .ends := by
    intro raises
    cases raises with
    | ends ends => exact quiet ends
  obtain ⟨later, there, isOpen⟩ := wf.along (P := fun c => ∃ later,
    c.runs.get? row.run.id = some later ∧ later.run.status.terminal = false) op
    ⟨row, settles.run, settles.isOpen⟩ fun _ _ step _ _ ⟨_, there, isOpen⟩ =>
      step.open_stays kept there isOpen
  cases settles.run'.symm.trans there
  cases settles.ended.symm.trans isOpen

/-- **Outcomes are announced.**  Whenever an operation other than a control of
the delegation ends a run of its current task and the delegation changes its
status, a notice of that outcome to the delegating conversation is pending and
ready, provided that nothing has been announced of this run before.  A control
writes the status itself before it stops the run, and the end of a run leaves a
delegation in such a status alone. -/
theorem outcomes_are_announced (reached : Reachable s) :
    (∀ op d d' row row', (∀ id update a, op ≠ .updateDelegation id update a) →
      Settles s (s.step op) d d' row row' →
      s.peerMessages.get? (.outcome d.id row.run.id) = none →
      ∃ m, Announces (s.step op) d' row'.run m) ∧
    ∀ id runID a t row b task d, transitionRun id runID a false s = .ok ((), t) →
      s.runs.get? runID = some row → row.run.background = some b →
      s.tasks.get? b.taskID = some task → task.delegationID = some d.id →
      s.delegations.get? d.id = some d →
      ¬(d.status = .accepted ∨ d.status = .running ∨ d.status = .delivered) →
      t.delegations = s.delegations ∧ t.peerMessages = s.peerMessages := by
  have wf := reached.wellFormed
  have present : Present s.delegations :=
    reached.invariant (P := fun u => Present u.delegations) (fun _ _ _ _ there => nomatch there)
      fun _ _ _ _ _ _ step _ _ => step.present
  constructor
  · intro op d d' row row' uncontrolled settles free
    have ends := settled_by_end wf settles
    cases op with
    | finish => exact announces_of_concludes finish_concludes wf.routed present settles free
    | cancel => exact announces_of_concludes cancel_concludes wf.routed present settles free
    | respondExecution id runID response a =>
      refine announces_of_concludes ?_ wf.routed present settles free
      simpa only [exec, ensures_seqRight, ensures_pure] using
        respondExecution_delegations.mono fun _ _ => Concludes.stays
    | expireInteraction runID =>
      refine announces_of_concludes ?_ wf.routed present settles free
      simpa only [exec, ensures_seqRight, ensures_pure] using
        expireRunInteraction_delegations.mono fun _ _ => Concludes.stays
    | updateDelegation id update a => exact absurd rfl (uncontrolled id update a)
    | _ => cases ends
  · intro id runID a t row b task d stops found background named belongs before rests
    obtain ⟨old, found', cancelled⟩ := cancel_cancels _ _ stops
    rw [found] at found'
    cases found'
    generalize after : t.toCore = u at cancelled
    have silent : u.delegations = s.delegations ∧ u.peerMessages = s.peerMessages := by
      cases cancelled with
      | ended => exact ⟨rfl, rfl⟩
      | cancelled _ _ same _ _ _ _ _ _ closed =>
        cases closed with
        | foreground => exact ⟨rfl, rfl⟩
        | closed background' named' _ _ _ _ announced =>
          rw [same.background, background] at background'
          cases background'
          rw [named] at named'
          cases named'
          cases announced with
          | silent => exact ⟨rfl, rfl⟩
          | told its found executes =>
            have same := Option.some.inj (belongs.symm.trans its)
            rw [← same, before] at found
            cases found
            exact absurd executes rests
    subst after
    exact silent

/-- The run `r` of the delegation `id` settles it. -/
abbrev SettlesRun (s u : Db) (id r : Id) : Prop :=
  ∃ d, s.delegations.get? id = some d ∧ ∃ row, s.runs.get? r = some row ∧
    ∃ d', u.delegations.get? id = some d' ∧ ∃ row', u.runs.get? r = some row' ∧
      row.run.background.map (·.taskID) = some d.taskID ∧ row.run.status.terminal = false ∧
        row'.run.status.terminal = true ∧ d'.status ≠ d.status

theorem settles_of_run {r : Id} (settles : SettlesRun s u id r) :
    ∃ d d' row row', Settles s u d d' row row' ∧ d.id = id ∧ row.run.id = r := by
  obtain ⟨d, before, row, run, d', after, row', run', current, isOpen, ended, changed⟩ := settles
  have names : d.id = id := key_of_get? before
  have key : row.key = r := key_of_get? run
  have runs : row.run.id = r := key
  exact ⟨d, d', row, row', ⟨names ▸ before, runs ▸ run, current, isOpen, names ▸ after, runs ▸ run',
    ended, changed⟩, names, runs⟩

/-- The delegated run is completed. -/
def completesRun (fence : Nat) : Op := .finish { delegatedClaim with fence := fence } "done" "" true

/-- The first end of a delegated run. -/
theorem first_outcome_is_announced : ∃ d d' row row',
    Settles (afterOps launchedDelegation) ((afterOps launchedDelegation).step (completesRun 1))
      d d' row row' ∧
    ∃ m, Announces ((afterOps launchedDelegation).step (completesRun 1)) d' row'.run m := by
  have settles : SettlesRun (afterOps launchedDelegation)
      ((afterOps launchedDelegation).step (completesRun 1)) 3 20 := by decide +kernel
  have free : (afterOps launchedDelegation).peerMessages.get? (.outcome 3 20) = none := by
    decide +kernel
  obtain ⟨d, d', row, row', settles, names, runs⟩ := settles_of_run settles
  refine ⟨d, d', row, row', settles,
    (outcomes_are_announced (reachable_afterOps launchedDelegation)).1 _ d d' row row' ?_ settles ?_⟩
  · exact fun _ _ _ h => nomatch h
  · rw [names, runs]
    exact free

/-- The run fails, which is announced, and is taken up again. -/
def resumedDelegation : List Op :=
  launchedDelegation ++
    [.finish delegatedClaim "" "failed" true, .resume 2 20 sampleUser, .claim 1 7 1000 []]

/-- The delegation changes from running to awaiting its delivery, and no message
is added: the one there is tells of the failure. -/
theorem second_outcome_is_dropped :
    ∃ s, Reachable s ∧ ∃ d d' row row', Settles s (s.step (completesRun 3)) d d' row row' ∧
      d'.status = .awaitingDelivery ∧ (s.step (completesRun 3)).peerMessages = s.peerMessages ∧
      ¬∃ m, Announces (s.step (completesRun 3)) d' row'.run m := by
  have settles : SettlesRun (afterOps resumedDelegation)
      ((afterOps resumedDelegation).step (completesRun 3)) 3 20 := by decide +kernel
  have status : ∀ d ∈ ((afterOps resumedDelegation).step (completesRun 3)).delegations.rows,
      d.status = .awaitingDelivery := by decide +kernel
  have completed : ∀ row ∈ ((afterOps resumedDelegation).step (completesRun 3)).runs.rows,
      row.run.status = .completed := by decide +kernel
  have failures : ∀ m ∈ ((afterOps resumedDelegation).step (completesRun 3)).peerMessages.rows,
      m.kind ≠ .taskOutcome .completed := by decide +kernel
  obtain ⟨d, d', row, row', settles, _, _⟩ := settles_of_run settles
  refine ⟨_, reachable_afterOps resumedDelegation, d, d', row, row', settles, ?_, by rfl, ?_⟩
  · exact status d' (mem_of_get? settles.after)
  · rintro ⟨m, announces⟩
    have kind := announces.kind
    rw [completed row' (mem_of_get? settles.run')] at kind
    exact failures m (mem_of_get? announces.stored) kind

end DomainryAgent
