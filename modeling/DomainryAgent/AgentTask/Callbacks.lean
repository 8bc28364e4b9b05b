import DomainryAgent.AgentTask.Cancellation

/-!
Workflow callbacks of agent tasks.

A run of a workflow process carries a callback marker.  Those who end a run set
it, each by itself: the store's own cancellation of a run that was never started
does not, nor does a dead letter whose retry was already due.  The marker turns
to delivered in two steps, a notification with the run as it was given and a mark
on the run as it is read afterwards.
-/

namespace DomainryAgent.AgentTask

open Lib

variable {rows : Rows} {action : Action} {w : World} {key : Key}

/-! ### Every run that ended reports -/

/-- A run of a workflow that has ended has its callback pending, delivered or
manually resolved. -/
def TaskRun.Reports (run : TaskRun) : Prop :=
  run.processID.isSome = true → run.status.terminal = true →
    (run.reconciliation.required = true ∧ run.reconciliation.state = .pending) ∨
      run.reconciliation.state = .delivered ∨ run.reconciliation.state = .manuallyResolved

/-- The attempt an action fails: the copy, whether to retry, the time the retry
was computed from and the time of the failure. -/
def Action.failed? : Action → Option (TaskRun × Bool × Time × Time)
  | .resume (.execute copy) (.failed _ retryable computedAt) now
  | .resume (.provider copy) (.failed _ retryable computedAt) now =>
    some (copy, retryable, computedAt, now)
  | _ => none

/-- The conditions under which no run of a workflow ends without its callback: a
cancel request finds the run started, and a retry that is left is still ahead. -/
structure CallbackSafe (_ : World) (action : Action) : Prop where
  cancel : ∀ copy ∈ action.cancelled?, ¬(copy.processID.isSome = true ∧
    (copy.status = .pending ∨ copy.status = .retryScheduled))
  retry : ∀ failed ∈ action.failed?, ¬(failed.1.processID.isSome = true ∧ failed.2.1 = true ∧
    failed.1.attempt < failed.1.maxAttempts ∧ nextAttempt failed.1 failed.2.2.1 ≤ failed.2.2.2)

instance (w : World) (action : Action) : Decidable (CallbackSafe w action) :=
  decidable_of_iff ((∀ copy ∈ action.cancelled?, ¬(copy.processID.isSome = true ∧
      (copy.status = .pending ∨ copy.status = .retryScheduled))) ∧
    ∀ failed ∈ action.failed?, ¬(failed.1.processID.isSome = true ∧ failed.2.1 = true ∧
      failed.1.attempt < failed.1.maxAttempts ∧ nextAttempt failed.1 failed.2.2.1 ≤ failed.2.2.2))
    ⟨fun both => ⟨both.1, both.2⟩, fun both => ⟨both.cancel, both.retry⟩⟩

/-- The copies that are written back as they are. -/
def Reporting (_ : Row) : Call → Prop
  | .heartbeatWrite copy _ _ _ _ | .overrideWrite copy _ _ => copy.Reports
  | .cancelWrite copy _ _ => copy.status.terminal = false
  | _ => True

variable {run : TaskRun} {reply : Reply} {calls : List Call} {events log : List Event}

theorem reports_of_live (live : run.status.terminal = false) : run.Reports := by
  intro _ terminal
  rw [live] at terminal
  cases terminal

theorem reports_of_callback
    (callback : run.processID.isSome = true → run.reconciliation = callbackPending) :
    run.Reports := by
  intro process _
  rw [callback process]
  exact .inl ⟨rfl, rfl⟩

variable {copy : TaskRun} {call : Call} {row new : Row}

theorem Completes.callback {completion : Completion}
    (completes : Completes call reply copy completion) :
    completion.reconciliation = completionCallback copy := by
  cases completes with
  | cancelled => rfl
  | @result _ result _ taken =>
    cases result with
    | completed outcome output authorization accepted =>
      simp only [taskCompletion] at taken
      split at taken
      · cases taken; rfl
      · cases taken
    | cancelled => cases taken; rfl
    | failed | unknown => cases taken

/-- A failed attempt is scheduled again, or its run reports. -/
theorem Fails.reports {now : Time} {code : String} {retryable : Bool} {computedAt : Time}
    (fails : Fails call reply now copy code retryable computedAt)
    (safe : CallbackSafe w (.resume call reply now)) :
    (failedRun (failingRun copy retryable) code retryable (nextAttempt copy computedAt)
      now).Reports := by
  have left : ¬(copy.processID.isSome = true ∧ retryable = true ∧
      copy.attempt < copy.maxAttempts ∧ nextAttempt copy computedAt ≤ now) := by
    cases fails with
    | execute | provider => exact safe.retry _ rfl
    | result => exact fun all => (nomatch all.2.1)
  by_cases marked : copy.processID.isSome = true ∧
      (retryable = false ∨ copy.maxAttempts ≤ copy.attempt)
  · apply reports_of_callback
    intro _
    simp only [failingRun, if_pos marked, failedRun]
    split <;> rfl
  · by_cases process : copy.processID.isSome = true
    · -- a retry is left, and it is ahead
      have retries : retryable = true ∧ copy.attempt < copy.maxAttempts := by
        simp only [process, true_and, not_or, Bool.not_eq_false, Nat.not_le] at marked
        exact marked
      have ahead : now < nextAttempt copy computedAt := by
        apply Nat.lt_of_not_le
        exact fun late => left ⟨process, retries.1, retries.2, late⟩
      have plain : failingRun copy retryable = copy := if_neg marked
      have scheduled : (failedRun copy code retryable (nextAttempt copy computedAt) now).status =
          .retryScheduled := by
        unfold failedRun
        dsimp only
        rw [if_pos ⟨retries.1, retries.2, ahead⟩]
      apply reports_of_live
      rw [plain, scheduled]
      rfl
    · intro has
      have contract := (failedRun_carries copy code retryable retryable
        (nextAttempt copy computedAt) now).contract
      have same : (failedRun (failingRun copy retryable) code retryable
          (nextAttempt copy computedAt) now).processID = copy.processID :=
        congrArg Contract.processID contract
      exact absurd (same ▸ has) process

theorem Change.reports (change : Change action row new calls events) (safe : CallbackSafe w action)
    (known : ∀ call reply now, action = .resume call reply now → Reporting row call)
    (inv : row.run.Reports) : new.run.Reports := by
  cases change with
  | claim => exact reports_of_live rfl
  | touch | begin | finish => exact inv
  | beat | override => exact known _ _ _ rfl
  | save saves =>
    cases saves with
    | wait => exact reports_of_live rfl
    | fail fails => exact fails.reports safe
    | complete completes =>
      apply reports_of_callback
      intro process
      exact completes.callback.trans (if_pos process)
  | @cancel _ copy reason stamp _ _ same unmoved =>
    have live : copy.status.terminal = false := known _ _ _ rfl
    obtain ended | ⟨kept, -⟩ := cancelledRun_status copy reason stamp
    · intro process
      refine absurd ⟨process, ?_⟩ (safe.cancel copy rfl)
      by_contra going
      have kept : (cancelledRun copy reason stamp).status = copy.status := if_neg going
      rw [← kept, ended] at live
      cases live
    · apply reports_of_live
      exact (congrArg Status.terminal kept).trans live
  | resolve resolves =>
    obtain ⟨approval, result, -, -, -, -, rfl⟩ := resolvedRun_key_of resolves
    exact reports_of_callback fun process => if_pos process
  | mark => exact fun _ _ => .inr (.inl rfl)
  | operate operates =>
    obtain ⟨operated, made, rfl⟩ := operatedRun_key_of operates
    obtain ⟨-, -, pending | ⟨-, resolved⟩⟩ := operatedRun_spec made
    · exact reports_of_live (congrArg Status.terminal pending)
    · exact fun _ _ => .inr (.inr resolved)

/-- The system under the conditions. -/
structure CallbackInv (w : World) : Prop where
  rows : ∀ key row, w.rows.get? key = some row → row.run.Reports
  calls : ∀ call ∈ w.calls, Held Reporting w.rows call

theorem callback_step (inv : CallbackInv w) (safe : CallbackSafe w action) :
    CallbackInv (step w action) := by
  refine step_rule inv fun t outcome taken => ⟨?_, ?_⟩
  · apply outcome.rows_all inv.rows fun _ _ => reports_of_live rfl
    intro row new calls events found change _ reports
    exact change.reports safe (fun _ _ _ is => held_of_change inv.calls taken found change is) reports
  · apply outcome.calls_all taken inv.calls
    · exact fun _ _ _ _ _ _ _ _ _ reporting => reporting
    · intro row new calls events found change call member stored
      apply change.call_cases member stored
      all_goals (intros; trivial)
    · intro calls look call member row stored found
      have reports := inv.rows _ _ found
      apply look.call_cases member stored found
      case heartbeatWrite => exact fun _ _ _ _ _ _ _ _ _ => reports
      case overrideWrite => exact fun _ _ => reports
      case cancelWrite => exact fun _ _ live _ => live
      all_goals (intros; trivial)

/-- When a cancel request finds a workflow's run started, and a retry that is
left is still ahead when an attempt fails: every run of a workflow that has ended
has its callback pending, delivered or manually resolved. -/
theorem workflow_task_reports (reached : Reaches step CallbackSafe .empty w) {row : Row}
    (found : w.rows.get? key = some row) (process : row.run.processID.isSome = true)
    (terminal : row.run.status.terminal = true) :
    (row.run.reconciliation.required = true ∧ row.run.reconciliation.state = .pending) ∨
      row.run.reconciliation.state = .delivered ∨
      row.run.reconciliation.state = .manuallyResolved := by
  have inv : CallbackInv w := by
    refine reached.invariant ?_ fun u inv action safe => callback_step inv safe
    exact ⟨fun _ _ none => (nomatch none), fun _ none => (nomatch none)⟩
  exact inv.rows key row found process terminal

/-- A workflow's task is cancelled before a worker claims it. -/
def cancelledUnstarted : List Action :=
  [.start sampleRequest 0, .requestCancel (1, 7) "stop" 5,
    .resume (.cancelWrite (newRun sampleRequest 0) "stop" 5) .silent 5]

/-- It has ended, and no callback is pending. -/
theorem cancelled_task_has_no_callback :
    ((runActions step .empty cancelledUnstarted).rows.get? (1, 7)).map
      (fun row => (row.run.processID, row.run.status, row.run.reconciliation)) =
        some (some 3, .cancelled, .empty) := by
  decide

/-- A worker completes the task of the workflow. -/
def completedTask : List Action :=
  [.start sampleRequest 0, .claim (1, 7) 1 0 1000, .resume (.execute heldRun) .started 1,
    .resume (.provider heldRun) (.result (.completed "success" "first" 0 true)) 2]

theorem workflow_task_reports_completed :
    ∃ row, (runActions step .empty completedTask).rows.get? (1, 7) = some row ∧
      row.run.status = .succeeded ∧
      ((row.run.reconciliation.required = true ∧ row.run.reconciliation.state = .pending) ∨
        row.run.reconciliation.state = .delivered ∨
        row.run.reconciliation.state = .manuallyResolved) := by
  have reached : Reaches step CallbackSafe .empty (runActions step .empty completedTask) :=
    .decided completedTask (by decide)
  have known : ((runActions step .empty completedTask).rows.get? (1, 7)).map
    (fun row => (row.run.processID, row.run.status)) = some (some 3, .succeeded) := by decide
  obtain ⟨row, found, both⟩ := Option.map_eq_some_iff.mp known
  obtain ⟨process, status⟩ := Prod.mk.inj both
  exact ⟨row, found, status, workflow_task_reports reached found (by rw [process]; rfl)
    (by rw [status]; rfl)⟩

/-! ### What is marked delivered was acknowledged -/

/-- The run whose workflow a call is telling of its end. -/
def Call.tells? : Call → Option Key
  | .notify copy | .markWrite copy _ => some copy.key
  | .mark key => some key
  | _ => none

/-- The run whose result a write of an operator sets. -/
def Action.revises? : Action → Option Key
  | .resume (.operateWrite copy _ _) _ _ | .resume (.overrideWrite copy _ _) _ _ => some copy.key
  | _ => none

/-- The conditions under which a mark speaks of what was acknowledged: a cancel
request finds the run it has read, and no operator sets the result of a run while
its workflow is being told. -/
structure DeliverySafe (w : World) (action : Action) : Prop where
  cancel : CancelFinds w action
  quiet : ∀ key ∈ action.revises?, ∀ call ∈ w.calls, call.tells? ≠ some key

instance (w : World) (action : Action) : Decidable (DeliverySafe w action) :=
  decidable_of_iff (CancelFinds w action ∧
    ∀ key ∈ action.revises?, ∀ call ∈ w.calls, call.tells? ≠ some key)
    ⟨fun both => ⟨both.1, both.2⟩, fun both => ⟨both.cancel, both.quiet⟩⟩

/-- The host has taken this result of a run. -/
def Acknowledged (log : List Event) (key : Key) (result : Status × String × Option Output) : Prop :=
  .acknowledged key result.1 result.2.1 result.2.2 ∈ log

/-- A run whose workflow is being told has ended, with the result that is told. -/
def Telling (log : List Event) (row : Row) : Call → Prop
  | .notify copy => row.status.terminal = true ∧ row.run.result = copy.result
  | .mark _ => row.status.terminal = true ∧ Acknowledged log row.key row.run.result
  | .markWrite copy _ => row.status.terminal = true ∧ row.run.result = copy.result ∧
      Acknowledged log row.key copy.result
  | _ => True

theorem Telling.kept {log' : List Event} (telling : Telling log row call) (more : log ⊆ log')
    (same : call.tells? = some row.key → row.status.terminal = true →
      new.status.terminal = true ∧ new.run.result = row.run.result)
    (stored : call.stored? = some row.key) (key : new.key = row.key) : Telling log' new call := by
  cases call with
  | notify copy =>
    obtain ⟨terminal, result⟩ := same stored telling.1
    exact ⟨terminal, result.trans telling.2⟩
  | mark key' =>
    obtain ⟨terminal, result⟩ := same stored telling.1
    refine ⟨terminal, ?_⟩
    rw [key, result]
    exact more telling.2
  | markWrite copy stamp =>
    obtain ⟨terminal, result⟩ := same stored telling.1
    refine ⟨terminal, result.trans telling.2.1, ?_⟩
    rw [key]
    exact more telling.2.2
  | _ => trivial

/-- A run that has ended keeps its result unless an operator sets it. -/
theorem Change.result_kept (change : Change action row new calls events)
    (found : w.rows.get? row.key = some row) (finds : CancelFinds w action)
    (quiet : action.revises? ≠ some row.key)
    (known : ∀ call reply now, action = .resume call reply now → Telling log row call)
    (terminal : row.status.terminal = true) :
    new.status.terminal = true ∧ new.run.result = row.run.result := by
  -- a row that has ended is not running, not due and not waiting
  have other : ∀ status : Status, status.terminal = false → row.status ≠ status := by
    rintro status live rfl
    rw [terminal] at live
    cases live
  cases change with
  | claim asks eligible =>
    obtain ⟨pending | scheduled, -⟩ | ⟨running, -⟩ := eligible
    · exact absurd pending (other _ rfl)
    · exact absurd scheduled (other _ rfl)
    · exact absurd running (other _ rfl)
  | touch leased | beat _ leased | save _ _ _ leased | begin _ leased | finish _ leased =>
    exact absurd leased.1 (other _ rfl)
  | cancel same unmoved =>
    obtain ⟨rfl, status⟩ := finds _ rfl row (same ▸ found) unmoved
    have kept : ¬(row.run.status = .pending ∨ row.run.status = .retryScheduled) := by
      rw [← status]
      rintro (pending | scheduled)
      · exact other _ rfl pending
      · exact other _ rfl scheduled
    simp only [statusRow, cancelledRun, TaskRun.result, if_neg kept, and_true]
    exact status ▸ terminal
  | resolve _ _ waiting => exact absurd waiting (other _ rfl)
  | mark => exact ⟨terminal, (known _ _ _ rfl).2.1.symm⟩
  | operate _ same | override same => exact absurd (congrArg some same) quiet

/-- The system under the conditions. -/
structure DeliveryInv (w : World) : Prop where
  agrees : ∀ key row, w.rows.get? key = some row → Agrees row
  beats : ∀ call ∈ w.calls, Held (Beating fun copy _ => copy.status = .running) w.rows call
  tells : ∀ call ∈ w.calls, Held (Telling w.log) w.rows call

theorem delivery_step (inv : DeliveryInv w) (safe : DeliverySafe w action) :
    DeliveryInv (step w action) := by
  refine step_rule inv fun t outcome taken => ⟨?_, ?_, ?_⟩
  · apply outcome.rows_all inv.agrees fun _ _ => rfl
    intro row new calls events found change _ agrees
    refine change.agrees (fun copy owner token stamp duration reply now _ is leased => ?_) agrees
    exact (held_of_change inv.beats taken found change is).2 leased
  · apply outcome.calls_all taken inv.beats
    · exact fun row new calls events found change call _ _ beating =>
        beating.step change found safe.cancel
    · exact fun row new calls events found change call member stored => change.beating member stored
    · intro calls look call member row stored found
      apply look.beating taken inv.beats member stored found
      exact fun owner token leased => (inv.agrees _ _ found).trans leased.1
  · have more : w.log ⊆ t.events ++ w.log := fun event member => List.mem_append_right _ member
    have before : ∀ call ∈ w.calls, Held (Telling (t.events ++ w.log)) w.rows call := by
      intro call member key stored
      obtain ⟨row, found, telling⟩ := inv.tells call member key stored
      obtain rfl := Table.key_of_get? found
      exact ⟨row, found, telling.kept more (fun _ terminal => ⟨terminal, rfl⟩) stored rfl⟩
    apply outcome.calls_all taken before
    · intro row new calls events found change call member stored telling
      refine telling.kept (fun _ member => member) (fun tells terminal => ?_) stored change.key
      refine change.result_kept found safe.cancel ?_
        (fun _ _ _ is => held_of_change before taken found change is) terminal
      exact fun revises => safe.quiet _ revises call member tells
    · intro row new calls events found change call member stored
      apply change.call_cases member stored
      case notify =>
        intro run terminal status result
        exact ⟨status ▸ terminal, result⟩
      all_goals (intros; trivial)
    · intro calls look call member row stored found
      have agrees : row.run.status = row.status := inv.agrees _ _ found
      have known : ∀ earlier reply now, action = .resume earlier reply now →
          earlier.stored? = some row.key → Telling (t.events ++ w.log) row earlier := by
        rintro earlier reply now rfl there
        obtain ⟨same, at', telling⟩ := before earlier (mem_of_resumed taken) row.key there
        rw [found] at at'
        cases at'
        exact telling
      apply look.call_cases member stored found
      case notify => exact fun terminal => ⟨agrees ▸ terminal, rfl⟩
      case mark =>
        intro run now is logged same
        have told := known _ _ _ is (congrArg some same)
        refine ⟨told.1, ?_⟩
        rw [told.2, ← same, logged]
        exact List.mem_cons_self
      case markWrite =>
        intro reply now is
        have told := known _ _ _ is rfl
        exact ⟨told.1, rfl, told.2⟩
      all_goals (intros; trivial)

/-- What a step that marks a run has found and left. -/
theorem Outcome.marked {t : Turn} (outcome : Outcome rows action t) {status : Status}
    {outcome' : String} {output : Option Output}
    (marked : .marked key status outcome' output ∈ t.events) :
    ∃ row copy stamp reply now, rows.get? row.key = some row ∧ row.key = key ∧
      copy.key = row.key ∧ action = .resume (.markWrite copy stamp) reply now ∧
      copy.result = (status, outcome', output) ∧
      t.rows = rows.put (payloadRow row (deliveredRun copy stamp)) := by
  cases outcome with
  | create => cases marked
  | look look =>
    cases look with
    | started | acknowledged =>
      cases List.mem_singleton.mp marked
    | cancelSettled | cancelRead =>
      cases event_of_cancelOutcome marked
    | resolveReplayed =>
      cases event_of_resolvedOutcome marked
    | _ => cases marked
  | write found change =>
    cases change with
    | claim => cases List.mem_singleton.mp marked
    | cancel => cases event_of_cancelOutcome marked
    | resolve =>
      obtain old | last := List.mem_append.mp marked
      · cases event_of_resolvedOutcome old
      · cases List.mem_singleton.mp last
    | mark same =>
      cases List.mem_singleton.mp marked
      exact ⟨_, _, _, _, _, found, rfl, same, rfl, rfl, rfl⟩
    | _ => cases marked

/-- When cancel requests find the run they have read, and no operator sets the
result of a run while its workflow is being told: a step that marks a run
delivered leaves it with a status, outcome and output the host has acknowledged
before. -/
theorem delivered_was_acknowledged (reached : Reaches step DeliverySafe .empty w)
    {status : Status} {outcome : String} {output : Option Output}
    (marks : (step w action).log = .marked key status outcome output :: w.log) :
    Event.acknowledged key status outcome output ∈ w.log ∧
      ∃ row, (step w action).rows.get? key = some row ∧ row.run.status = status ∧
        row.run.outcome = outcome ∧ row.run.output = output ∧
        row.run.reconciliation.state = .delivered := by
  have inv : DeliveryInv w := by
    refine reached.invariant ?_ fun u inv action safe => delivery_step inv safe
    exact ⟨fun _ _ none => (nomatch none), fun _ none => (nomatch none),
      fun _ none => (nomatch none)⟩
  unfold step at marks ⊢
  split at marks
  · exact absurd marks (List.cons_ne_self _ _).symm
  · next taken =>
    rw [if_neg taken]
    have logged : (turn w.rows action).events = [.marked key status outcome output] :=
      List.append_cancel_right marks
    obtain ⟨row, copy, stamp, reply, now, found, rfl, same, rfl, result, put⟩ :=
      (turn_outcome w.rows action).marked (logged ▸ List.mem_singleton_self _)
    obtain ⟨there, at', told⟩ :=
      inv.tells (.markWrite copy stamp) (mem_of_resumed (by simpa using taken)) row.key
        (congrArg some same)
    rw [found] at at'
    cases at'
    have acknowledged := told.2.2
    rw [result] at acknowledged
    refine ⟨acknowledged, payloadRow row (deliveredRun copy stamp), ?_, ?_⟩
    · dsimp only
      rw [put]
      exact Table.get?_put_at found same
    · exact ⟨congrArg Prod.fst result, congrArg (·.2.1) result, congrArg (·.2.2) result, rfl⟩

/-- The run a worker has completed, as it is told and as it is stored. -/
def toldRun : TaskRun :=
  completedRun heldRun
    { status := .succeeded, outcome := "success", output := some (.value "first"), errorCode := ""
      authorization := heldRun.authorization ++ [0], reconciliation := callbackPending } 2

def storedRun : TaskRun := savedRun heldRun toldRun

/-- The host takes the completion. -/
def acknowledgedTask : List Action :=
  completedTask ++ [.resume (.notify toldRun) .acknowledged 3]

/-- An operator overrides the output before the completion is marked. -/
def overriddenTask : List Action :=
  acknowledgedTask ++ [.override (1, 7) "second" 4,
    .resume (.overrideWrite storedRun "second" 4) .silent 4, .resume (.mark (1, 7)) .silent 5,
    .resume (.markWrite (overriddenRun storedRun "second" 4) 5) .silent 5]

/-- The run is marked delivered with an output the host has never seen. -/
theorem override_is_marked_delivered :
    ((runActions step .empty overriddenTask).rows.get? (1, 7)).map
        (fun row => (row.run.processID, row.run.output, row.run.reconciliation.state)) =
      some (some 3, some (.value "second"), .delivered) ∧
    (runActions step .empty overriddenTask).log.head? =
      some (.marked (1, 7) .succeeded "success" (some (.value "second"))) ∧
    Event.acknowledged (1, 7) .succeeded "success" (some (.value "second")) ∉
      (runActions step .empty overriddenTask).log := by
  decide

theorem delivered_was_acknowledged_completed :
    Event.acknowledged (1, 7) .succeeded "success" (some (.value "first")) ∈
      (runActions step .empty (acknowledgedTask ++ [.resume (.mark (1, 7)) .silent 5])).log := by
  have reached : Reaches step DeliverySafe .empty
      (runActions step .empty (acknowledgedTask ++ [.resume (.mark (1, 7)) .silent 5])) :=
    .decided _ (by decide)
  have marks : (step (runActions step .empty
      (acknowledgedTask ++ [.resume (.mark (1, 7)) .silent 5]))
      (.resume (.markWrite storedRun 5) .silent 5)).log =
        .marked (1, 7) .succeeded "success" (some (.value "first")) ::
          (runActions step .empty (acknowledgedTask ++ [.resume (.mark (1, 7)) .silent 5])).log := by
    decide
  exact (delivered_was_acknowledged reached marks).1

end DomainryAgent.AgentTask
