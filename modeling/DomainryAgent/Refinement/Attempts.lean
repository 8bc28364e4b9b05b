import DomainryAgent.Refinement.Runs

/-!
The first request of a run and its attempts follow the protocol: the request is
frozen once, and an attempt changes nothing of its run but the attempts.
-/

namespace DomainryAgent.Refinement

open Lib Tx Table Protocol

variable {allowed : Hazard → Prop} {s : Db}

variable {claim : Claim} {old : RunRow} {step : Int} {number : Nat}

theorem modelInput_follows {messages : List StepMessage} :
    Follows allowed (modelInput claim messages) s := by
  simp only [modelInput, wp, ensures_claimed]
  intro old checked
  split
  · exact ensures_pure.mpr .refl
  · simp only [wp, ensures_insertRow, ensures_event, ensures_saveRun]
    intro _ inputs inserted _ _ _ _ _ _ _ _
    have found := get?_key (accepted_of_claimed checked).found
    exact .head (.input inserted) ((Noted.event old).moves found)

/-- A worker whose claim is accepted may write on its run. -/
theorem acts_of_claimed (worker : allowed .attempts) (acts : allowed (.acts claim.runID))
    (accepted : Accepted s.toCore claim old) : allowed .attempts ∧ allowed (.acts old.run.id) := by
  rw [← key_of_get? accepted.found] at acts
  exact ⟨worker, acts⟩

/-- A row that differs only in the attempts of its run. -/
theorem attempts_moves {c : Core} {attempts : List ModelAttempt} {events : Nat}
    (worker : allowed .attempts ∧ allowed (.acts old.run.id))
    (found : c.runs.get? old.run.id = some old) (change : AttemptChange c.now old.run attempts) :
    Moves allowed c { c with
      runs := c.runs.put { old with
        eventSeq := events, run := { old.run with modelAttempts := attempts } } } := by
  have move : RunMove allowed c old
      { old with
        eventSeq := events, run := { old.run with modelAttempts := attempts } } :=
    .touch rfl rfl rfl rfl (.inr ⟨worker, rfl, change⟩)
  exact .single (.run found ⟨rfl, rfl, rfl, rfl, rfl, rfl⟩ move rfl)

theorem beginConversationModelAttempt_follows (worker : allowed .attempts)
    (acts : allowed (.acts claim.runID)) :
    Follows allowed (beginConversationModelAttempt claim step) s := by
  simp only [beginConversationModelAttempt, startAttempt, wp, ensures_claimed]
  intro _ old checked
  have accepted := accepted_of_claimed checked
  have found := get?_key accepted.found
  replace worker := acts_of_claimed worker acts accepted
  split
  · next unasked =>
    simp only [wp, ensures_event, ensures_saveRun]
    intro _ _ _ _ _ _ _ _ _
    exact attempts_moves worker found (.first unasked)
  · next previous latest =>
    refine ensures_ite.mpr ⟨fun _ => ensures_pure.mpr .refl, fun _ => ?_⟩
    simp only [wp, ensures_event, ensures_saveRun]
    intro scheduled due _ _ _ _ _ _ _ _ _
    exact attempts_moves worker found (.again latest scheduled due)

variable {run : Run} {attempt : ModelAttempt}

/-- An attempt that is settled. -/
theorem settle_change {now : Time}
    (latest : conversationModelAttempt run step run.attempt = some attempt)
    (started : attempt.status = .started) (status : ModelAttemptStatus) (retryAt : Option Time)
    (settles : status ≠ .started) : AttemptChange now run (settleAttempt attempt.step run.attempt
      { attempt with status := status, retryAt := retryAt } run.modelAttempts) := by
  have here : attempt.at step run.attempt = true := List.find?_some latest
  obtain rfl := of_decide_eq_true (Bool.and_eq_true_iff.mp here).1
  exact .settle latest started settles

theorem failConversationModelAttempt_follows {retryAt : Option Time} (worker : allowed .attempts)
    (acts : allowed (.acts claim.runID)) :
    Follows allowed (failConversationModelAttempt claim step number retryAt) s := by
  simp only [failConversationModelAttempt, wp, ensures_claimed]
  rintro _ old checked attempt latest ⟨_, started⟩
  have accepted := accepted_of_claimed checked
  have found := get?_key accepted.found
  replace worker := acts_of_claimed worker acts accepted
  split
  · simp only [wp, ensures_event, ensures_saveRun]
    intro _ _ _ _ _ _ _ _
    exact attempts_moves worker found
      (settle_change latest started .failed attempt.retryAt (by simp))
  · simp only [wp, ensures_event, ensures_saveRun]
    intro _ _ _ _ _ _ _ _ _ _
    exact attempts_moves worker found
      (settle_change latest started .retryScheduled _ (by simp))

theorem completeConversationModelAttempt_follows (worker : allowed .attempts)
    (acts : allowed (.acts claim.runID)) :
    Follows allowed (completeConversationModelAttempt claim step number) s := by
  simp only [completeConversationModelAttempt, wp, ensures_claimed]
  intro _ old checked attempt latest _
  refine ensures_ite.mpr ⟨fun _ => ensures_pure.mpr .refl, fun _ => ?_⟩
  simp only [wp, ensures_event, ensures_saveRun]
  intro started _ _ _ _ _ _ _ _
  have accepted := accepted_of_claimed checked
  exact attempts_moves (acts_of_claimed worker acts accepted) (get?_key accepted.found)
    (settle_change latest started .completed attempt.retryAt (by simp))

end DomainryAgent.Refinement
