import DomainryAgent.Protocol.Steps

/-!
The leases of runs, and the claims they were handed out as.

All a step does to the runs is to move one of them or to open one (`RunsStep`),
so a fact about leases is proved of a single `RunMove`.  `Fenced` is what stays
true of a claim once it was issued: its fence is never ahead of the run's, at
its own fence the run is the claim's or has ended, and a run cancelled at the
next fence was taken from the claim by that cancellation.
-/

namespace DomainryAgent.Protocol

open Lib

variable {allowed : Hazard → Prop} {s t : Core}

/-- What a step does to the runs. -/
inductive RunsStep (allowed : Hazard → Prop) (s : Core) : Table RunRow.key → Prop
  | same : RunsStep allowed s s.runs
  | move {old new : RunRow} (found : s.runs.get? old.run.id = some old) (same : SameRun old new)
      (move : RunMove allowed s old new) : RunsStep allowed s (s.runs.put new)
  | opened {row : RunRow} {grown : Table RunRow.key} (fresh : FreshRun row)
      (inserted : s.runs.insert? row = some grown) : RunsStep allowed s grown

theorem Move.runs (move : Move allowed s t) : RunsStep allowed s t.runs := by
  cases move with
  | run found same move | endRun found same move | reopenRun found same move
    | closeTask found same move | reopenTask found same move | reopenRunning found same move =>
    exact .move found same move
  | openRun fresh _ inserted | launch _ _ _ _ _ _ _ _ _ _ _ fresh inserted =>
    exact .opened fresh inserted
  | tick | openConversation | touchConversation | newTask | editTask | submit | repoint | planTask
    | steps | tools | messages | send | input | touchDelegation | openLedger | ledger => exact .same

theorem Step.runs (step : Step allowed s t) : RunsStep allowed s t.runs := by
  cases step with
  | move move => exact move.runs
  | amendDelegation | resumeDelegation | admitDelegation | transferDelegation | snapshot =>
    exact .same

/-- Only the clock moves beside a run, and then the runs stay. -/
theorem Step.clock (step : Step allowed s t) : t.now = s.now ∨ t.runs = s.runs ∧ s.now ≤ t.now := by
  cases step with
  | move move =>
    cases move with
    | tick later => exact .inr ⟨rfl, later⟩
    | _ => exact .inl rfl
  | amendDelegation | resumeDelegation | admitDelegation | transferDelegation | snapshot =>
    exact .inl rfl

variable {row old new : RunRow} {held marked : Prop} {c : Claim}

variable {r : Id}

/-- A fact about a run that every move keeps is kept by every step, and the run
stays there. -/
theorem RunsStep.keeps {runs' : Table RunRow.key} {P : RunRow → Prop}
    (step : RunsStep allowed s runs')
    (moves : ∀ old new, SameRun old new → RunMove allowed s old new → P old → P new)
    (there : s.runs.get? r = some row) (holds : P row) :
    ∃ row', runs'.get? r = some row' ∧ P row' := by
  cases step with
  | same => exact ⟨row, there, holds⟩
  | @move old new found same move =>
    exact Table.exists_put found same.id there holds fun _ => moves _ new same move
  | opened _ inserted => exact ⟨row, Table.get?_insert?_of_some inserted there, holds⟩

/-! ### The order of leases -/

/-- How a lease goes on: the fence never falls, and at the same fence it has the
same owner or the run has ended without one. -/
structure LeaseOrder (old new : RunRow) : Prop where
  fence : old.fence ≤ new.fence
  owner : new.fence = old.fence →
    new.owner = old.owner ∨ new.owner = none ∧ new.run.status.terminal = true
  ended : new.fence = old.fence → old.run.status.terminal = true →
    new.run.status.terminal = true

theorem LeaseOrder.refl (row : RunRow) : LeaseOrder row row :=
  ⟨le_rfl, fun _ => .inl rfl, fun _ => id⟩

theorem LeaseOrder.trans {x y z : RunRow} (first : LeaseOrder x y) (second : LeaseOrder y z) :
    LeaseOrder x z := by
  have between : z.fence = x.fence → z.fence = y.fence ∧ y.fence = x.fence := by
    intro same
    have := first.fence
    have := second.fence
    omega
  refine ⟨first.fence.trans second.fence, fun same => ?_, fun same ended => ?_⟩
  · obtain ⟨zy, yx⟩ := between same
    rcases second.owner zy with kept | none
    · rcases first.owner yx with kept' | ⟨none, ended⟩
      · exact .inl (kept.trans kept')
      · exact .inr ⟨kept.trans none, second.ended zy ended⟩
    · exact .inr none
  · obtain ⟨zy, yx⟩ := between same
    exact second.ended zy (first.ended yx ended)

theorem terminal_of_finished {status : RunStatus}
    (finished : status = .completed ∨ status = .failed) : status.terminal = true := by
  rcases finished with rfl | rfl <;> rfl

theorem RunMove.leaseOrder (move : RunMove allowed s old new) : LeaseOrder old new := by
  cases move with
  | touch status owner fence =>
    exact ⟨fence.ge, fun _ => .inl owner, fun _ ended => status ▸ ended⟩
  | extend running _ _ owner fence =>
    refine ⟨fence.ge, fun _ => .inl owner, fun _ ended => ?_⟩
    rw [running] at ended
    cases ended
  | lease _ _ fence | free _ _ _ fence =>
    refine ⟨by omega, fun same => ?_, fun same => ?_⟩ <;> omega
  | finish _ _ status owner fence =>
    exact ⟨fence.ge, fun _ => .inr ⟨owner, terminal_of_finished status⟩,
      fun _ _ => terminal_of_finished status⟩

/-- No operation loses a run, and its lease goes on in order. -/
theorem Steps.leaseOrder (steps : Steps allowed s t) (there : s.runs.get? r = some row) :
    ∃ row', t.runs.get? r = some row' ∧ LeaseOrder row row' := by
  induction steps with
  | refl => exact ⟨row, there, .refl row⟩
  | tail _ step ih =>
    obtain ⟨mid, found, order⟩ := ih
    exact step.runs.keeps (P := LeaseOrder row)
      (fun _ _ _ move before => before.trans move.leaseOrder) found order

/-- Only a worker that ends its run gives it up at the same fence. -/
theorem RunMove.owner_kept (move : RunMove allowed s old new)
    (kept : ¬allowed (.finishes old.run.id)) (same : new.fence = old.fence) :
    new.owner = old.owner := by
  cases move with
  | touch _ owner | extend _ _ _ owner => exact owner
  | lease _ _ fence | free _ _ _ fence => omega
  | finish _ _ _ _ _ _ worker => exact absurd worker kept

theorem Steps.owner_kept (steps : Steps allowed s t) (kept : ¬allowed (.finishes r))
    (there : s.runs.get? r = some row) :
    ∃ row', t.runs.get? r = some row' ∧ row.fence ≤ row'.fence ∧
      (row'.fence = row.fence → row'.owner = row.owner) := by
  induction steps with
  | refl => exact ⟨row, there, le_rfl, fun _ => rfl⟩
  | tail _ step ih =>
    obtain ⟨mid, found, before⟩ := ih
    have named : mid.key = r := Table.key_of_get? found
    suffices next : ∃ row' : RunRow, _ ∧ row'.run.id = r ∧ row.fence ≤ row'.fence ∧
        (row'.fence = row.fence → row'.owner = row.owner) by
      obtain ⟨row', found', _, after⟩ := next
      exact ⟨row', found', after⟩
    refine step.runs.keeps ?_ found ⟨named, before⟩
    rintro old new same move ⟨own, lower, owner⟩
    have rises := move.leaseOrder.fence
    refine ⟨same.id.trans own, lower.trans rises, fun unchanged => ?_⟩
    have still : new.fence = old.fence := by omega
    exact (move.owner_kept (own ▸ kept) still).trans (owner (still ▸ unchanged))

/-! ### Issued claims -/

/-- A claim and the run it was issued for.  `held` and `marked` say of the claim
that it held its run when the operation began, and that a cancellation took the
run from it. -/
structure Fenced (held marked : Prop) (c : Claim) (row : RunRow) : Prop where
  behind : c.fence ≤ row.fence
  own : row.fence = c.fence → row.owner = some c.owner ∧ row.run.status = .running ∧ held ∨
    row.owner = none ∧ row.run.status.terminal = true
  taken : row.fence = c.fence + 1 → row.run.status = .cancelled → marked

theorem Fenced.imp {held' marked' : Prop} (fenced : Fenced held marked c row)
    (holds : row.owner = some c.owner → row.fence = c.fence → held → held')
    (marks : row.fence = c.fence + 1 → row.run.status = .cancelled → marked → marked') :
    Fenced held' marked' c row := by
  refine ⟨fenced.behind, fun same => ?_, fun next status => ?_⟩
  · rcases fenced.own same with ⟨owner, running, held⟩ | ended
    · exact .inl ⟨owner, running, holds owner same held⟩
    · exact .inr ended
  · exact marks next status (fenced.taken next status)

/-- A move keeps a claim fenced: only a cancellation of the run it holds marks
it. -/
theorem Fenced.move (marks : held → marked) (move : RunMove allowed s old new)
    (fenced : Fenced held marked c old) : Fenced held marked c new := by
  have behind := fenced.behind
  cases move with
  | touch status owner fence =>
    refine ⟨fence ▸ behind, fun same => ?_, fun next => ?_⟩
    · rw [status, owner]
      exact fenced.own (fence ▸ same)
    · rw [status]
      exact fenced.taken (fence ▸ next)
  | extend running _ status owner fence =>
    refine ⟨fence ▸ behind, fun same => ?_, fun _ cancelled => ?_⟩
    · rw [status, owner]
      rcases fenced.own (fence ▸ same) with ⟨own, _, held⟩ | ⟨_, ended⟩
      · exact .inl ⟨own, rfl, held⟩
      · rw [running] at ended; cases ended
    · rw [status] at cancelled; cases cancelled
  | lease _ status fence =>
    refine ⟨by omega, fun same => by omega, fun _ cancelled => ?_⟩
    rw [status] at cancelled
    cases cancelled
  | free _ reopens _ fence =>
    refine ⟨by omega, fun same => by omega, fun next cancelled => ?_⟩
    rcases fenced.own (by omega) with ⟨_, _, held⟩ | ⟨_, ended⟩
    · exact marks held
    · rw [reopens ended] at cancelled; cases cancelled
  | finish _ _ status owner fence =>
    refine ⟨fence ▸ behind, fun _ => .inr ⟨owner, terminal_of_finished status⟩,
      fun _ cancelled => ?_⟩
    rcases status with status | status <;> rw [status] at cancelled <;> cases cancelled

theorem Steps.fenced (marks : held → marked) (steps : Steps allowed s t)
    (before : ∃ row, s.runs.get? c.runID = some row ∧ Fenced held marked c row) :
    ∃ row, t.runs.get? c.runID = some row ∧ Fenced held marked c row := by
  induction steps with
  | refl => exact before
  | tail _ step ih =>
    obtain ⟨row, found, fenced⟩ := ih
    exact step.runs.keeps (fun _ _ _ move => Fenced.move marks move) found fenced

/-- The run belongs to the claim no longer. -/
def Superseded (runs : Table RunRow.key) (c : Claim) : Prop :=
  ∀ row, runs.get? c.runID = some row → ¬(row.owner = some c.owner ∧ row.fence = c.fence)

/-- A claim that lost its run does not get it back. -/
theorem LeaseOrder.superseded (order : LeaseOrder old new) (behind : c.fence ≤ old.fence)
    (lost : ¬(old.owner = some c.owner ∧ old.fence = c.fence)) :
    ¬(new.owner = some c.owner ∧ new.fence = c.fence) := by
  rintro ⟨owner, fence⟩
  have rises := order.fence
  have same : new.fence = old.fence := by omega
  rcases order.owner same with kept | ⟨none, _⟩
  · exact lost ⟨kept ▸ owner, same ▸ fence⟩
  · rw [none] at owner; cases owner

end DomainryAgent.Protocol
