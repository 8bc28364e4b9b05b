import DomainryAgent.Protocol.Leases
import DomainryAgent.Refinement.Claims
import DomainryAgent.SingleExecutor
import DomainryAgent.Workers.World

/-!
Fenced execution: a claim is good only as long as its run is at the claim's
fence under the claim's owner, and a claim that lost its run does nothing any
more.

The one thing left to it is the receipt of a call it had begun when a
cancellation took the run from it: the run is then cancelled at the fence right
after the claim's, and the claim is among the `interrupted` ones.
-/

namespace DomainryAgent

open Lib Tx Protocol Refinement

variable {w : World}

/-- What holds of the claims that were issued. -/
structure World.Claimed (w : World) : Prop where
  fenced : ∀ c ∈ w.issued, ∃ row, w.db.runs.get? c.runID = some row ∧
    Fenced True (c ∈ w.interrupted) c row
  unique : ∀ c ∈ w.issued, ∀ c' ∈ w.issued, c'.runID = c.runID → c'.fence = c.fence → c' = c

variable {op : Op} {c : Claim} {runs : Table RunRow.key} {row : RunRow}

variable {s : Db}

/-- Every operation other than `Claim` issues nothing. -/
theorem issuedClaims_of_ne
    (other : ∀ runtimeID worker ttl agents, op ≠ .claim runtimeID worker ttl agents) :
    issuedClaims ((exec op).result? s) = [] := by
  have ensures : (exec op).Ensures s (fun out _ => issuedClaims (some out) = []) := by
    cases op with
    | claim runtimeID worker ttl agents => exact absurd rfl (other runtimeID worker ttl agents)
    | tick =>
      simp only [exec, wp]
      rfl
    | beginModelAttempt | beginExecutionSubtool | beginExecutionTool | reuseEffect =>
      simp only [exec, wp]
      exact fun _ _ _ => rfl
    | _ =>
      simp only [exec, wp]
      exact fun _ _ _ => rfl
  cases result : (exec op).result? s with
  | none => rfl
  | some out =>
    obtain ⟨s', ok, _⟩ := result?_eq_some result
    exact ensures out s' ok

/-- An issued claim holds the run it was issued for, at the fence after the one
the run had. -/
theorem leased_of_issued (issued : c ∈ issuedClaims ((exec op).result? s)) :
    ∃ agents old new, Leased s.toCore agents c old new ∧ (s.step op).runs = s.runs.put new ∧
      issuedClaims ((exec op).result? s) = [c] := by
  by_cases isClaim : ∃ runtimeID worker ttl agents, op = .claim runtimeID worker ttl agents
  · obtain ⟨runtimeID, worker, ttl, agents, rfl⟩ := isClaim
    have ensures : (exec (.claim runtimeID worker ttl agents)).Ensures s
        (fun out t => ∃ given, out = .leased given ∧ Claims s.toCore agents given t.toCore) := by
      simp only [exec, wp]
      exact claimRun_claims.mono fun given _ claims => ⟨given, rfl, claims⟩
    cases result : (exec (.claim runtimeID worker ttl agents)).result? s with
    | none => rw [result] at issued; cases issued
    | some out =>
      obtain ⟨s', ok, commit⟩ := result?_eq_some result
      obtain ⟨given, rfl, claims⟩ := ensures out s' ok
      have after : (s.step (.claim runtimeID worker ttl agents)).toCore = s'.toCore :=
        congrArg Db.toCore commit
      rw [result] at issued
      revert after
      generalize s'.toCore = t at claims
      intro after
      cases claims with
      | none => cases issued
      | @leased claim old new lease =>
        obtain rfl := List.mem_singleton.mp issued
        exact ⟨agents, old, new, lease, congrArg Core.runs after, rfl⟩
  · rw [issuedClaims_of_ne fun a b d e h => isClaim ⟨a, b, d, e, h⟩] at issued
    cases issued

theorem holdsRun_of (found : runs.get? c.runID = some row) (owner : row.owner = some c.owner)
    (fence : row.fence = c.fence) : holdsRun runs c = true := by
  simp [holdsRun, found, owner, fence]

/-- An operation keeps the earlier claims fenced, and marks those it
interrupts. -/
theorem World.Claimed.kept (inv : w.Claimed) (wf : WellFormed w.db) (member : c ∈ w.issued) :
    ∃ row, (w.store op).db.runs.get? c.runID = some row ∧
      Fenced True (c ∈ (w.store op).interrupted) c row := by
  obtain ⟨row, found, fenced⟩ := inv.fenced c member
  have before : Fenced (holdsRun w.db.runs c = true)
      (c ∈ w.interrupted ∨ holdsRun w.db.runs c = true) c row :=
    fenced.imp (fun owner fence _ => holdsRun_of found owner fence) (fun _ _ => .inl)
  obtain ⟨row', found', after⟩ := (wf.steps op).fenced .inr ⟨row, found, before⟩
  refine ⟨row', found', after.imp (fun _ _ _ => trivial) fun next status marked => ?_⟩
  rcases marked with marked | held
  · exact List.mem_append_right _ marked
  · refine List.mem_append_left _ (List.mem_filter.mpr ⟨member, ?_⟩)
    simp [held, cancelledAfter, found', status, next]

/-- A claim that is issued is ahead of every earlier one on its run. -/
theorem World.Claimed.ahead (inv : w.Claimed) {c' : Claim}
    (issued : c' ∈ issuedClaims ((exec op).result? w.db)) (member : c ∈ w.issued)
    (run : c.runID = c'.runID) : c.fence < c'.fence := by
  obtain ⟨agents, old, new, lease, _, _⟩ := leased_of_issued issued
  obtain ⟨row, found, fenced⟩ := inv.fenced c member
  have id : c'.runID = old.run.id := by rw [lease.issued]; exact lease.same.id
  have at_fence : c'.fence = old.fence + 1 := by rw [lease.issued]; exact lease.fence
  rw [run, id, lease.found] at found
  cases found
  have := fenced.behind
  omega

theorem World.Claimed.store (inv : w.Claimed) (wf : WellFormed w.db) : (w.store op).Claimed := by
  constructor
  · intro c member
    rcases List.mem_append.mp member with issued | earlier
    · obtain ⟨agents, old, new, lease, runs, _⟩ := leased_of_issued issued
      have id : c.runID = new.run.id := by rw [lease.issued]
      have fence : new.fence = c.fence := by rw [lease.issued]
      refine ⟨new, ?_, fence.ge, fun _ => .inl ⟨lease.owner, lease.running, trivial⟩,
        fun next => ?_⟩
      · rw [id]
        show (w.db.step op).runs.get? new.run.id = some new
        rw [runs]
        exact Table.get?_put_self (lease.same.id ▸ lease.found)
      · omega
    · exact inv.kept wf earlier
  · intro c member c' member' run fence
    rcases List.mem_append.mp member with issued | earlier
    · rcases List.mem_append.mp member' with issued' | earlier'
      · obtain ⟨_, _, _, _, _, only⟩ := leased_of_issued issued
        rw [only] at issued'
        exact List.mem_singleton.mp issued'
      · have := inv.ahead issued earlier' run
        omega
    · rcases List.mem_append.mp member' with issued' | earlier'
      · have := inv.ahead issued' earlier run.symm
        omega
      · exact inv.unique c earlier c' earlier' run fence

theorem World.Reachable.claimed (reached : w.Reachable) : w.Claimed := by
  refine (reached.invariant (fun _ _ => ⟨nofun, nofun⟩) fun u action wf inv => ?_).2
  cases action with
  | store op => exact inv.store wf
  | dispatch d =>
    simp only [World.step]
    split
    · exact ⟨inv.fenced, inv.unique⟩
    · exact inv
  | crash d => exact ⟨inv.fenced, inv.unique⟩

/-! ### Superseded claims -/

/-- The lease of every run goes on in order. -/
theorem World.Reachable.leaseOrder (reached : w.Reachable) (action : Action) {r : Id}
    (there : w.db.runs.get? r = some row) :
    ∃ row', (w.step action).db.runs.get? r = some row' ∧ LeaseOrder row row' := by
  rcases w.step_db action with same | ⟨op, _, db⟩
  · rw [same]
    exact ⟨row, there, .refl row⟩
  · rw [db]
    exact (reached.wellFormed.steps op).leaseOrder there

/-- Only a worker that finishes its run gives it up at the same fence. -/
theorem World.Reachable.owner_kept (reached : w.Reachable) {action : Action} {r : Id} {row' : RunRow}
    (there : w.db.runs.get? r = some row)
    (other : ¬∃ claim content code reported,
      action = .store (.finish claim content code reported) ∧ claim.runID = r)
    (found : (w.step action).db.runs.get? r = some row') (fence : row'.fence = row.fence) :
    row'.owner = row.owner := by
  rcases w.step_db action with same | ⟨op, taken, db⟩
  · rw [same, there] at found
    cases found
    rfl
  · have kept : ¬Raises w.db op (.finishes r) := by
      rintro ⟨⟩
      exact other ⟨_, _, _, _, taken, rfl⟩
    obtain ⟨_, found', _, owner⟩ := (reached.wellFormed.steps op).owner_kept kept there
    rw [db, found'] at found
    cases found
    exact owner fence

theorem World.Reachable.superseded (reached : w.Reachable) (member : c ∈ w.issued)
    (lost : Superseded w.db.runs c) (action : Action) : Superseded (w.step action).db.runs c := by
  intro row' found'
  obtain ⟨row, found, fenced⟩ := reached.claimed.fenced c member
  obtain ⟨next, found'', order⟩ := reached.leaseOrder action found
  rw [found'] at found''
  cases found''
  exact order.superseded fenced.behind (lost row found)

/-- A superseded claim does nothing, save the receipt of a call it had begun
when a cancellation took its run. -/
theorem World.Reachable.presents (reached : w.Reachable) (member : c ∈ w.issued)
    (lost : Superseded w.db.runs c) (may : w.may (.store op)) (presents : op.presents = some c) :
    (w.step (.store op)).db = w.db ∨ ∃ number callID result,
      op = .finishExecutionTool c number callID result ∧ (c, number, callID) ∈ w.begun ∧
        c ∈ w.interrupted := by
  have refused : ∀ row, ¬Accepted w.db.toCore c row := fun row accepted =>
    lost row accepted.found ⟨accepted.owner, accepted.fence⟩
  have outcome : Refused w.db c op (w.db.step op) :=
    (exec_refuses presents refused).commit .unchanged
  show w.db.step op = w.db ∨ _
  revert outcome may
  generalize w.db.step op = after
  intro may outcome
  cases outcome with
  | unchanged => exact .inl rfl
  | heartbeat found owner fence => exact absurd ⟨owner, fence⟩ (lost _ found)
  | @receipt number callID result row _ interrupted =>
    obtain ⟨row', found, fenced⟩ := reached.claimed.fenced c member
    rw [interrupted.found] at found
    cases found
    exact .inr ⟨number, callID, result, rfl, may, fenced.taken interrupted.fence
      interrupted.cancelled⟩

/-- The world after some actions in an empty one. -/
def worldAfter (actions : List Action) : World :=
  runActions World.step (World.initial 0 none) actions

theorem reachable_worldAfter {actions : List Action}
    (free : ∀ action ∈ actions, action.isReceipt = false) : (worldAfter actions).Reachable :=
  ⟨0, none, Reaches.start.runActions actions fun action member u => u.may_of_free (free action member)⟩

end DomainryAgent
