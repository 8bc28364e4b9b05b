import DomainryAgent.Protocol.Agreements
import DomainryAgent.Protocol.Calls
import DomainryAgent.Protocol.Ledgers

/-!
A reservation belongs to the lease it was made under.

As long as the lease lives the reservation is there, unless its step has its
result: pruning spares it, and other workers have other keys (`Held`).  A lease
that was lost never lives again under its fence, so what pruning takes from it
is not missed.
-/

namespace DomainryAgent.Protocol

open Lib

variable {allowed : Hazard → Prop} {s t : Core}

/-- The lease of a run under a fence is live. -/
structure Leased (s : Core) (r : Id) (fence : Nat) (row : RunRow) : Prop where
  found : s.runs.get? r = some row
  running : row.run.status = .running
  fence : row.fence = fence
  live : s.now < row.expires

theorem Step.now (step : Step allowed s t) : s.now ≤ t.now := by
  rcases step.clock with same | ⟨_, later⟩
  · exact same.ge
  · exact later

variable {r : Id} {fence : Nat}

/-- A lease that lives under a fence the run had before has lived since. -/
theorem Step.leased (step : Step allowed s t) {row : RunRow}
    (behind : ∃ old, s.runs.get? r = some old ∧ fence ≤ old.fence) (leased : Leased t r fence row) :
    ∃ old, Leased s r fence old ∧ SameRun old row := by
  have live : s.now < row.expires := lt_of_le_of_lt step.now leased.live
  obtain ⟨before, there, lower⟩ := behind
  have runs := step.runs
  generalize after : t.runs = runs' at runs
  have found : runs'.get? r = some row := after ▸ leased.found
  cases runs with
  | same => exact ⟨row, ⟨found, leased.running, leased.fence, live⟩, .refl row⟩
  | @move old new stored same move =>
    rcases Table.get?_put_some found with ⟨here, rfl, _⟩ | ⟨_, kept⟩
    · have here : r = old.run.id := here.trans same.id
      rw [here, stored] at there
      cases there
      rw [here]
      cases move with
      | touch status _ fence' expires =>
        exact ⟨before, ⟨stored, status ▸ leased.running, fence' ▸ leased.fence, expires ▸ live⟩,
          same⟩
      | extend running live' _ _ fence' =>
        exact ⟨before, ⟨stored, running, fence' ▸ leased.fence, live'⟩, same⟩
      | lease _ _ fence' =>
        have := leased.fence
        omega
      | free status => exact absurd leased.running status
      | finish _ _ status =>
        have running := leased.running
        rcases status with status | status <;> rw [status] at running <;> cases running
    · exact ⟨row, ⟨kept, leased.running, leased.fence, live⟩, .refl row⟩
  | opened fresh inserted =>
    rcases Table.get?_insert?_some inserted found with ⟨_, rfl⟩ | ⟨_, kept⟩
    · have running := leased.running
      rw [fresh.status] at running
      cases running
    · exact ⟨row, ⟨kept, leased.running, leased.fence, live⟩, .refl row⟩

/-- The step of a run under a fence has its result or its reservation, as long as
the lease lives. -/
structure Held (s : Core) (r : Id) (fence step : Nat) : Prop where
  behind : ∃ row, s.runs.get? r = some row ∧ fence ≤ row.fence
  kept : ∀ row, Leased s r fence row → ∀ id task d, row.run.delegated = some (id, task) →
    s.delegations.get? id = some d →
    (∃ done result, s.steps.get? (r, step) = some done ∧ done.result = some result) ∨
    ∃ item, (reservationsAt s (ledgerKey d.rootConversationID row.authority)).get?
      ⟨row.run.conversationID, r, step⟩ = some item ∧ item.fence = fence ∧
        item.owner = conversationOwner row.authority

/-- Rows of one principal share their ledgers. -/
theorem ledgerKey_eq {a b : Authority} (same : conversationOwner a = conversationOwner b)
    (root : Id) : ledgerKey root a = ledgerKey root b := by
  simp only [conversationOwner, OwnerKey.mk.injEq] at same
  simp only [ledgerKey, same.1, same.2.1]

/-- The fence of a run never falls. -/
theorem Step.behind (step : Step allowed s t)
    (before : ∃ row, s.runs.get? r = some row ∧ fence ≤ row.fence) :
    ∃ row, t.runs.get? r = some row ∧ fence ≤ row.fence := by
  obtain ⟨row, there, lower⟩ := before
  exact step.runs.keeps (P := fun row => fence ≤ row.fence)
    (fun _ _ _ move le => le.trans move.leaseOrder.fence) there lower

variable {k : Nat}

/-- A step that carries reservations over carries what they are held for. -/
theorem Held.step (held : Held s r fence k) (step : Step allowed s t)
    (routed : s.Routed)
    (carried : ∀ root key item row, Leased s r fence row →
      key = ⟨row.run.conversationID, r, k⟩ → item.owner = conversationOwner row.authority →
      item.fence = fence → (reservationsAt s root).get? key = some item →
      ∃ next, (reservationsAt t root).get? key = some next ∧ next.fence = item.fence ∧
        next.owner = item.owner) : Held t r fence k := by
  refine ⟨step.behind held.behind, fun row leased id task d delegated found => ?_⟩
  obtain ⟨old, leased', same⟩ := step.leased held.behind leased
  have delegated' : old.run.delegated = some (id, task) := by
    unfold Run.delegated at delegated ⊢
    rw [← same.background]
    exact delegated
  -- The delegation was there before, under the same root.
  obtain ⟨before, there⟩ : ∃ before, s.delegations.get? id = some before := by
    unfold Run.delegated at delegated'
    obtain ⟨b, background, named⟩ := Option.bind_eq_some_iff.mp delegated'
    obtain ⟨id', belongs, pair⟩ := Option.map_eq_some_iff.mp named
    cases pair
    obtain ⟨work, at_task, executes, _⟩ := routed.run_task leased'.found background
    obtain ⟨before, there, _⟩ := routed.delegated at_task (executes.delegation ▸ belongs)
    exact ⟨before, there⟩
  obtain ⟨d', found', order⟩ := step.agreementOrder there
  rw [found] at found'
  cases found'
  rw [order.root, ledgerKey_eq same.principal, same.conversation]
  rcases held.kept old leased' id task before delegated' there with ⟨done, result, stored, has⟩ |
      ⟨item, reserved, under, owner⟩
  · obtain ⟨next, stored', _, results⟩ := step.stepsKept _ done stored
    exact .inl ⟨next, result, stored', results result has⟩
  · obtain ⟨next, reserved', under', owner'⟩ :=
      carried _ _ item old leased' rfl owner under reserved
    exact .inr ⟨next, reserved', under'.trans under,
      (owner'.trans owner).trans same.principal.symm⟩

/-- Changing the ledgers takes away nothing that is still held for. -/
theorem Held.with_ledgers (held : Held s r fence k) (ledgers : Table WorkLedger.key)
    (carried : ∀ root key item row, Leased s r fence row →
      key = ⟨row.run.conversationID, r, k⟩ → item.owner = conversationOwner row.authority →
      item.fence = fence →
      (∀ done, s.steps.get? (r, k) = some done → done.result = none) →
      (reservationsAt s root).get? key = some item →
      ∃ next, (reservationsAt { s with ledgers := ledgers } root).get? key = some next ∧
        next.fence = item.fence ∧ next.owner = item.owner) :
    Held { s with ledgers := ledgers } r fence k := by
  refine ⟨held.behind, fun row leased id task d delegated found => ?_⟩
  have leased' : Leased s r fence row := ⟨leased.found, leased.running, leased.fence, leased.live⟩
  rcases held.kept row leased' id task d delegated found with finished |
      ⟨item, reserved, under, owner⟩
  · exact .inl finished
  · by_cases pending : ∀ done, s.steps.get? (r, k) = some done → done.result = none
    · obtain ⟨next, reserved', under', owner'⟩ :=
        carried _ _ item row leased' rfl owner under pending reserved
      exact .inr ⟨next, reserved', under'.trans under, owner'.trans owner⟩
    · push Not at pending
      obtain ⟨done, stored, has⟩ := pending
      obtain ⟨result, has⟩ := Option.ne_none_iff_exists'.mp has
      exact .inl ⟨done, result, stored, has⟩

end DomainryAgent.Protocol
