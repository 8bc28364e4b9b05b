import DomainryAgent.Protocol.Dependencies
import DomainryAgent.Protocol.Tasks

/-!
The count of a goal's delegations, exactly.

A ledger is opened for a conversation of its workspace, and nothing but an
admission changes either its count or the delegations of its goal.  What an
admission does to both is a matter of the operation as a whole, since it counts
the delegation in one move and stores it in a later one.
-/

namespace DomainryAgent.Protocol

open Lib

variable {allowed : Hazard → Prop} {s t : Core} {old new : Delegation}
  {delegations : Table Delegation.id}

/-- The root of a goal is a conversation of the goal's workspace. -/
def RootedIn (conversations : Table Conversation.id) (key : LedgerKey) : Prop :=
  ∃ c, conversations.get? key.rootConversationID = some c ∧
    c.owner.runtimeID = key.runtimeID ∧ c.owner.workspaceID = key.workspaceID

/-- Every ledger counts the delegations of its goal, and stands for a root. -/
structure Tallied (s : Core) : Prop where
  counts : ∀ key ledger, s.ledgers.get? key = some ledger →
    ledger.delegations = goalCount s.delegations key
  rooted : ∀ key ledger, s.ledgers.get? key = some ledger → RootedIn s.conversations key

theorem Tallied.empty (ledgers : s.ledgers = .empty) : Tallied s := by
  constructor
  all_goals
    intro key ledger found
    rw [ledgers] at found
    cases found

/-- A root is found in one workspace. -/
theorem RootedIn.unique {conversations : Table Conversation.id} {k l : LedgerKey}
    (first : RootedIn conversations k) (second : RootedIn conversations l)
    (root : k.rootConversationID = l.rootConversationID) : k = l := by
  obtain ⟨c, found, runtime, workspace⟩ := first
  obtain ⟨c', found', runtime', workspace'⟩ := second
  rw [root, found'] at found
  cases found
  cases k
  cases l
  simp only [LedgerKey.mk.injEq]
  exact ⟨runtime.symm.trans runtime', workspace.symm.trans workspace', root⟩

/-- No step that is not part of an admission changes a count, a ledger's or a
goal's. -/
theorem Step.tallied (kept : ¬allowed .admits) (step : Step allowed s t)
    (counted : s.Counted) (tallied : Tallied s) : Tallied t := by
  have put : ∀ {old new : Delegation}, s.delegations.get? old.id = some old →
      SameDelegation old new → ∀ key ledger, s.ledgers.get? key = some ledger →
        ledger.delegations = goalCount (s.delegations.put new) key := by
    intro old new found same key ledger there
    have here : s.delegations.get? new.id = some old := same.id ▸ found
    have exchange := Table.countP_put (goalKey · = key) here
    rw [same.goalKey] at exchange
    exact (tallied.counts key ledger there).trans (Nat.add_right_cancel exchange).symm
  have rooted : ∀ key ledger, s.ledgers.get? key = some ledger → RootedIn t.conversations key := by
    intro key ledger there
    obtain ⟨c, found, runtime, workspace⟩ := tallied.rooted key ledger there
    obtain ⟨next, there, same⟩ := step.conversation_stays found
    exact ⟨next, there, same.owner ▸ runtime, same.owner ▸ workspace⟩
  cases step with
  | move move =>
    cases move with
    | touchDelegation found same => exact ⟨put found same, rooted⟩
    | @openLedger ledger _ _ _ _ inserted few =>
      obtain ⟨missing, _⟩ := Table.get?_insert? inserted
      obtain ⟨d, stored, goal⟩ := few.resolve_left fun ⟨admits, _⟩ => kept admits
      obtain ⟨other, found⟩ := counted.opened _ d stored
      rw [goal, missing] at found
      cases found
    | @ledger old new _ found work =>
      have same : new.delegations = old.delegations := by
        cases work with
        | join _ _ _ admits => exact absurd admits kept
        | reserve => exact prune_delegations
        | start | complete | unreserved => rfl
        | release =>
          rw [dropReservation_eq]
          split <;> rfl
      refine ⟨fun key ledger there => ?_, fun key ledger there => ?_⟩
      · rcases Table.get?_put_some there with ⟨rfl, rfl, _⟩ | ⟨_, before⟩
        · exact same.trans (tallied.counts _ _ (work.key ▸ found))
        · exact tallied.counts key ledger before
      · rcases Table.get?_put_some there with ⟨rfl, rfl, _⟩ | ⟨_, before⟩
        · exact tallied.rooted _ _ (work.key ▸ found)
        · exact tallied.rooted key ledger before
    | _ => exact ⟨tallied.counts, rooted⟩
  | amendDelegation found same | resumeDelegation found same | transferDelegation found same =>
    exact ⟨put found same, rooted⟩
  | admitDelegation _ _ _ _ _ _ _ _ _ _ _ _ _ admits => exact absurd admits kept
  | snapshot => exact ⟨tallied.counts, rooted⟩

end DomainryAgent.Protocol
