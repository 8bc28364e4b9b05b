import DomainryAgent.Refinement.Operations

/-!
The operations that present a claim.  All of them are under the claim check,
except the heartbeat, which asks only whether the run is still the claim's, and
the receipt of a call, which a cancelled run still takes from the claim it was
taken from.
-/

namespace DomainryAgent

open Lib Tx

namespace Refinement

variable {s : Db} {c : Claim}

/-- What an operation does with a claim the check refuses: nothing, or it is a
heartbeat of the run's own claim, or the receipt of an interrupted call. -/
inductive Refused (s : Db) (c : Claim) : Op → Db → Prop
  | unchanged {op : Op} : Refused s c op s
  | heartbeat {ttl : Nat} {row : RunRow} {t : Db} (found : s.runs.get? c.runID = some row)
      (owner : row.owner = some c.owner) (fence : row.fence = c.fence) :
      Refused s c (.heartbeat c ttl) t
  | receipt {number : Nat} {callID : Id} {result : ToolResult} {row : RunRow} {t : Db}
      (interrupted : Interrupted s.toCore c number callID row) :
      Refused s c (.finishExecutionTool c number callID result) t

section Guards

variable {α β : Type} {Q : β → Db → Prop} (refused : ∀ row, ¬Accepted s.toCore c row)
include refused

theorem claimed_refuses {f : RunRow → StoreTx β} : (claimed c >>= f).Ensures s Q := by
  rw [ensures_bind, ensures_claimed]
  exact fun row checked => absurd (accepted_of_claimed checked) (refused row)

end Guards

theorem heartbeat_refuses {ttl : Nat} :
    (heartbeat c ttl).Ensures s (fun _ t => Refused s c (.heartbeat c ttl) t) := by
  simp only [heartbeat, wp]
  intro _
  split
  · exact ensures_pure.mpr .unchanged
  · next row live =>
    simp only [wp]
    obtain ⟨found, held⟩ := Option.filter_eq_some_iff.mp live
    obtain ⟨_, _, _, owner, fence, _⟩ := of_decide_eq_true held
    exact .heartbeat found owner fence

/-- An operation cannot do anything with a claim the check refuses, save what
`Refused` lists. -/
theorem exec_refuses {op : Op} (presents : op.presents = some c)
    (refused : ∀ row, ¬Accepted s.toCore c row) :
    (exec op).Ensures s (fun _ t => Refused s c op t) := by
  cases op
  all_goals cases presents
  all_goals simp only [exec, wp]
  case heartbeat => exact heartbeat_refuses
  case finishExecutionTool =>
    simp only [finishExecutionTool, wp]
    intro _
    refine receiptRow_finds.mono ?_
    rintro row _ ⟨rfl, accepted | interrupted⟩
    · exact absurd accepted (refused row)
    · exact fun _ _ _ => .receipt interrupted
  case startTask | updatePlan | submitCompletion =>
    exact ensures_bind.mpr (ensures_conversationAuthority.mpr fun _ => claimed_refuses refused)
  case appendEvent | modelInput | finish | completeExecutionStep | beginExecutionSubtool
      | beginExecutionTool | reuseEffect | startWork | releaseWork =>
    exact claimed_refuses refused
  -- The others look at the request first.
  all_goals
    refine ensures_bind.mpr (ensures_demand.mpr fun _ => ?_)
    exact claimed_refuses refused

end Refinement

end DomainryAgent
