import Mathlib.Algebra.BigOperators.Group.List.Lemmas
import Mathlib.Algebra.Order.BigOperators.Group.List
import Mathlib.Algebra.Order.Group.Nat
import Mathlib.Data.List.Sort
import DomainryAgent.AgentTask.Fencing
import DomainryAgent.Lib.RoundRobin

/-!
The recovery pass over workflow callbacks.

A pass lists runs that have ended, a page of each workspace and a page over all,
and only then looks which of them still have a callback to deliver.  So it is the
history of a workspace, not the number of pending callbacks, that decides what
the pass reaches.
-/

namespace DomainryAgent.AgentTask

open Lib

/-! ### The pass -/

/-- A workspace the workers look after. -/
structure Scope where
  workspaceID : Id
  updatedAt : Time

/-- `agentpersistence.AgentTaskRunFilter`. -/
structure Filter where
  processID : Option Id
  statuses : List Status
  limit : Nat

/-- The size of the page a filter asks for. -/
def Filter.page (filter : Filter) : Nat :=
  if filter.limit = 0 ∨ 500 < filter.limit then 100 else filter.limit

def Filter.accepts (filter : Filter) (row : Row) : Prop :=
  (filter.processID = none ∨ row.run.processID = filter.processID) ∧
    (filter.statuses = [] ∨ row.status ∈ filter.statuses)

instance (filter : Filter) (row : Row) : Decidable (filter.accepts row) :=
  inferInstanceAs (Decidable (_ ∧ _))

/-- The rows of a workspace a filter accepts, oldest first. -/
def matchingRows (rows : Rows) (workspaceID : Id) (filter : Filter) : List Row :=
  (rows.rows.filter (fun row => row.run.workspaceID = workspaceID ∧ filter.accepts row)).insertionSort
    (fun x y => x.createdAt ≤ y.createdAt)

/-- `agent_task_run_store.go::List`. -/
def list (rows : Rows) (workspaceID : Id) (filter : Filter) : List TaskRun :=
  ((matchingRows rows workspaceID filter).take filter.page).map (·.run)

/-- One round over the queues: what has been taken with the head of each queue in
turn, until the page is full, the queues that are left and whether there was a
head. -/
def fairRound (limit : Nat) : List (List TaskRun) → List TaskRun →
    List TaskRun × List (List TaskRun) × Bool
  | [], out => (out, [], false)
  | [] :: queues, out =>
    let rest := fairRound limit queues out
    (rest.1, [] :: rest.2.1, rest.2.2)
  | (run :: queue) :: queues, out =>
    if (out ++ [run]).length = limit then (out ++ [run], queue :: queues, true)
    else
      let rest := fairRound limit queues (out ++ [run])
      (rest.1, queue :: rest.2.1, true)

/-- Rounds until the page is full or the queues are empty.  Each takes one run at
least, so the size of the page is fuel enough. -/
def fairRounds (limit : Nat) : Nat → List (List TaskRun) → List TaskRun → List TaskRun
  | 0, _, out => out
  | fuel + 1, queues, out =>
    if out.length < limit then
      let round := fairRound limit queues out
      if round.2.2 = true then fairRounds limit fuel round.2.1 round.1 else round.1
    else out

/-- The queues of the workspaces, in the order in which they first appear. -/
def workspaceQueues (values : List TaskRun) : List (List TaskRun) :=
  (values.map (·.workspaceID)).eraseDups.map fun workspaceID =>
    values.filter (·.workspaceID = workspaceID)

/-- `agent_task_run_system_store.go::fairAgentRuns`. -/
def fairAgentRuns (values : List TaskRun) (limit : Nat) : List TaskRun :=
  if values.length ≤ 1 ∨ limit = 0 then values
  else fairRounds limit limit (workspaceQueues values) []

variable {run : TaskRun} {p : Nat}

section Fair

variable {limit : Nat} {queues : List (List TaskRun)} {out : List TaskRun}

/-- A round fills the page as far as the heads go. -/
theorem fairRound_page (room : out.length < limit) :
    (fairRound limit queues out).1 = (out ++ queues.filterMap List.head?).take limit := by
  induction queues generalizing out with
  | nil => simp [fairRound, List.take_of_length_le room.le]
  | cons queue queues ih =>
    cases queue with
    | nil => exact ih room
    | cons run queue =>
      rw [heads_cons_cons, List.append_cons]
      unfold fairRound
      split
      · next full => rw [List.take_append_of_le_length full.ge, List.take_of_length_le full.le]
      · apply ih
        simp_all only [List.length_append, List.length_singleton]
        omega

theorem fairRounds_full (full : limit ≤ out.length) (fuel : Nat) :
    fairRounds limit fuel queues out = out := by
  cases fuel with
  | zero => rfl
  | succ fuel => rw [fairRounds, if_neg full.not_gt]

/-- A round for which there is room takes every head. -/
theorem fairRound_of_room (room : out.length + (queues.filterMap List.head?).length ≤ limit) :
    fairRound limit queues out =
      (out ++ queues.filterMap List.head?, queues.map List.tail,
        decide (queues.filterMap List.head? ≠ [])) := by
  induction queues generalizing out with
  | nil => simp [fairRound]
  | cons queue queues ih =>
    cases queue with
    | nil =>
      rw [heads_nil_cons] at room
      simp [fairRound, ih room]
    | cons run queue =>
      rw [heads_cons_cons, List.length_cons] at room
      unfold fairRound
      split
      · next full =>
        -- the page is full, so the other queues are empty
        have none : queues.filterMap List.head? = [] := by
          apply List.eq_nil_iff_length_eq_zero.mpr
          simp only [List.length_append, List.length_singleton] at full
          omega
        simp [none, tails_of_no_head none]
      · have fits : (out ++ [run]).length + (queues.filterMap List.head?).length ≤ limit := by
          simp only [List.length_append, List.length_singleton]
          omega
        simp [ih fits]

/-- The page is what the rounds serve, cut at its size. -/
theorem fairRounds_eq {fuel : Nat} (enough : limit ≤ out.length + fuel) (le : out.length ≤ limit) :
    fairRounds limit fuel queues out = (out ++ rounds fuel queues).take limit := by
  induction fuel generalizing queues out with
  | zero => rw [rounds, List.append_nil, List.take_of_length_le le, fairRounds]
  | succ fuel ih =>
    by_cases full : limit ≤ out.length
    · rw [fairRounds_full full, List.take_append_of_le_length full, List.take_of_length_le le]
    rw [fairRounds, if_pos (by omega), rounds, ← List.append_assoc]
    by_cases room : out.length + (queues.filterMap List.head?).length ≤ limit
    · rw [fairRound_of_room room]
      dsimp only
      split
      · next found =>
        have some := List.length_pos_of_ne_nil (of_decide_eq_true found)
        apply ih
        · rw [List.length_append]
          omega
        · rwa [List.length_append]
      · next absent =>
        have none : queues.filterMap List.head? = [] := by simpa using absent
        rw [none, tails_of_no_head none, rounds_of_no_head none, List.append_nil, List.append_nil,
          List.take_of_length_le le]
    · -- the round fills the page, so that no other follows
      have page : (fairRound limit queues out).1 = _ := fairRound_page (by omega)
      have long : limit ≤ (out ++ queues.filterMap List.head?).length := by
        rw [List.length_append]
        omega
      dsimp only
      rw [page, fairRounds_full (by rw [List.length_take]; omega), ite_self,
        List.take_append_of_le_length long]

theorem nodup_eraseDups (keys : List Id) : keys.eraseDups.Nodup := by
  -- by the length: the rest of the keys is filtered before it is looked at
  induction size : keys.length using Nat.strong_induction_on generalizing keys with
  | _ n ih =>
    cases keys with
    | nil => exact List.nodup_nil
    | cons key keys =>
      rw [List.eraseDups_cons, List.nodup_cons]
      constructor
      · rw [List.mem_eraseDups, List.mem_filter]
        simp
      · refine ih _ ?_ _ rfl
        have shorter := List.length_filter_le (fun other => !other == key) keys
        rw [List.length_cons] at size
        omega

theorem fairAgentRuns_eq (values : List TaskRun) (positive : 0 < limit) :
    fairAgentRuns values limit = (rounds limit (workspaceQueues values)).take limit := by
  unfold fairAgentRuns
  split
  · next few =>
    cases values with
    | nil =>
      have idle : rounds limit ([] : List (List TaskRun)) = [] := rounds_of_no_head rfl limit
      simp [workspaceQueues, idle]
    | cons run rest =>
      obtain rfl : rest = [] := by
        rw [List.length_cons] at few
        exact List.eq_nil_of_length_eq_zero (by omega)
      obtain ⟨n, rfl⟩ : ∃ n, limit = n + 1 := ⟨limit - 1, by omega⟩
      have idle : rounds n [([] : List TaskRun)] = [] := rounds_of_no_head rfl n
      simp [workspaceQueues, rounds, idle, List.eraseDups_cons]
  · exact fairRounds_eq (Nat.le_add_left _ _) (Nat.zero_le _)

theorem filter_queues (k : Nat) (values : List TaskRun) (w : Id) :
    (rounds k (workspaceQueues values)).filter (·.workspaceID = w) =
      (values.filter (·.workspaceID = w)).take k :=
  filter_rounds (nodup_eraseDups _)
    (fun w run member => by simpa using (List.mem_filter.mp member).2)
    (fun w absent => by simpa [List.filter_eq_nil_iff] using absent) k w

theorem min_sum_min (sizes : List Nat) :
    min limit (sizes.map (min · limit)).sum = min limit sizes.sum := by
  induction sizes with
  | nil => rfl
  | cons size sizes ih =>
    simp only [List.map_cons, List.sum_cons]
    omega

theorem sum_workspaceQueues (values : List TaskRun) :
    ((workspaceQueues values).map List.length).sum = values.length := by
  have same : (values.map (·.workspaceID)).eraseDups.Perm (values.map (·.workspaceID)).dedup :=
    (List.perm_ext_iff_of_nodup (nodup_eraseDups _) (List.nodup_dedup _)).mpr (by simp)
  have counted := List.sum_map_count_dedup_eq_length (values.map (·.workspaceID))
  rw [List.length_map] at counted
  rw [workspaceQueues, List.map_map, (same.map _).sum_eq, ← counted]
  simp only [Function.comp_def, List.count, List.countP_map, ← List.countP_eq_length_filter,
    beq_eq_decide]

/-- What of a workspace is on the page: the rounds that fit, and of the last one
at most one run. -/
theorem filter_fairAgentRuns (values : List TaskRun) (positive : 0 < limit) :
    ∃ j, ∀ workspaceID,
      (values.filter (·.workspaceID = workspaceID)).take j <+:
        (fairAgentRuns values limit).filter (·.workspaceID = workspaceID) ∧
      (fairAgentRuns values limit).filter (·.workspaceID = workspaceID) <+:
        (values.filter (·.workspaceID = workspaceID)).take (j + 1) := by
  obtain ⟨j, low, high⟩ := take_rounds_between limit limit (workspaceQueues values)
  refine ⟨j, fun workspaceID => ?_⟩
  rw [fairAgentRuns_eq values positive, ← filter_queues j, ← filter_queues (j + 1)]
  exact ⟨low.filter _, high.filter _⟩

/-- **Fairness.**  A page is as long as the runs allow.  Of every workspace it has
the first runs, and of two workspaces equally many up to one, unless all runs of
the one that has fewer are on it. -/
theorem fair_interleaving (values : List TaskRun) (limit : Nat) (positive : 0 < limit) :
    (fairAgentRuns values limit).length = min limit values.length ∧
      ∀ w, (fairAgentRuns values limit).filter (·.workspaceID = w) <+:
          values.filter (·.workspaceID = w) ∧
        ∀ v, ((fairAgentRuns values limit).filter (·.workspaceID = v)).length ≤
            ((fairAgentRuns values limit).filter (·.workspaceID = w)).length + 1 ∨
          (fairAgentRuns values limit).filter (·.workspaceID = w) =
            values.filter (·.workspaceID = w) := by
  obtain ⟨j, between⟩ := filter_fairAgentRuns values positive
  refine ⟨?_, fun w => ?_⟩
  · rw [fairAgentRuns_eq values positive, List.length_take, length_rounds,
      ← sum_workspaceQueues values, ← min_sum_min (List.map List.length _), List.map_map]
    rfl
  have first := (between w).2.trans (List.take_prefix _ _)
  refine ⟨first, fun v => ?_⟩
  have served := (between w).1.length_le
  have others := (between v).2.length_le
  rw [List.length_take] at served others
  by_cases all : (values.filter (·.workspaceID = w)).length ≤ j
  · exact .inr (first.eq_of_length_le (by omega))
  · exact .inl (by omega)

theorem two_of_three_are_listed :
    0 < 2 ∧ (fairAgentRuns [(newRow sampleRequest 0).run, (newRow sampleRequest 1).run,
      { (newRow sampleRequest 2).run with workspaceID := 2 }] 2).length = 2 :=
  ⟨by decide, (fair_interleaving _ 2 (by decide)).1⟩

end Fair

/-! ### What a pass reaches -/

section Reach

variable {rows : Rows} {scopes : Scopes}

/-- The runs of a workspace that have ended. -/
def history (rows : Rows) (workspaceID : Id) : List Row :=
  rows.rows.filter fun row => row.run.workspaceID = workspaceID ∧ row.status.terminal = true

variable {row : Row} {workspaceID : Id} {filter : Filter}

section Pages

variable {page : List Id}

variable (nodup : page.Nodup)

include nodup

end Pages

/-- A task of a workflow that has succeeded. -/
def endedRow (id : Id) (createdAt : Time) (state : Reconciliation) : Row :=
  let row := newRow { sampleRequest with id := id } createdAt
  { row with
    status := .succeeded
    run := { row.run with status := .succeeded, outcome := "success", reconciliation := state } }

/-- Two tasks, the later one pending. -/
def quiet : Rows where
  rows := [endedRow 0 0 ⟨false, .delivered, none⟩, endedRow 1 1 callbackPending]
  nodup := by decide

end Reach

end DomainryAgent.AgentTask
