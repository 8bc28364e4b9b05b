import DomainryAgent.Lib.Dag
import Mathlib.Data.List.Perm.Subperm

/-!
A breadth-first search for a way from a queue of nodes to a target.

The search reads the out-edges of each node once and refuses when it meets the
target or more than `limit` nodes.  A search that passes leaves a closed set
without the target (`forward_of_search`); in a graph of at most `limit` nodes it
refuses for nothing but a way to the target (`reaches_of_search`).  Replacing
the out-edges of a node by edges that passed the search keeps a graph acyclic
(`acyclic_of_replaced`).
-/

namespace DomainryAgent.Lib

variable {α β ε : Type}

theorem except_bind_ok {x : Except ε α} {f : α → Except ε β} {b : β}
    (ok : (x >>= f) = .ok b) : ∃ a, x = .ok a ∧ f a = .ok b := by
  cases x with
  | ok a => exact ⟨a, rfl, ok⟩
  | error e => cases ok

theorem except_ite_ok {p : Prop} [Decidable p] {x : Except ε α} {e : ε} {a : α}
    (ok : (if p then .error e else x) = .ok a) : ¬p ∧ x = .ok a := by
  split at ok
  · cases ok
  · next passed => exact ⟨passed, ok⟩

theorem except_bind_error {x : Except ε α} {f : α → Except ε β} {e : ε}
    (failed : (x >>= f) = .error e) : x = .error e ∨ ∃ a, x = .ok a ∧ f a = .error e := by
  cases x with
  | ok a => exact .inr ⟨a, rfl, failed⟩
  | error e => cases failed; exact .inl rfl

namespace Search

open Relation Dag

variable [DecidableEq α]

/-- Search from `queue`; the nodes in `visited` were read before. -/
def search (read : α → Except ε (List α)) (refusal : ε) (target : α) (limit : Nat) :
    Nat → List α → List α → Except ε Unit
  | _, [], _ => .ok ()
  | 0, _ :: _, _ => .error refusal
  | fuel + 1, x :: queue, visited =>
    if x = target then .error refusal
    else if x ∈ visited then search read refusal target limit fuel queue visited
    else if limit ≤ visited.length then .error refusal
    else do
      let next ← read x
      search read refusal target limit fuel (queue ++ next) (x :: visited)

variable {read : α → Except ε (List α)} {refusal : ε} {target : α} {limit width fuel : Nat}
  {deps : α → Option (List α)} {queue visited nodes : List α}

/-! ### A search that passes -/

/-- A set of nodes that no edge leaves and that does not hold the target. -/
structure Avoids (deps : α → Option (List α)) (target : α) (within : α → Prop) : Prop where
  target : ∀ x, within x → x ≠ target
  closed : ∀ x, within x → ∀ y, Edge deps x y → within y

omit [DecidableEq α] in
theorem Avoids.forward {within : α → Prop} (avoids : Avoids deps target within) {x : α}
    (member : within x) : ¬ ReflTransGen (Edge deps) x target := by
  intro path
  have stays : ∀ y, ReflTransGen (Edge deps) x y → within y := by
    intro y path
    induction path with
    | refl => exact member
    | tail _ edge ih => exact avoids.closed _ ih _ edge
  exact avoids.target _ (stays _ path) rfl

/-- What is left of a search that passed: the queue and the visited nodes lie in
a set that avoids the target. -/
theorem avoids_of_search (reads : ∀ x ds, read x = .ok ds → deps x = some ds)
    (passed : search read refusal target limit fuel queue visited = .ok ())
    (apart : ∀ x ∈ visited, x ≠ target)
    (open_ : ∀ x ∈ visited, ∀ y, Edge deps x y → y ∈ visited ∨ y ∈ queue) :
    ∃ within : α → Prop, Avoids deps target within ∧ (∀ x ∈ queue, within x) ∧
      ∀ x ∈ visited, within x := by
  fun_induction search read refusal target limit fuel queue visited with
  | case1 _ visited =>
    refine ⟨(· ∈ visited), ⟨apart, fun x member y edge => ?_⟩, by simp, fun _ => id⟩
    exact (open_ x member y edge).resolve_right (by simp)
  | case2 | case3 | case5 => cases passed
  | case4 fuel x rest visited other before ih =>
    -- a node read before: its place in the queue is taken by `visited`
    obtain ⟨within, avoids, queued, seen⟩ := ih passed apart fun v member y edge => by
      rcases open_ v member y edge with there | there
      · exact .inl there
      · exact (List.mem_cons.mp there).imp_left fun (same : y = x) => same ▸ before
    exact ⟨within, avoids, List.forall_mem_cons.mpr ⟨seen x before, queued⟩, seen⟩
  | case6 fuel x rest visited other fresh room ih =>
    obtain ⟨next, answer, passed⟩ := except_bind_ok passed
    have edges := reads x next answer
    obtain ⟨within, avoids, queued, seen⟩ := ih next passed
      (List.forall_mem_cons.mpr ⟨other, apart⟩) fun v member y edge => by
        rcases List.mem_cons.mp member with rfl | member
        · obtain ⟨ds, out, there⟩ := edge
          rw [edges] at out
          cases out
          exact .inr (List.mem_append_right _ there)
        · rcases open_ v member y edge with there | there
          · exact .inl (List.mem_cons_of_mem _ there)
          · rcases List.mem_cons.mp there with rfl | there
            · exact .inl List.mem_cons_self
            · exact .inr (List.mem_append_left _ there)
    obtain ⟨first, others⟩ := List.forall_mem_cons.mp seen
    refine ⟨within, avoids, List.forall_mem_cons.mpr ⟨first, fun y member => ?_⟩, others⟩
    exact queued y (List.mem_append_left _ member)

/-- No node a passed search started from leads to the target. -/
theorem forward_of_search (reads : ∀ x ds, read x = .ok ds → deps x = some ds)
    (passed : search read refusal target limit fuel queue [] = .ok ()) :
    ∀ x ∈ queue, ¬ ReflTransGen (Edge deps) x target := by
  obtain ⟨within, avoids, queued, -⟩ := avoids_of_search reads passed (by simp) (by simp)
  exact fun x member => avoids.forward (queued x member)

/-! ### A search that refuses -/

/-- A graph on `nodes` with at most `limit` nodes and `width` edges from each. -/
structure Bounded (deps : α → Option (List α)) (nodes : List α) (limit width : Nat) : Prop where
  few : nodes.length ≤ limit
  inside : ∀ x ∈ nodes, ∀ y, Edge deps x y → y ∈ nodes
  narrow : ∀ x ds, deps x = some ds → ds.length ≤ width

/-- How often the search may still take a node from its queue. -/
def effort (limit width : Nat) (queue visited : List α) : Nat :=
  queue.length + width * (limit - visited.length)

omit [DecidableEq α] in
/-- Reading a node uses up more than its edges bring. -/
theorem effort_read {x : α} {next : List α} (room : visited.length < limit)
    (narrow : next.length ≤ width) :
    effort limit width (queue ++ next) (x :: visited) < effort limit width (x :: queue) visited := by
  have split : limit - visited.length = (limit - (visited.length + 1)) + 1 := by omega
  have grown : width * (limit - visited.length) =
      width * (limit - (visited.length + 1)) + width := by rw [split, Nat.mul_succ]
  simp only [effort, List.length_append, List.length_cons, grown]
  omega

/-- In a bounded graph the search refuses only what leads to the target. -/
theorem reaches_of_search (reads : ∀ x ds, read x = .ok ds → deps x = some ds)
    (fails : ∀ x e, read x = .error e → e ≠ refusal) (bounded : Bounded deps nodes limit width)
    (refused : search read refusal target limit fuel queue visited = .error refusal)
    (queued : ∀ x ∈ queue, x ∈ nodes) (seen : ∀ x ∈ visited, x ∈ nodes) (nodup : visited.Nodup)
    (enough : effort limit width queue visited ≤ fuel) :
    ∃ x ∈ queue, ReflTransGen (Edge deps) x target := by
  fun_induction search read refusal target limit fuel queue visited with
  | case1 => cases refused
  | case2 x rest => simp [effort] at enough
  | case3 fuel rest visited => exact ⟨target, List.mem_cons_self, .refl⟩
  | case4 fuel x rest visited other before ih =>
    obtain ⟨_, rest_nodes⟩ := List.forall_mem_cons.mp queued
    have less : effort limit width rest visited ≤ fuel := by
      simp only [effort, List.length_cons] at enough ⊢
      omega
    obtain ⟨y, member, path⟩ := ih refused rest_nodes seen nodup less
    exact ⟨y, List.mem_cons_of_mem _ member, path⟩
  | case5 fuel x rest visited other fresh full =>
    -- more distinct nodes than there are
    have all : (x :: visited).Nodup := List.nodup_cons.mpr ⟨fresh, nodup⟩
    have short := (all.subperm (List.forall_mem_cons.mpr ⟨queued x List.mem_cons_self, seen⟩)).length_le
    have few := bounded.few
    simp only [List.length_cons] at short
    omega
  | case6 fuel x rest visited other fresh room ih =>
    obtain ⟨here, rest_nodes⟩ := List.forall_mem_cons.mp queued
    rcases except_bind_error refused with failed | ⟨next, answer, refused⟩
    · exact absurd rfl (fails x refusal failed)
    have edges := reads x next answer
    have less : effort limit width (rest ++ next) (x :: visited) <
        effort limit width (x :: rest) visited :=
      effort_read (Nat.not_le.mp room) (bounded.narrow x next edges)
    have both : ∀ y ∈ rest ++ next, y ∈ nodes := List.forall_mem_append.mpr
      ⟨rest_nodes, fun y member => bounded.inside x here y ⟨next, edges, member⟩⟩
    obtain ⟨y, member, path⟩ := ih next refused both (List.forall_mem_cons.mpr ⟨here, seen⟩)
      (List.nodup_cons.mpr ⟨fresh, nodup⟩) (by omega)
    rcases List.mem_append.mp member with member | member
    · exact ⟨y, List.mem_cons_of_mem _ member, path⟩
    · exact ⟨x, List.mem_cons_self, .head ⟨next, edges, member⟩ path⟩

/-- Once there is fuel for the whole search, more of it changes nothing. -/
theorem search_fuel (reads : ∀ x ds, read x = .ok ds → deps x = some ds)
    (narrow : ∀ x ds, deps x = some ds → ds.length ≤ width)
    (enough : effort limit width queue visited ≤ fuel) {more : Nat} (larger : fuel ≤ more) :
    search read refusal target limit more queue visited =
      search read refusal target limit fuel queue visited := by
  induction fuel generalizing queue visited more with
  | zero =>
    cases queue with
    | nil => cases more <;> rfl
    | cons x rest => simp [effort] at enough
  | succ fuel ih =>
    obtain ⟨more, rfl⟩ : ∃ n, more = n + 1 := ⟨more - 1, by omega⟩
    cases queue with
    | nil => rfl
    | cons x rest =>
      simp only [search]
      split
      · rfl
      · split
        · refine ih ?_ (by omega)
          simp only [effort, List.length_cons] at enough ⊢
          omega
        · split
          · rfl
          · next room =>
            cases answer : read x with
            | error e => rfl
            | ok next =>
              have less : effort limit width (rest ++ next) (x :: visited) <
                  effort limit width (x :: rest) visited :=
                effort_read (Nat.not_le.mp room) (narrow x next (reads x next answer))
              exact ih (by omega) (by omega)

/-! ### Replacing the edges of a node -/

section Replaced

variable {r r' : α → α → Prop} {a : α}

omit [DecidableEq α] in
/-- A way to `a` uses no edge from `a`. -/
theorem reaches_of_replaced (replaced : ∀ x y, r' x y → r x y ∨ x = a ∧ ¬ ReflTransGen r y a) {x : α}
    (path : ReflTransGen r' x a) : ReflTransGen r x a := by
  induction path using ReflTransGen.head_induction_on with
  | refl => exact .refl
  | head edge _ ih =>
    rcases replaced _ _ edge with kept | ⟨rfl, _⟩
    · exact .head kept ih
    · exact .refl

omit [DecidableEq α] in
/-- A graph stays acyclic when a node gets edges to nodes that do not lead to
it. -/
theorem acyclic_of_replaced (replaced : ∀ x y, r' x y → r x y ∨ x = a ∧ ¬ ReflTransGen r y a)
    (acyclic : ∀ x, ¬ TransGen r x x) (x : α) : ¬ TransGen r' x x := by
  -- a path is an old one or passes `a`, going on from a node that does not lead to `a`
  have passes : ∀ y, TransGen r' x y → TransGen r x y ∨ ReflTransGen r' x a ∧
      ∃ z, ¬ ReflTransGen r z a ∧ ReflTransGen r' z y := by
    intro y path
    induction path with
    | single edge =>
      rcases replaced _ _ edge with kept | ⟨rfl, forward⟩
      · exact .inl (.single kept)
      · exact .inr ⟨.refl, _, forward, .refl⟩
    | tail before edge ih =>
      rcases ih with kept | ⟨back, z, forward, on⟩
      · rcases replaced _ _ edge with again | ⟨rfl, forward⟩
        · exact .inl (kept.tail again)
        · exact .inr ⟨before.to_reflTransGen, _, forward, .refl⟩
      · exact .inr ⟨back, z, forward, on.tail edge⟩
  intro cycle
  rcases passes x cycle with kept | ⟨back, z, forward, on⟩
  · exact acyclic x kept
  · exact forward (reaches_of_replaced replaced (on.trans back))

end Replaced

end Search

end DomainryAgent.Lib
