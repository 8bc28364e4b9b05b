import Mathlib.Data.List.Perm.Subperm
import Mathlib.Order.RelClasses
import Mathlib.Tactic.Common

/-!
A depth-first check that a finite graph has no cycle.

The graph is given by `deps`: the out-edges of a node, or `none` when there is
no such node.  `visit` refuses a node that is still being visited, an edge to a
missing node, a self edge and a repeated edge; a node whose edges all went
through is appended to the finished ones.  `isDag_iff` says that exactly the
graphs are accepted whose edges lead to nodes, are not repeated and close no
cycle.
-/

namespace DomainryAgent.Lib.Dag

variable {α : Type} [DecidableEq α]

/-- Visit the out-edges of `self` in turn. -/
def visitDeps (visit : List α → α → Option (List α)) (present : α → Bool) (self : α) :
    List α → List α → List α → Option (List α)
  | [], _, done => some done
  | d :: rest, seen, done =>
    if d = self ∨ d ∈ seen then none
    else if present d then
      match visit done d with
      | none => none
      | some done' => visitDeps visit present self rest (d :: seen) done'
    else none

/-- Visit a node below the path `visiting`; `done` holds the finished nodes. -/
def visit (deps : α → Option (List α)) : Nat → List α → List α → α → Option (List α)
  | 0, _, _, _ => none
  | fuel + 1, visiting, done, x =>
    if x ∈ visiting then none
    else if x ∈ done then some done
    else
      match visitDeps (visit deps fuel (x :: visiting)) (fun y => (deps y).isSome) x
          ((deps x).getD []) [] done with
      | none => none
      | some done' => some (x :: done')

/-- Visit every node that is not finished yet. -/
def visitAll (deps : α → Option (List α)) (fuel : Nat) : List α → List α → Option (List α)
  | [], done => some done
  | x :: rest, done =>
    match visit deps fuel [] done x with
    | none => none
    | some done' => visitAll deps fuel rest done'

/-- The check: a path has at most as many nodes as there are. -/
def isDag (deps : α → Option (List α)) (nodes : List α) : Bool :=
  (visitAll deps (nodes.length + 1) nodes []).isSome

/-- An edge of the graph. -/
def Edge (deps : α → Option (List α)) (x y : α) : Prop := ∃ ds, deps x = some ds ∧ y ∈ ds

/-- The finished nodes, latest first: every edge of a finished node leads to
one finished before it, and no edge is repeated. -/
def Settled (deps : α → Option (List α)) : List α → Prop
  | [] => True
  | x :: rest =>
    ((deps x).getD []).Nodup ∧ (∀ y ∈ (deps x).getD [], (deps y).isSome ∧ y ∈ rest) ∧
      Settled deps rest

variable {deps : α → Option (List α)}

/-- What one visit leaves behind: the finished nodes grow and stay settled, and
the visited node is among them. -/
def VisitOk (deps : α → Option (List α)) (visit : List α → α → Option (List α)) : Prop :=
  ∀ done x done', visit done x = some done' → Settled deps done →
    Settled deps done' ∧ done ⊆ done' ∧ x ∈ done'

theorem visitDeps_ok {visit : List α → α → Option (List α)} (ok : VisitOk deps visit) {self : α}
    {todo seen done done' : List α}
    (visited : visitDeps visit (fun y => (deps y).isSome) self todo seen done = some done')
    (settled : Settled deps done) :
    Settled deps done' ∧ done ⊆ done' ∧ todo.Nodup ∧ (∀ y ∈ todo, y ∉ seen) ∧
      ∀ y ∈ todo, (deps y).isSome ∧ y ∈ done' := by
  induction todo generalizing seen done with
  | nil =>
    simp only [visitDeps, Option.some.injEq] at visited
    subst visited
    exact ⟨settled, fun _ h => h, List.nodup_nil, by simp, by simp⟩
  | cons d rest ih =>
    simp only [visitDeps] at visited
    split at visited
    · cases visited
    · next fresh =>
      split at visited
      · next present =>
        cases step : visit done d with
        | none => rw [step] at visited; cases visited
        | some middle =>
          rw [step] at visited
          obtain ⟨settled', grown, member⟩ := ok done d middle step settled
          obtain ⟨settled'', grown', nodup, unseen, rest_ok⟩ := ih visited settled'
          have later : d ∉ rest := fun h => unseen d h List.mem_cons_self
          refine ⟨settled'', fun y h => grown' (grown h), List.nodup_cons.mpr ⟨later, nodup⟩, ?_, ?_⟩
          · intro y h
            rcases List.mem_cons.mp h with rfl | h
            · exact fun h => fresh (.inr h)
            · exact fun h' => unseen y h (List.mem_cons_of_mem _ h')
          · intro y h
            rcases List.mem_cons.mp h with rfl | h
            · exact ⟨present, grown' member⟩
            · exact rest_ok y h
      · cases visited

theorem visit_ok (fuel : Nat) (visiting : List α) : VisitOk deps (visit deps fuel visiting) := by
  induction fuel generalizing visiting with
  | zero => intro done x done' visited; simp [visit] at visited
  | succ fuel ih =>
    intro done x done' visited settled
    simp only [visit] at visited
    split at visited
    · cases visited
    · split at visited
      · next member => cases visited; exact ⟨settled, fun _ h => h, member⟩
      · cases step : visitDeps (visit deps fuel (x :: visiting)) (fun y => (deps y).isSome) x
            ((deps x).getD []) [] done with
        | none => rw [step] at visited; cases visited
        | some middle =>
          rw [step] at visited
          cases visited
          obtain ⟨settled', grown, nodup, -, edges⟩ := visitDeps_ok (ih (x :: visiting)) step settled
          exact ⟨⟨nodup, edges, settled'⟩, fun y h => List.mem_cons_of_mem _ (grown h),
            List.mem_cons_self⟩

theorem visitAll_ok {fuel : Nat} {nodes done done' : List α}
    (visited : visitAll deps fuel nodes done = some done') (settled : Settled deps done) :
    Settled deps done' ∧ done ⊆ done' ∧ ∀ x ∈ nodes, x ∈ done' := by
  induction nodes generalizing done with
  | nil =>
    simp only [visitAll, Option.some.injEq] at visited
    subst visited
    exact ⟨settled, fun _ h => h, by simp⟩
  | cons x rest ih =>
    simp only [visitAll] at visited
    cases step : visit deps fuel [] done x with
    | none => rw [step] at visited; cases visited
    | some middle =>
      rw [step] at visited
      obtain ⟨settled', grown, member⟩ := visit_ok fuel [] done x middle step settled
      obtain ⟨settled'', grown', rest_ok⟩ := ih visited settled'
      refine ⟨settled'', fun y h => grown' (grown h), ?_⟩
      intro y h
      rcases List.mem_cons.mp h with rfl | h
      · exact grown' member
      · exact rest_ok y h

/-- The edges of a node lead to nodes, none is repeated and no path leads back. -/
def Clean (deps : α → Option (List α)) (x : α) : Prop :=
  ((deps x).getD []).Nodup ∧ (∀ y ∈ (deps x).getD [], (deps y).isSome) ∧
    ¬ Relation.TransGen (Edge deps) x x

omit [DecidableEq α] in
theorem Settled.clean {done : List α} (settled : Settled deps done) :
    ∀ x ∈ done, Clean deps x ∧ Acc (fun y x => Edge deps x y) x := by
  induction done with
  | nil => simp
  | cons x rest ih =>
    obtain ⟨nodup, edges, settled'⟩ := settled
    intro z member
    rcases List.mem_cons.mp member with rfl | member
    · have acc : Acc (fun y x => Edge deps x y) z := by
        refine ⟨_, fun y ⟨ds, out, member⟩ => ?_⟩
        exact (ih settled' y (edges y (by rw [out]; exact member)).2).2
      refine ⟨⟨nodup, fun y h => (edges y h).1, fun cycle => ?_⟩, acc⟩
      have back := Relation.transGen_swap.mp cycle
      exact acc.transGen.recOn (motive := fun z _ => ¬ Relation.TransGen _ z z)
        (fun z _ ih cycle => ih z cycle cycle) back
    · exact ih settled' z member

theorem visitDeps_passes {visit : List α → α → Option (List α)} {present : α → Bool} {self : α}
    {todo seen done : List α} (nodup : todo.Nodup) (passes : ∀ d ∈ todo, d ≠ self ∧ d ∉ seen ∧
      present d = true ∧ ∀ done, (visit done d).isSome) :
    (visitDeps visit present self todo seen done).isSome := by
  induction todo generalizing seen done with
  | nil => rfl
  | cons d rest ih =>
    obtain ⟨fresh, nodup⟩ := List.nodup_cons.mp nodup
    obtain ⟨other, unseen, there, visits⟩ := passes d List.mem_cons_self
    obtain ⟨done', visited⟩ := Option.isSome_iff_exists.mp (visits done)
    rw [visitDeps, if_neg (by simp [other, unseen]), if_pos there, visited]
    refine ih nodup fun y member => ?_
    obtain ⟨other, unseen, rest⟩ := passes y (List.mem_cons_of_mem d member)
    refine ⟨other, fun again => ?_, rest⟩
    rcases List.mem_cons.mp again with rfl | again
    · exact fresh member
    · exact unseen again

/-- Below clean nodes a visit goes through: the path to it has no node twice, so
the fuel lasts. -/
theorem visit_passes {nodes : List α} (clean : ∀ x ∈ nodes, Clean deps x)
    (all : ∀ x, (deps x).isSome → x ∈ nodes) {fuel : Nat} {visiting done : List α} {x : α}
    (member : x ∈ nodes) (nodup : visiting.Nodup) (inside : visiting ⊆ nodes)
    (path : ∀ v ∈ visiting, Relation.TransGen (Edge deps) v x)
    (enough : nodes.length < fuel + visiting.length) :
    (visit deps fuel visiting done x).isSome := by
  induction fuel generalizing visiting done x with
  | zero =>
    have fits := (List.subperm_of_subset nodup inside).length_le
    omega
  | succ fuel ih =>
    obtain ⟨distinct, present, acyclic⟩ := clean x member
    have unvisited : x ∉ visiting := fun again => acyclic (path x again)
    rw [visit, if_neg unvisited]
    split
    · rfl
    · have passes : (visitDeps (visit deps fuel (x :: visiting)) (fun y => (deps y).isSome) x
          ((deps x).getD []) [] done).isSome := by
        refine visitDeps_passes distinct fun y out => ?_
        have edge : Edge deps x y := by
          cases found : deps x with
          | none => simp [found] at out
          | some ds => exact ⟨ds, found, by simpa [found] using out⟩
        refine ⟨?_, List.not_mem_nil, present y out, fun done => ?_⟩
        · rintro rfl
          exact acyclic (.single edge)
        · refine ih (all y (present y out)) (List.nodup_cons.mpr ⟨unvisited, nodup⟩)
            (List.cons_subset.mpr ⟨member, inside⟩) (fun v behind => ?_) ?_
          · rcases List.mem_cons.mp behind with rfl | behind
            · exact .single edge
            · exact (path v behind).tail edge
          · rw [List.length_cons]
            omega
      obtain ⟨done', visited⟩ := Option.isSome_iff_exists.mp passes
      rw [visited]
      rfl

theorem isDag_iff {nodes : List α} (all : ∀ x, (deps x).isSome → x ∈ nodes) :
    isDag deps nodes = true ↔ ∀ x ∈ nodes, Clean deps x := by
  refine ⟨fun accepted x member => ?_, fun clean => ?_⟩
  · obtain ⟨done, visited⟩ := Option.isSome_iff_exists.mp accepted
    obtain ⟨settled, -, covered⟩ := visitAll_ok visited trivial
    exact (settled.clean x (covered x member)).1
  have passes : ∀ todo ⊆ nodes, ∀ done, (visitAll deps (nodes.length + 1) todo done).isSome := by
    intro todo
    induction todo with
    | nil => exact fun _ _ => rfl
    | cons x rest ih =>
      intro inside done
      obtain ⟨member, inside⟩ := List.cons_subset.mp inside
      have visits : (visit deps (nodes.length + 1) [] done x).isSome :=
        visit_passes clean all member List.nodup_nil (by simp) (by simp) (by simp)
      obtain ⟨done', visited⟩ := Option.isSome_iff_exists.mp visits
      rw [visitAll, visited]
      exact ih inside done'
  exact passes nodes (List.Subset.refl _) []

end DomainryAgent.Lib.Dag
