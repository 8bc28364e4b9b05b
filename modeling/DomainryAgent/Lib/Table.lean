import Mathlib.Algebra.GroupWithZero.Nat
import Mathlib.Data.List.Nodup
import Mathlib.Logic.Function.Basic
import Mathlib.Tactic.Common

/-!
Keyed tables: the rows of a relation in insertion order, no two under one
primary key.

`insert?` is an `INSERT` that a duplicate key makes fail, `put` an `UPDATE …
WHERE key = …` that writes over an existing row and is without effect when
there is none.  `get?_insert?` and `get?_put` are the only facts the rest of a
development needs about how rows are kept.

`pick` reads an optional column, and `Matched` says that two such columns point
at each other, one to one.
-/

namespace DomainryAgent.Lib

/-- Whether there is a row, and what it is like, is decided by looking it up. -/
instance decidableExistsSome {α : Type} {p : α → Prop} [DecidablePred p] (o : Option α) :
    Decidable (∃ a, o = some a ∧ p a) := inferInstanceAs (Decidable (∃ a ∈ o, p a))

instance decidableIsSome {α : Type} (o : Option α) : Decidable (∃ a, o = some a) :=
  decidable_of_iff _ Option.isSome_iff_exists

/-- The rows of a relation, indexed by the primary key `key`. -/
structure Table {ν κ : Type} (key : ν → κ) where
  rows : List ν
  nodup : (rows.map key).Nodup

namespace Table

variable {ν κ : Type} {key : ν → κ}

/-- A table without rows. -/
def empty : Table key := ⟨[], List.nodup_nil⟩

theorem ext_rows {t u : Table key} (rows : t.rows = u.rows) : t = u := by
  cases t; cases u; cases rows; rfl

section Lookup

variable [DecidableEq κ]

/-- The row under `k`. -/
def get? (t : Table key) (k : κ) : Option ν := t.rows.find? (fun v => key v = k)

/-- Insert a row; a duplicate primary key is refused. -/
def insert? (t : Table key) (v : ν) : Option (Table key) :=
  if fresh : key v ∈ t.rows.map key then none
  else some ⟨t.rows ++ [v], by
    rw [List.map_append, List.nodup_append]
    refine ⟨t.nodup, List.nodup_singleton _, ?_⟩
    intro a member b single same
    obtain rfl := List.mem_singleton.mp single
    exact fresh (same ▸ member)⟩

/-- Overwrite the row that has `v`'s key, if there is one. -/
def put (t : Table key) (v : ν) : Table key where
  rows := t.rows.map (fun w => if key w = key v then v else w)
  nodup := by
    have keys : (t.rows.map (fun w => if key w = key v then v else w)).map key =
        t.rows.map key := by
      rw [List.map_map]
      refine List.map_congr_left fun w _ => ?_
      by_cases same : key w = key v <;> simp [same]
    rw [keys]; exact t.nodup

/-- Remove the row under `k`. -/
def erase (t : Table key) (k : κ) : Table key where
  rows := t.rows.filter (fun v => key v ≠ k)
  nodup := t.nodup.sublist (List.filter_sublist.map key)

/-- Overwrite the row under `v`'s key, or add it. -/
def upsert (t : Table key) (v : ν) : Table key where
  rows := (t.erase (key v)).rows ++ [v]
  nodup := by
    rw [List.map_append, List.nodup_append]
    refine ⟨(t.erase (key v)).nodup, List.nodup_singleton _, ?_⟩
    intro a member b single same
    obtain rfl := List.mem_singleton.mp single
    obtain ⟨w, inside, rfl⟩ := List.mem_map.mp member
    simp only [erase, List.mem_filter, decide_eq_true_eq] at inside
    exact inside.2 same

variable {t u : Table key} {v w : ν} {k : κ}

@[simp] theorem get?_empty (k : κ) : (empty : Table key).get? k = none := rfl

theorem key_of_get? (found : t.get? k = some v) : key v = k := by
  simpa using List.find?_some found

theorem get?_key (found : t.get? k = some v) :
    t.get? (key v) = some v := by
  rw [key_of_get? found]
  exact found

theorem mem_of_get? (found : t.get? k = some v) :
    v ∈ t.rows := List.mem_of_find?_eq_some found

theorem get?_of_mem (member : v ∈ t.rows) :
    t.get? (key v) = some v := by
  obtain ⟨rows, nodup⟩ := t
  simp only [get?] at *
  induction rows with
  | nil => simp at member
  | cons w rest ih =>
    rw [List.map_cons, List.nodup_cons] at nodup
    by_cases same : key w = key v
    · rcases List.mem_cons.mp member with rfl | later
      · simp
      · exact absurd (same ▸ List.mem_map_of_mem later) nodup.1
    · rw [List.find?_cons_of_neg (by simpa using same)]
      rcases List.mem_cons.mp member with rfl | later
      · exact absurd rfl same
      · exact ih nodup.2 later

theorem get?_eq_none_iff :
    t.get? k = none ↔ ∀ v ∈ t.rows, key v ≠ k := by
  simp [get?, List.find?_eq_none]

section

variable {t u : Table key} {v : ν} (inserted : t.insert? v = some u)

include inserted

/-- An insertion that goes through adds exactly the new row, under a key that
was free. -/
theorem get?_insert? :
    t.get? (key v) = none ∧ ∀ k, u.get? k = if k = key v then some v else t.get? k := by
  unfold insert? at inserted
  split at inserted
  · cases inserted
  · next fresh =>
    cases inserted
    have free : t.get? (key v) = none := by
      rw [get?_eq_none_iff]
      intro w member same
      exact fresh (same ▸ List.mem_map_of_mem member)
    refine ⟨free, fun k => ?_⟩
    simp only [get?, List.find?_append]
    by_cases same : k = key v
    · subst same
      rw [get?] at free
      simp [free]
    · rw [if_neg same, List.find?_cons_of_neg (by simpa using Ne.symm same)]
      simp

theorem get?_insert?_self :
    u.get? (key v) = some v := ((get?_insert? inserted).2 _).trans (if_pos rfl)

/-- An insertion keeps every row. -/
theorem get?_insert?_of_some (found : t.get? k = some w) : u.get? k = some w := by
  obtain ⟨free, lookup⟩ := get?_insert? inserted
  rw [lookup, if_neg, found]
  rintro rfl
  rw [free] at found
  cases found

/-- A row after an insertion is the new one or was there before. -/
theorem get?_insert?_some (found : u.get? k = some w) :
    k = key v ∧ w = v ∨ k ≠ key v ∧ t.get? k = some w := by
  rw [(get?_insert? inserted).2] at found
  split at found
  · next same => exact .inl ⟨same, (Option.some.inj found).symm⟩
  · next other => exact .inr ⟨other, found⟩

theorem rows_insert? :
    u.rows = t.rows ++ [v] := by
  unfold insert? at inserted
  split at inserted
  · cases inserted
  · cases inserted; rfl

end

theorem insert?_eq_none_iff :
    t.insert? v = none ↔ ∃ w, t.get? (key v) = some w := by
  unfold insert?
  split
  · next taken =>
    obtain ⟨w, member, same⟩ := List.mem_map.mp taken
    exact ⟨fun _ => ⟨w, same ▸ get?_of_mem member⟩, fun _ => rfl⟩
  · next fresh =>
    refine ⟨fun h => (Option.some_ne_none _ h).elim, fun ⟨w, found⟩ => ?_⟩
    exact absurd (List.mem_map.mpr ⟨w, mem_of_get? found, key_of_get? found⟩) fresh

/-- The last of two writes under one key stays. -/
theorem put_put (t : Table key) (same : key v = key w) : (t.put v).put w = t.put w := by
  refine ext_rows ?_
  simp only [put, List.map_map]
  refine List.map_congr_left fun u _ => ?_
  by_cases here : key u = key w
  · simp [here, same]
  · simp [here, same]

/-- A row that is inserted and then overwritten was inserted as it is now. -/
theorem insert?_put (inserted : t.insert? v = some u)
    (same : key w = key v) : t.insert? w = some (u.put w) := by
  unfold insert? at inserted ⊢
  split at inserted
  · cases inserted
  · next fresh =>
    rw [dif_neg (same ▸ fresh)]
    cases inserted
    refine congrArg some (ext_rows ?_)
    have old : t.rows.map (fun x => if key x = key w then w else x) = t.rows := by
      refine (List.map_congr_left fun x member => ?_).trans (List.map_id _)
      rw [if_neg fun here => fresh (List.mem_map.mpr ⟨x, member, here.trans same⟩)]
      rfl
    simp only [put, List.map_append, List.map_cons, List.map_nil, old, if_pos same.symm]

theorem get?_put (t : Table key) (v : ν) (k : κ) :
    (t.put v).get? k = if k = key v then (t.get? k).map (fun _ => v) else t.get? k := by
  obtain ⟨rows, nodup⟩ := t
  simp only [get?, put]
  clear nodup
  induction rows with
  | nil => simp
  | cons w rest ih =>
    simp only [List.map_cons]
    by_cases taken : key w = key v
    · rw [if_pos taken]
      by_cases same : k = key v
      · simp [same, taken]
      · rw [List.find?_cons_of_neg (by simpa using Ne.symm same),
          List.find?_cons_of_neg (by simpa [taken] using Ne.symm same), ih]
    · rw [if_neg taken]
      by_cases here : key w = k
      · simp [here, show k ≠ key v from fun h => taken (here.trans h)]
      · rw [List.find?_cons_of_neg (by simpa using here),
          List.find?_cons_of_neg (by simpa using here), ih]

theorem get?_put_self (found : t.get? (key v) = some w) :
    (t.put v).get? (key v) = some v := by simp [get?_put, found]

theorem get?_put_at (found : t.get? k = some w) (same : key v = key w) :
    (t.put v).get? k = some v := by
  have here : key v = k := same.trans (key_of_get? found)
  simp [get?_put, here, found]

theorem get?_put_of_ne (other : k ≠ key v) :
    (t.put v).get? k = t.get? k := by simp [get?_put, other]

theorem get?_put_some (found : (t.put v).get? k = some w) :
    (k = key v ∧ w = v ∧ ∃ old, t.get? k = some old) ∨ (k ≠ key v ∧ t.get? k = some w) := by
  rw [get?_put] at found
  split at found
  · next same =>
    obtain ⟨old, there, rfl⟩ := Option.map_eq_some_iff.mp found
    exact .inl ⟨same, rfl, old, there⟩
  · next other => exact .inr ⟨other, found⟩

/-- No key is freed by a write. -/
theorem exists_get?_put (there : t.get? k = some w) :
    ∃ u, (t.put v).get? k = some u := by
  rw [get?_put, there]
  split <;> simp

/-- What a row satisfies some row under its key satisfies after a write. -/
theorem exists_put {P : ν → Prop} {old : ν} (found : t.get? (key old) = some old)
    (same : key v = key old) (there : t.get? k = some w)
    (holds : P w) (written : w = old → P old → P v) : ∃ u, (t.put v).get? k = some u ∧ P u := by
  by_cases here : k = key v
  · subst here
    rw [same, found] at there
    cases there
    exact ⟨v, get?_put_self (same ▸ found), written rfl holds⟩
  · exact ⟨w, (get?_put_of_ne here).trans there, holds⟩

/-- `u` is `t` with the row `v` in it, under a free key or over an old row. -/
structure Written (t : Table key) (v : ν) (u : Table key) : Prop where
  self : u.get? (key v) = some v
  rest : ∀ {k}, k ≠ key v → u.get? k = t.get? k

theorem written_insert? (inserted : t.insert? v = some u) : Written t v u :=
  ⟨get?_insert?_self inserted, fun other => ((get?_insert? inserted).2 _).trans (if_neg other)⟩

theorem written_put (found : t.get? (key w) = some w) (same : key v = key w) :
    Written t v (t.put v) :=
  ⟨get?_put_self (same ▸ found), get?_put_of_ne⟩

theorem Written.cases (written : Written t v u) (found : u.get? k = some w) :
    k = key v ∧ w = v ∨ k ≠ key v ∧ t.get? k = some w := by
  by_cases same : k = key v
  · subst same
    exact .inl ⟨rfl, Option.some.inj (found.symm.trans written.self)⟩
  · exact .inr ⟨same, written.rest same ▸ found⟩

theorem get?_erase (t : Table key) (k l : κ) :
    (t.erase k).get? l = if l = k then none else t.get? l := by
  simp only [get?, erase, List.find?_filter]
  by_cases same : l = k
  · subst same
    simp [List.find?_eq_none]
  · rw [if_neg same]
    congr 1
    funext v
    by_cases here : key v = l
    · simp [here, same]
    · simp [here]

theorem get?_upsert (t : Table key) (v : ν) (k : κ) :
    (t.upsert v).get? k = if k = key v then some v else t.get? k := by
  have split : (t.upsert v).get? k =
      ((t.erase (key v)).get? k).or ([v].find? (fun w => key w = k)) := by
    simp only [get?, upsert, List.find?_append]
  rw [split, get?_erase]
  by_cases same : k = key v
  · simp [same]
  · rw [if_neg same, List.find?_cons_of_neg (by simpa using Ne.symm same)]
    simp [same]

/-- Each row of `t` is still in `u`, as one that `R` relates it to. -/
def Stays (R : ν → ν → Prop) (t u : Table key) : Prop :=
  ∀ k v, t.get? k = some v → ∃ w, u.get? k = some w ∧ R v w

theorem Stays.refl {R : ν → ν → Prop} (refl : ∀ v, R v v) : Stays R t t :=
  fun _ v found => ⟨v, found, refl v⟩

theorem Stays.trans {R : ν → ν → Prop} {t' : Table key} (first : Stays R t u)
    (trans : ∀ {a b c}, R a b → R b c → R a c) (second : Stays R u t') : Stays R t t' := by
  intro k v found
  obtain ⟨w, there, related⟩ := first k v found
  obtain ⟨w', there', related'⟩ := second k w there
  exact ⟨w', there', trans related related'⟩

/-! ### The rows under some of the keys -/

/-- The rows whose key satisfies `q`. -/
def only (t : Table key) (q : κ → Prop) [DecidablePred q] : Table key where
  rows := t.rows.filter (fun v => q (key v))
  nodup := t.nodup.sublist (List.filter_sublist.map key)

section Only

variable {q : κ → Prop} [DecidablePred q]

theorem get?_only (inside : q k) : (t.only q).get? k = t.get? k := by
  simp only [get?, only, List.find?_filter]
  congr 1
  funext v
  by_cases here : key v = k
  · simp [here, inside]
  · simp [here]

/-- A write over a row under such a key is made among them. -/
theorem only_put (t : Table key) (inside : q (key v)) :
    (t.put v).only q = (t.only q).put v := by
  refine ext_rows ?_
  simp only [put, only, List.filter_map]
  congr 1
  refine List.filter_congr fun w _ => ?_
  by_cases here : key w = key v
  · simp [here, inside]
  · simp [here]

/-- A write over a row under another key is not seen. -/
theorem only_put_of_not (t : Table key) (outside : ¬ q (key v)) :
    (t.put v).only q = t.only q := by
  refine ext_rows ?_
  simp only [put, only, List.filter_map]
  have kept : ∀ w ∈ t.rows.filter ((fun v => decide (q (key v))) ∘
      fun w => if key w = key v then v else w), (if key w = key v then v else w) = w := by
    intro w member
    have holds := (List.mem_filter.mp member).2
    by_cases here : key w = key v
    · simp [here, outside] at holds
    · exact if_neg here
  rw [List.map_congr_left kept, List.map_id']
  refine List.filter_congr fun w _ => ?_
  by_cases here : key w = key v
  · simp [here, outside]
  · simp [here]

theorem only_upsert (t : Table key) (inside : q (key v)) :
    (t.upsert v).only q = (t.only q).upsert v := by
  refine ext_rows ?_
  simp only [upsert, erase, only, List.filter_append, List.filter_filter]
  congr 1
  · exact List.filter_congr fun w _ => Bool.and_comm _ _
  · simp [inside]

theorem only_upsert_of_not (t : Table key) (outside : ¬ q (key v)) :
    (t.upsert v).only q = t.only q := by
  refine ext_rows ?_
  simp only [upsert, erase, only, List.filter_append, List.filter_filter]
  rw [List.filter_cons_of_neg (by simpa using outside), List.filter_nil, List.append_nil]
  refine List.filter_congr fun w _ => ?_
  by_cases here : key w = key v
  · simp [here, outside]
  · simp [here]

end Only

/-! ### Optional columns -/

/-- The optional column `f` of the row under `k`. -/
def pick {β : Type} (t : Table key) (f : ν → Option β) (k : κ) : Option β := (t.get? k).bind f

variable {β : Type} {f : ν → Option β}

theorem pick_of_get? (found : t.get? k = some v) :
    t.pick f k = f v := by rw [pick, found]; rfl

theorem pick_put (found : t.get? (key v) = some w) :
    (t.put v).pick f = Function.update (t.pick f) (key v) (f v) := by
  funext k
  by_cases same : k = key v
  · subst same
    rw [Function.update_self, pick_of_get? (get?_put_self found)]
  · rw [Function.update_of_ne same, pick, get?_put_of_ne same, pick]

/-- A row that keeps the column keeps all of it. -/
theorem pick_put_of_eq (found : t.get? (key v) = some w)
    (same : f v = f w) : (t.put v).pick f = t.pick f := by
  rw [pick_put found, same, ← pick_of_get? (f := f) found, Function.update_eq_self]

theorem pick_insert? (inserted : t.insert? v = some u) :
    u.pick f = Function.update (t.pick f) (key v) (f v) := by
  funext k
  by_cases same : k = key v
  · subst same
    rw [Function.update_self, pick_of_get? (get?_insert?_self inserted)]
  · rw [Function.update_of_ne same, pick, (get?_insert? inserted).2, if_neg same, pick]

theorem pick_free (inserted : t.insert? v = some u) :
    t.pick f (key v) = none := by rw [pick, (get?_insert? inserted).1]; rfl

/-- A new row without the column adds nothing to it. -/
theorem pick_insert?_of_none (inserted : t.insert? v = some u)
    (absent : f v = none) : u.pick f = t.pick f := by
  rw [pick_insert? inserted, absent, ← pick_free (f := f) inserted, Function.update_eq_self]

end Lookup

end Table

/-! ### Columns that point at each other -/

section Matched

variable {α β : Type} {f : α → Option β} {g : β → Option α}

/-- `f` and `g` are two sides of one partial matching. -/
def Matched (f : α → Option β) (g : β → Option α) : Prop := ∀ a b, f a = some b ↔ g b = some a

theorem Matched.left_free {a : α} {b : β} (matched : Matched f g) (free : g b = none)
    (only : ∀ b', f a = some b' → b' = b) : f a = none := by
  cases held : f a with
  | none => rfl
  | some b' =>
    have back := (matched a b').mp held
    rw [only b' held, free] at back
    cases back

variable [DecidableEq α] [DecidableEq β]

/-- Two that are free are joined. -/
theorem Matched.take {a : α} {b : β} (matched : Matched f g) (left : f a = none)
    (right : g b = none) :
    Matched (Function.update f a (some b)) (Function.update g b (some a)) := by
  intro a' b'
  simp only [Function.update_apply]
  by_cases hereA : a' = a
  · by_cases hereB : b' = b
    · simp [hereA, hereB]
    · rw [if_pos hereA, if_neg hereB, hereA, ← matched a b', left]
      simp [Ne.symm hereB]
  · by_cases hereB : b' = b
    · rw [if_neg hereA, if_pos hereB, hereB, matched a' b, right]
      simp [Ne.symm hereA]
    · rw [if_neg hereA, if_neg hereB, matched a' b']

/-- Two that are joined are freed. -/
theorem Matched.give {a : α} {b : β} (matched : Matched f g) (held : f a = some b) :
    Matched (Function.update f a none) (Function.update g b none) := by
  intro a' b'
  simp only [Function.update_apply]
  by_cases hereA : a' = a
  · by_cases hereB : b' = b
    · simp [hereA, hereB]
    · rw [if_pos hereA, if_neg hereB, hereA, ← matched a b', held]
      simp [Ne.symm hereB]
  · by_cases hereB : b' = b
    · rw [if_neg hereA, if_pos hereB, hereB, matched a' b, (matched a b).mp held]
      simp [Ne.symm hereA]
    · rw [if_neg hereA, if_neg hereB, matched a' b']

end Matched

end DomainryAgent.Lib
