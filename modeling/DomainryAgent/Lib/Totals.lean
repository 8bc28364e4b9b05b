import Mathlib.Algebra.BigOperators.Group.List.Basic
import DomainryAgent.Lib.Table

/-!
Totals over keyed tables.

`total f t` adds `f` over the rows of `t`, in any commutative monoid.  How it
moves with each operation is said once, by what `get?` finds under the key:
`total_erase` takes a row's amount out, and `total_upsert` exchanges it for the
new row's.  `countP_put` and `countP_insert?` are the same for the number of
rows with a property, and `Grows` says when such a number goes up.
-/

namespace DomainryAgent.Lib.Table

variable {ν κ M : Type} {key : ν → κ} [DecidableEq κ] [AddCommMonoid M]

/-- The sum of `f` over the rows. -/
def total (f : ν → M) (t : Table key) : M := (t.rows.map f).sum

/-- What `f` adds for the row under `k`. -/
def amountAt (f : ν → M) (t : Table key) (k : κ) : M := ((t.get? k).map f).getD 0

omit [DecidableEq κ] in
@[simp] theorem total_empty (f : ν → M) : (empty : Table key).total f = 0 := rfl

variable {t u : Table key} {v w : ν} {k : κ} {f : ν → M} {p : ν → Bool}

theorem amountAt_of_some (found : t.get? k = some v) :
    t.amountAt f k = f v := by
  simp [amountAt, found]

/-- A row can be moved to the front of the others. -/
theorem perm_erase (found : t.get? k = some v) :
    t.rows.Perm (v :: (t.erase k).rows) := by
  obtain ⟨rows, nodup⟩ := t
  simp only [get?, erase] at *
  induction rows with
  | nil => simp at found
  | cons w rest ih =>
    rw [List.map_cons, List.nodup_cons] at nodup
    by_cases here : key w = k
    · rw [List.find?_cons_of_pos (by simpa using here)] at found
      cases found
      have others : rest.filter (fun u => key u ≠ k) = rest := by
        rw [List.filter_eq_self]
        intro u member
        simp only [decide_eq_true_eq]
        intro same
        exact nodup.1 (List.mem_map.mpr ⟨u, member, same.trans here.symm⟩)
      rw [List.filter_cons_of_neg (by simpa using here), others]
    · rw [List.find?_cons_of_neg (by simpa using here)] at found
      rw [List.filter_cons_of_pos (by simpa using here)]
      exact ((ih nodup.2 found).cons w).trans (.swap v w _)

theorem erase_of_none (missing : t.get? k = none) : t.erase k = t := by
  refine ext_rows ?_
  simp only [erase, List.filter_eq_self, decide_eq_true_eq]
  exact get?_eq_none_iff.mp missing

theorem total_erase (f : ν → M) (t : Table key) (k : κ) :
    t.total f = t.amountAt f k + (t.erase k).total f := by
  cases found : t.get? k with
  | none => simp [amountAt, found, erase_of_none found]
  | some v =>
    rw [amountAt_of_some found]
    exact ((perm_erase found).map f).sum_eq

theorem total_upsert (f : ν → M) (t : Table key) (v : ν) :
    (t.upsert v).total f = (t.erase (key v)).total f + f v := by
  simp [total, upsert]

/-! ### Rows with a property -/

omit [AddCommMonoid M] in
theorem erase_put (t : Table key) (v : ν) : (t.put v).erase (key v) = t.erase (key v) := by
  obtain ⟨rows, nodup⟩ := t
  refine ext_rows ?_
  simp only [put, erase]
  clear nodup
  induction rows with
  | nil => rfl
  | cons w rest ih =>
    by_cases here : key w = key v
    · simpa [here] using ih
    · simpa [here] using ih

omit [AddCommMonoid M] in
/-- An update exchanges the old row for the new one. -/
theorem countP_put (p : ν → Bool) (found : t.get? (key v) = some w) :
    (t.put v).rows.countP p + (p w).toNat = t.rows.countP p + (p v).toNat := by
  have after := (perm_erase (get?_put_self found)).countP_eq p
  have before := (perm_erase found).countP_eq p
  rw [erase_put, List.countP_cons] at after
  rw [List.countP_cons] at before
  rw [after, before]
  cases p v <;> cases p w <;> simp

omit [AddCommMonoid M] in
/-- An update that gives no row the property. -/
theorem countP_put_le (found : t.get? (key v) = some w)
    (kept : p v = true → p w = true) : (t.put v).rows.countP p ≤ t.rows.countP p := by
  have exchange := countP_put p found
  have fewer : (p v).toNat ≤ (p w).toNat := by
    cases holds : p v with
    | false => exact Nat.zero_le _
    | true => exact Nat.le_of_eq (congrArg Bool.toNat (kept holds)).symm
  omega

omit [AddCommMonoid M] in
theorem countP_insert? (p : ν → Bool) (inserted : t.insert? v = some u) :
    u.rows.countP p = t.rows.countP p + (p v).toNat := by
  rw [rows_insert? inserted, List.countP_append, List.countP_singleton]
  cases p v <;> rfl

/-- A number grows by one at most, and then only if there is room. -/
def Grows (before after : Nat) (room : Prop) : Prop := after ≤ before ∨ after ≤ before + 1 ∧ room

variable {before after : Nat} {room : Prop}

/-- Beside one that does not grow. -/
theorem Grows.add {other other' : Nat} (grows : Grows before after room) (less : other' ≤ other) :
    Grows (before + other) (after + other') room := by
  rcases grows with kept | ⟨one, room⟩
  · exact .inl (Nat.add_le_add kept less)
  · exact .inr ⟨by omega, room⟩

theorem Grows.beside (grows : Grows before after room) (other : Nat) :
    Grows (other + before) (other + after) room := by
  rw [Nat.add_comm other before, Nat.add_comm other after]
  exact grows.add (Nat.le_refl other)

/-- What has room below a bound stays within it. -/
theorem Grows.within {bound : Nat} (grows : Grows before after room) (fits : before ≤ bound)
    (below : room → before < bound) : after ≤ bound := by
  rcases grows with kept | ⟨one, room⟩
  · exact Nat.le_trans kept fits
  · exact Nat.le_trans one (below room)

omit [AddCommMonoid M] in
/-- A row gets the property only if it had it, or with room. -/
theorem countP_put_grows (found : t.get? (key v) = some w)
    (enters : p v = true → p w = true ∨ room) :
    Grows (t.rows.countP p) ((t.put v).rows.countP p) room := by
  by_cases kept : p v = true → p w = true
  · exact .inl (countP_put_le found kept)
  · obtain ⟨holds, lacked⟩ := Classical.not_imp.mp kept
    have exchange := countP_put p found
    have one := Bool.toNat_le (p v)
    exact .inr ⟨by omega, (enters holds).resolve_left lacked⟩

omit [AddCommMonoid M] in
theorem countP_insert?_grows (inserted : t.insert? v = some u) (enters : p v = true → room) :
    Grows (t.rows.countP p) (u.rows.countP p) room := by
  rw [countP_insert? p inserted]
  cases holds : p v with
  | false => exact .inl (Nat.le_refl _)
  | true => exact .inr ⟨Nat.le_refl _, enters holds⟩

omit [AddCommMonoid M] in
/-- At most one row under a key has a property. -/
theorem countP_key (t : Table key) (k : κ) (p : ν → Bool) :
    t.rows.countP (fun v => decide (key v = k) && p v) = ((t.get? k).any p).toNat := by
  have apart : ∀ v ∈ (t.erase k).rows, ¬(decide (key v = k) && p v) = true := by
    intro v member
    have other := (List.mem_filter.mp member).2
    simp only [decide_eq_true_eq] at other
    simp [other]
  cases found : t.get? k with
  | none =>
    rw [erase_of_none found] at apart
    rw [List.countP_eq_zero.mpr apart]
    rfl
  | some v =>
    have here := key_of_get? found
    rw [(perm_erase found).countP_eq, List.countP_cons, List.countP_eq_zero.mpr apart]
    cases holds : p v <;> simp [here, holds]

end DomainryAgent.Lib.Table
