import Mathlib.Order.Monotone.Basic
import Mathlib.Tactic.Common
import Mathlib.Tactic.IntervalCases

/-!
Numbers that measure the text they stand in.

Writing a size down changes the size.  The length of a number grows slowly, so two
such numbers that are written again and again come to rest after a few rounds
(`Lengths.settles`).
-/

namespace DomainryAgent.Lib

/-- A text with two sizes in it: `frame` bytes stay, the first takes the lengths
`first` and `second`, the other `third`. -/
structure Lengths where
  frame : Nat
  first : Nat → Nat
  second : Nat → Nat
  third : Nat → Nat

namespace Lengths

def size (t : Lengths) (i a : Nat) : Nat := t.frame + t.first i + t.second i + t.third a

/-- The size is written down first, and then the size of the text that has it. -/
def round (t : Lengths) (p : Nat × Nat) : Nat × Nat :=
  (t.size p.1 p.2, t.size (t.size p.1 p.2) p.2)

/-- A length grows by at most one as long as the number at most doubles. -/
structure Slow (frame : Nat) (l : Nat → Nat) : Prop where
  mono : Monotone l
  once : l (2 * frame) ≤ l frame + 1

/-- The growth of a length among four numbers. -/
def jump (place t : Nat) : Nat := if place ≤ t then 1 else 0

theorem jump_le (place t : Nat) : jump place t ≤ 1 := by unfold jump; split <;> omega

abbrev jumps (α β η : Fin 5) : Lengths := ⟨0, jump α, jump β, jump η⟩

theorem jumps_lt (α β η : Fin 5) (i a : Nat) : (jumps α β η).size i a < 4 := by
  have := jump_le α i
  have := jump_le β i
  have := jump_le η a
  simp only [size]
  omega

/-- Wherever the three lengths grow, three rounds are enough. -/
theorem jumps_settle : ∀ α β η : Fin 5, ∀ i a : Fin 4,
    (jumps α β η).round^[4] (i, a) = (jumps α β η).round^[3] (i, a) := by
  decide +kernel

variable {n base : Nat} {l : Nat → Nat} {t : Lengths}

theorem Slow.const (d : Nat) : Slow n fun _ => d := ⟨monotone_const, Nat.le_succ _⟩

theorem Slow.jumps (slow : Slow n l) (low : n ≤ base) (high : base + 3 ≤ 2 * n) :
    ∃ place : Fin 5, ∀ i < 4, l (base + i) = l n + jump place i := by
  have first := slow.mono low
  have last := (slow.mono high).trans slow.once
  have second := slow.mono (show base ≤ base + 1 by omega)
  have third := slow.mono (show base + 1 ≤ base + 2 by omega)
  have fourth := slow.mono (show base + 2 ≤ base + 3 by omega)
  refine ⟨⟨4 - (l base + l (base + 1) + l (base + 2) + l (base + 3) - 4 * l n), by omega⟩, ?_⟩
  intro i small
  unfold jump
  interval_cases i <;> split <;> simp_all only [Nat.add_zero] <;> omega

/-- Among four numbers, where each length is known up to a jump, the rounds are
those of the jumps. -/
theorem rounds_eq {α β η : Fin 5} (is : base = t.size t.frame t.frame)
    (first : ∀ i < 4, t.first (base + i) = t.first t.frame + jump α i)
    (second : ∀ i < 4, t.second (base + i) = t.second t.frame + jump β i)
    (third : ∀ i < 4, t.third (base + i) = t.third t.frame + jump η i) (n : Nat) {p : Nat × Nat}
    (one : p.1 < 4) (two : p.2 < 4) :
    t.round^[n] (p.map (base + ·) (base + ·)) =
      ((Lengths.jumps α β η).round^[n] p).map (base + ·) (base + ·) := by
  have same {i a : Nat} (hi : i < 4) (ha : a < 4) :
      t.size (base + i) (base + a) = base + (Lengths.jumps α β η).size i a := by
    simp only [size] at is ⊢
    rw [first i hi, second i hi, third a ha]
    omega
  induction n generalizing p with
  | zero => rfl
  | succ n ih =>
    have small := jumps_lt α β η p.1 p.2
    have step : t.round (p.map (base + ·) (base + ·)) =
        ((Lengths.jumps α β η).round p).map (base + ·) (base + ·) := by
      simp only [round, Prod.map, same one two, same small two]
    rw [Function.iterate_succ_apply, Function.iterate_succ_apply, step]
    exact ih small (jumps_lt ..)

/-- The lengths of a text that is long enough for its sizes. -/
structure Settling (t : Lengths) : Prop where
  first : Slow t.frame t.first
  second : Slow t.frame t.second
  third : Slow t.frame t.third
  room : t.size t.frame t.frame + 3 ≤ 2 * t.frame

theorem Settling.size_le (h : t.Settling) {i a : Nat} (hi : i ≤ 2 * t.frame)
    (ha : a ≤ 2 * t.frame) : t.size i a ≤ t.size t.frame t.frame + 3 := by
  have := (h.first.mono hi).trans h.first.once
  have := (h.second.mono hi).trans h.second.once
  have := (h.third.mono ha).trans h.third.once
  simp only [size]
  omega

theorem Settling.le_size (h : t.Settling) {i a : Nat} (hi : t.frame ≤ i) (ha : t.frame ≤ a) :
    t.size t.frame t.frame ≤ t.size i a :=
  Nat.add_le_add (Nat.add_le_add (Nat.add_le_add_left (h.first.mono hi) _) (h.second.mono hi))
    (h.third.mono ha)

theorem frame_le (t : Lengths) (i a : Nat) : t.frame ≤ t.size i a := by
  simp only [size]
  omega

/-- **Measuring settles.**  After five rounds the sizes are those of the text they
stand in. -/
theorem Settling.settles (h : t.Settling) {p : Nat × Nat} (one : p.1 ≤ 2 * t.frame)
    (two : p.2 ≤ 2 * t.frame) : t.round^[6] p = t.round^[5] p := by
  have low := t.frame_le t.frame t.frame
  obtain ⟨α, first⟩ := h.first.jumps low h.room
  obtain ⟨β, second⟩ := h.second.jumps low h.room
  obtain ⟨η, third⟩ := h.third.jumps low h.room
  -- Two rounds lead to the four numbers.
  obtain ⟨i, a, there⟩ : ∃ i a : Fin 4,
      t.round^[2] p = Prod.map (t.size t.frame t.frame + ·) (t.size t.frame t.frame + ·) (i, a) := by
    have input := h.size_le one two
    have after := h.size_le (input.trans h.room) two
    have input' := h.size_le (input.trans h.room) (after.trans h.room)
    have after' := h.size_le (input'.trans h.room) (after.trans h.room)
    have inputLow := h.le_size (t.frame_le p.1 p.2) (t.frame_le (t.size p.1 p.2) p.2)
    have afterLow := h.le_size (low.trans inputLow) (t.frame_le (t.size p.1 p.2) p.2)
    refine ⟨⟨_, Nat.lt_succ_of_le (Nat.sub_le_iff_le_add'.mpr input')⟩,
      ⟨_, Nat.lt_succ_of_le (Nat.sub_le_iff_le_add'.mpr after')⟩, ?_⟩
    simp only [Prod.map, Nat.add_sub_cancel' inputLow, Nat.add_sub_cancel' afterLow]
    rfl
  rw [Function.iterate_add_apply _ 4 2, Function.iterate_add_apply _ 3 2, there,
    rounds_eq rfl first second third 4 i.2 a.2, rounds_eq rfl first second third 3 i.2 a.2,
    jumps_settle α β η i a]

end Lengths

end DomainryAgent.Lib
