import Mathlib.Tactic.Common

/-!
Transactions: a computation over a store that either commits a new store or
fails with an error and leaves the old one.

`Ensures m s Q` is the partial-correctness triple "if `m` commits from `s`, then
`Q` holds of its result and of the store it leaves".  Its rules are
equivalences, so `simp` with them executes a transaction symbolically.
-/

namespace DomainryAgent.Lib

/-- A transaction over `σ`. -/
def Tx (σ ε α : Type) : Type := σ → Except ε (α × σ)

namespace Tx

variable {σ ε α β : Type}

instance : Monad (Tx σ ε) where
  pure a := fun s => .ok (a, s)
  bind m f := fun s => match m s with
    | .ok (a, s') => f a s'
    | .error e => .error e

/-- Abort with `e`; every write so far is undone. -/
def fail (e : ε) : Tx σ ε α := fun _ => .error e

/-- Read a projection of the store. -/
def read (f : σ → α) : Tx σ ε α := fun s => .ok (f s, s)

/-- Write to the store. -/
def write (f : σ → σ) : Tx σ ε Unit := fun s => .ok ((), f s)

/-- Go on only when `p` holds. -/
def demand (p : Prop) [Decidable p] (e : ε) : Tx σ ε Unit :=
  fun s => if p then .ok ((), s) else .error e

/-- Unwrap a value or abort. -/
def require (o : Option α) (e : ε) : Tx σ ε α :=
  fun s => match o with
    | some a => .ok (a, s)
    | none => .error e

/-- A check over the store that either yields a value or refuses. -/
def check (f : σ → Except ε α) : Tx σ ε α :=
  fun s => match f s with
    | .ok a => .ok (a, s)
    | .error e => .error e

/-- Run `m` only when `p` holds. -/
def onlyIf (p : Prop) [Decidable p] (m : Tx σ ε Unit) : Tx σ ε Unit :=
  fun s => if p then m s else .ok ((), s)

/-- Run `m` for each element in turn. -/
def forEach : List α → (α → Tx σ ε Unit) → Tx σ ε Unit
  | [], _ => fun s => .ok ((), s)
  | a :: rest, m => fun s => match m a s with
    | .ok (_, s') => forEach rest m s'
    | .error e => .error e

/-- Try the items in turn until one yields a value. -/
def firstOf (m : α → Tx σ ε (Option β)) : List α → Tx σ ε (Option β)
  | [] => pure none
  | a :: rest => do
    match ← m a with
    | some b => pure (some b)
    | none => firstOf m rest

/-- Run `m` under a savepoint: its error becomes a value and its writes are
undone. -/
def attempt (m : Tx σ ε α) : Tx σ ε (Except ε α) :=
  fun s => match m s with
    | .ok (a, s') => .ok (.ok a, s')
    | .error e => .ok (.error e, s)

/-- The store after a transaction: a failed one leaves it alone. -/
def commit (m : Tx σ ε α) (s : σ) : σ :=
  match m s with
  | .ok (_, s') => s'
  | .error _ => s

/-- What a committed transaction returns. -/
def result? (m : Tx σ ε α) (s : σ) : Option α :=
  match m s with
  | .ok (a, _) => some a
  | .error _ => none

/-- What a transaction would return, without committing it. -/
def peek (m : Tx σ ε α) (s : σ) : Except ε α :=
  match m s with
  | .ok (a, _) => .ok a
  | .error e => .error e

/-- If `m` commits from `s`, its result and the store it leaves satisfy `Q`. -/
def Ensures (m : Tx σ ε α) (s : σ) (Q : α → σ → Prop) : Prop :=
  ∀ a s', m s = .ok (a, s') → Q a s'

/-! ### Rules -/

variable {s : σ} {Q : α → σ → Prop}

variable {m : Tx σ ε α} {a : α} {e : ε}

@[simp] theorem ensures_pure : Ensures (pure a : Tx σ ε α) s Q ↔ Q a s := by
  constructor
  · intro h; exact h a s rfl
  · intro h _ _ ok; cases ok; exact h

@[simp] theorem ensures_bind {f : α → Tx σ ε β} {Q : β → σ → Prop} :
    Ensures (m >>= f) s Q ↔ Ensures m s (fun a s' => Ensures (f a) s' Q) := by
  constructor
  · intro h a s' ok b s'' ok'
    refine h b s'' ?_
    change (match m s with | .ok (a, s') => f a s' | .error e => .error e) = _
    rw [ok]; exact ok'
  · intro h b s'' ok
    change (match m s with | .ok (a, s') => f a s' | .error e => .error e) = _ at ok
    cases step : m s with
    | ok r => rw [step] at ok; exact h r.1 r.2 step b s'' ok
    | error e => rw [step] at ok; cases ok

@[simp] theorem ensures_fail : Ensures (fail e : Tx σ ε α) s Q := by
  intro a s' ok; cases ok

@[simp] theorem ensures_read {f : σ → α} : Ensures (read f : Tx σ ε α) s Q ↔ Q (f s) s := by
  constructor
  · intro h; exact h _ _ rfl
  · intro h _ _ ok; cases ok; exact h

@[simp] theorem ensures_write {f : σ → σ} {Q : Unit → σ → Prop} :
    Ensures (write f : Tx σ ε Unit) s Q ↔ Q () (f s) := by
  constructor
  · intro h; exact h _ _ rfl
  · intro h _ _ ok; cases ok; exact h

variable {p : Prop}

@[simp] theorem ensures_demand [Decidable p] {Q : Unit → σ → Prop} :
    Ensures (demand p e : Tx σ ε Unit) s Q ↔ (p → Q () s) := by
  unfold demand
  constructor
  · intro h holds
    exact h () s (by simp [holds])
  · intro h _ _ ok
    split at ok
    · next holds => cases ok; exact h holds
    · cases ok

@[simp] theorem ensures_require {o : Option α} :
    Ensures (require o e : Tx σ ε α) s Q ↔ ∀ a, o = some a → Q a s := by
  unfold require Ensures
  cases o <;> simp

@[simp] theorem ensures_check {f : σ → Except ε α} :
    Ensures (check f) s Q ↔ ∀ a, f s = .ok a → Q a s := by
  unfold check Ensures
  cases checked : f s with
  | ok a =>
    simp only [checked, Except.ok.injEq, Prod.mk.injEq, and_imp]
    exact ⟨fun h b same => h b s same rfl, fun h b t same state => state ▸ h b same⟩
  | error e => simp [checked]

theorem ensures_onlyIf [Decidable p] {m : Tx σ ε Unit} {Q : Unit → σ → Prop} :
    Ensures (onlyIf p m) s Q ↔ (p → Ensures m s Q) ∧ (¬p → Q () s) := by
  unfold onlyIf
  by_cases holds : p
  · simp [holds, Ensures]
  · simp only [holds, if_false, false_imp_iff, true_and, not_false_iff, true_imp_iff]
    exact ensures_pure (a := ())

theorem ensures_ite [Decidable p] {n : Tx σ ε α} :
    Ensures (if p then m else n) s Q ↔ (p → Ensures m s Q) ∧ (¬p → Ensures n s Q) := by
  by_cases holds : p
  · simp [holds]
  · simp [holds]

theorem ensures_attempt {Q : Except ε α → σ → Prop} :
    Ensures (attempt m) s Q ↔
      Ensures m s (fun a s' => Q (.ok a) s') ∧ ∀ e, m s = .error e → Q (.error e) s := by
  unfold attempt Ensures
  cases step : m s with
  | ok r =>
    simp only [step, Except.ok.injEq, reduceCtorEq, false_imp_iff, implies_true, and_true]
    exact ⟨fun h a s' same => h _ _ (by rw [same]), fun h _ _ same => by
      cases same; exact h r.1 r.2 rfl⟩
  | error e =>
    simp only [step, Except.ok.injEq, reduceCtorEq, false_imp_iff, implies_true, true_and,
      Except.error.injEq]
    exact ⟨fun h e' same => h _ _ (by rw [same]), fun h _ _ same => by cases same; exact h e rfl⟩

@[simp] theorem ensures_map {f : α → β} {Q : β → σ → Prop} :
    Ensures (f <$> m) s Q ↔ Ensures m s (fun a s' => Q (f a) s') :=
  (ensures_bind (m := m) (f := fun a => pure (f a))).trans
    (by simp only [ensures_pure])

@[simp] theorem ensures_seqRight {n : Tx σ ε β} {Q : β → σ → Prop} :
    Ensures (m *> n) s Q ↔ Ensures m s (fun _ s' => Ensures n s' Q) :=
  ensures_bind (m := m) (f := fun _ => n)

/-- The rules together: `simp only` with it runs a transaction up to its first
branch. -/
theorem wp :
    (∀ {α s Q} {a : α}, Ensures (pure a : Tx σ ε α) s Q ↔ Q a s) ∧
    (∀ {α β s} {Q : β → σ → Prop} {m : Tx σ ε α} {f : α → Tx σ ε β},
      Ensures (m >>= f) s Q ↔ Ensures m s (fun a s' => Ensures (f a) s' Q)) ∧
    (∀ {α β s} {Q : β → σ → Prop} {m : Tx σ ε α} {f : α → β},
      Ensures (f <$> m) s Q ↔ Ensures m s (fun a s' => Q (f a) s')) ∧
    (∀ {α β s} {Q : β → σ → Prop} {m : Tx σ ε α} {n : Tx σ ε β},
      Ensures (m *> n) s Q ↔ Ensures m s (fun _ s' => Ensures n s' Q)) ∧
    (∀ {α s Q} {f : σ → α}, Ensures (read f : Tx σ ε α) s Q ↔ Q (f s) s) ∧
    (∀ {s Q} {f : σ → σ}, Ensures (write f : Tx σ ε Unit) s Q ↔ Q () (f s)) ∧
    (∀ {s Q} {p : Prop} [Decidable p] {e : ε},
      Ensures (demand p e : Tx σ ε Unit) s Q ↔ (p → Q () s)) ∧
    (∀ {α s Q} {o : Option α} {e : ε},
      Ensures (require o e : Tx σ ε α) s Q ↔ ∀ a, o = some a → Q a s) ∧
    ∀ {α s Q} {f : σ → Except ε α}, Ensures (check f) s Q ↔ ∀ a, f s = .ok a → Q a s :=
  ⟨ensures_pure, ensures_bind, ensures_map, ensures_seqRight, ensures_read, ensures_write,
    ensures_demand, ensures_require, ensures_check⟩

theorem Ensures.mono {Q' : α → σ → Prop} (h : Ensures m s Q)
    (weaken : ∀ a s', Q a s' → Q' a s') : Ensures m s Q' :=
  fun a s' ok => weaken a s' (h a s' ok)

theorem ensures_forEach_cons {a : α} {rest : List α} {m : α → Tx σ ε Unit} {Q : Unit → σ → Prop} :
    Ensures (forEach (a :: rest) m) s Q ↔
      Ensures (m a) s (fun _ t => Ensures (forEach rest m) t Q) := by
  constructor
  · intro h _ t ran u t' ok
    refine h u t' ?_
    simp only [forEach, ran, ok]
  · intro h u t' ok
    simp only [forEach] at ok
    split at ok
    · next t ran => exact h _ t ran u t' ok
    · cases ok

/-- A reflexive, transitive relation that every iteration respects is
respected by the loop. -/
theorem ensures_forEach {R : σ → σ → Prop} (refl : ∀ s, R s s)
    (trans : ∀ {s t u}, R s t → R t u → R s u) {items : List α} {m : α → Tx σ ε Unit}
    (each : ∀ a ∈ items, ∀ s, Ensures (m a) s (fun _ s' => R s s')) (s : σ) :
    Ensures (forEach items m) s (fun _ s' => R s s') := by
  induction items generalizing s with
  | nil => intro _ _ ok; cases ok; exact refl s
  | cons a rest ih =>
    rw [ensures_forEach_cons]
    refine (each a List.mem_cons_self s).mono fun _ t first => ?_
    exact (ih (fun b member => each b (List.mem_cons_of_mem _ member)) t).mono fun _ _ => trans first

/-- A transaction that only reads. -/
def ReadOnly (m : Tx σ ε α) : Prop := ∀ s, Ensures m s (fun _ s' => s' = s)

theorem peek_of_ok {s' : σ} (ok : m s = .ok (a, s')) :
    m.peek s = .ok a := by
  simp only [peek, ok]

/-- What a reading transaction ensures is what holds of the value it finds. -/
theorem ReadOnly.ensures (reads : ReadOnly m) :
    Ensures m s Q ↔ ∀ a, m.peek s = .ok a → Q a s := by
  constructor
  · intro h a found
    unfold peek at found
    cases step : m s with
    | ok r =>
      obtain ⟨b, s'⟩ := r
      simp only [step, Except.ok.injEq] at found
      have unchanged := reads s b s' step
      exact found ▸ unchanged ▸ h b s' step
    | error e => simp [step] at found
  · intro h a s' ok
    have unchanged := reads s a s' ok
    exact unchanged.symm ▸ h a (peek_of_ok ok)

theorem Ensures.peek (reads : ReadOnly m) (h : Ensures m s Q) {a : α}
    (found : m.peek s = .ok a) : Q a s := reads.ensures.mp h a found

theorem Ensures.peeked {P : α → Prop} (h : Ensures m s (fun a _ => P a))
    (found : m.peek s = .ok a) : P a := by
  unfold Tx.peek at found
  cases step : m s with
  | ok r =>
    simp only [step, Except.ok.injEq] at found
    exact found ▸ h r.1 r.2 step
  | error e => simp [step] at found

/-- What holds of every committed outcome and of the untouched store holds
after the transaction. -/
theorem Ensures.commit {P : σ → Prop} (h : Ensures m s (fun _ s' => P s'))
    (unchanged : P s) : P (m.commit s) := by
  unfold Tx.commit
  cases step : m s with
  | ok r => exact h r.1 r.2 step
  | error e => exact unchanged

theorem result?_eq_some (h : m.result? s = some a) :
    ∃ s', m s = .ok (a, s') ∧ m.commit s = s' := by
  unfold result? at h
  unfold Tx.commit
  cases step : m s with
  | ok r => rw [step] at h; cases h; exact ⟨r.2, rfl, rfl⟩
  | error e => rw [step] at h; cases h

/-! ### Errors -/

/-- Whatever `m` aborts with satisfies `E`. -/
def Throws (m : Tx σ ε α) (s : σ) (E : ε → Prop) : Prop := ∀ e, m s = .error e → E e

/-- `m` does not abort. -/
abbrev Total (m : Tx σ ε α) (s : σ) : Prop := Throws m s fun _ => False

variable {E : ε → Prop}

@[simp] theorem ensures_true : Ensures m s (fun _ _ => True) :=
  fun _ _ _ => trivial

@[simp] theorem throws_pure : Throws (pure a : Tx σ ε α) s E := by
  intro e failed; cases failed

@[simp] theorem throws_bind {f : α → Tx σ ε β} :
    Throws (m >>= f) s E ↔ Throws m s E ∧ Ensures m s (fun a s' => Throws (f a) s' E) := by
  have run : (m >>= f) s = match m s with | .ok (a, s') => f a s' | .error e => .error e := rfl
  constructor
  · intro h
    refine ⟨fun e failed => h e ?_, fun a s' ok e failed => h e ?_⟩
    · rw [run, failed]
    · rw [run, ok]
      exact failed
  · rintro ⟨first, later⟩ e failed
    rw [run] at failed
    cases step : m s with
    | ok r => rw [step] at failed; exact later r.1 r.2 step e failed
    | error e' => rw [step] at failed; cases failed; exact first e step

@[simp] theorem throws_fail : Throws (fail e : Tx σ ε α) s E ↔ E e := by
  refine ⟨fun h => h e rfl, fun h e' failed => ?_⟩
  cases failed
  exact h

@[simp] theorem throws_read {f : σ → α} : Throws (read f : Tx σ ε α) s E := by
  intro e failed; cases failed

@[simp] theorem throws_write {f : σ → σ} : Throws (write f : Tx σ ε Unit) s E := by
  intro e failed; cases failed

@[simp] theorem throws_demand [Decidable p] :
    Throws (demand p e : Tx σ ε Unit) s E ↔ (¬p → E e) := by
  unfold Throws demand
  by_cases holds : p <;> simp [holds]

@[simp] theorem throws_require {o : Option α} :
    Throws (require o e : Tx σ ε α) s E ↔ (o = none → E e) := by
  unfold Throws require
  cases o <;> simp

@[simp] theorem throws_check {f : σ → Except ε α} :
    Throws (check f) s E ↔ ∀ e, f s = .error e → E e := by
  unfold Throws check
  cases f s <;> simp

@[simp] theorem throws_attempt : Throws (attempt m) s E := by
  unfold Throws attempt
  cases m s <;> simp

theorem throws_onlyIf [Decidable p] {m : Tx σ ε Unit} :
    Throws (onlyIf p m) s E ↔ (p → Throws m s E) := by
  unfold onlyIf Throws
  by_cases holds : p <;> simp [holds]

theorem throws_ite [Decidable p] {n : Tx σ ε α} :
    Throws (if p then m else n) s E ↔ (p → Throws m s E) ∧ (¬p → Throws n s E) := by
  by_cases holds : p <;> simp [holds]

theorem throws_forEach {items : List α} {m : α → Tx σ ε Unit}
    (each : ∀ a ∈ items, ∀ s, Throws (m a) s E) (s : σ) : Throws (forEach items m) s E := by
  induction items generalizing s with
  | nil => intro e failed; cases failed
  | cons a rest ih =>
    intro e failed
    simp only [forEach] at failed
    cases step : m a s with
    | error e' =>
      rw [step] at failed
      cases failed
      exact each a List.mem_cons_self s e step
    | ok r =>
      rw [step] at failed
      exact ih (fun b member => each b (List.mem_cons_of_mem _ member)) r.2 e failed

@[simp] theorem throws_map {f : α → β} : Throws (f <$> m) s E ↔ Throws m s E :=
  (throws_bind (m := m) (f := fun a => pure (f a))).trans (by simp)

@[simp] theorem throws_seqRight {n : Tx σ ε β} :
    Throws (m *> n) s E ↔ Throws m s E ∧ Ensures m s (fun _ s' => Throws n s' E) :=
  throws_bind (m := m) (f := fun _ => n)

/-- The rules for errors together. -/
theorem wpe :
    (∀ {α s E} {a : α}, Throws (pure a : Tx σ ε α) s E) ∧
    (∀ {α β s E} {m : Tx σ ε α} {f : α → Tx σ ε β}, Throws (m >>= f) s E ↔
      Throws m s E ∧ Ensures m s (fun a s' => Throws (f a) s' E)) ∧
    (∀ {α s E} {f : σ → α}, Throws (read f : Tx σ ε α) s E) ∧
    (∀ {s E} {f : σ → σ}, Throws (write f : Tx σ ε Unit) s E) ∧
    (∀ {s E} {p : Prop} [Decidable p] {e : ε},
      Throws (demand p e : Tx σ ε Unit) s E ↔ (¬p → E e)) ∧
    (∀ {α s E} {o : Option α} {e : ε},
      Throws (require o e : Tx σ ε α) s E ↔ (o = none → E e)) ∧
    ∀ {α s E} {f : σ → Except ε α}, Throws (check f) s E ↔ ∀ e, f s = .error e → E e :=
  ⟨throws_pure, throws_bind, throws_read, throws_write, throws_demand, throws_require,
    throws_check⟩

/-- A transaction that cannot fail commits as it ensures. -/
theorem Ensures.commits {Q : α → σ → Prop} (ensures : Ensures m s Q)
    (total : Throws m s (fun _ => False)) : ∃ a t, m s = .ok (a, t) ∧ Q a t := by
  cases run : m s with
  | ok r => exact ⟨r.1, r.2, rfl, ensures r.1 r.2 run⟩
  | error e => exact (total e run).elim

/-- A transaction that cannot commit fails. -/
theorem Ensures.fails (never : Ensures m s (fun _ _ => False)) :
    ∃ e, m s = .error e := by
  cases run : m s with
  | ok r => exact (never r.1 r.2 run).elim
  | error e => exact ⟨e, rfl⟩

section FirstOf

variable {m : α → Tx σ ε (Option β)} {items before after : List α}
  (pass : ∀ a, Ensures (m a) s (fun out s' => out = none → s' = s))

include pass

/-- Items that are passed over leave no trace, so what each of them leaves the
whole search leaves. -/
theorem ensures_firstOf {P : Option β → σ → Prop} (start : P none s)
    (each : ∀ a ∈ items, Ensures (m a) s P) : Ensures (firstOf m items) s P := by
  induction items with
  | nil => exact ensures_pure.mpr start
  | cons a rest ih =>
    simp only [firstOf, ensures_bind]
    intro out s' ran
    cases out with
    | some b => exact ensures_pure.mpr (each a List.mem_cons_self _ _ ran)
    | none =>
      rw [pass a _ _ ran rfl]
      exact ih fun b member => each b (List.mem_cons_of_mem _ member)

/-- A search fails as one of its items does. -/
theorem throws_firstOf (each : ∀ a ∈ items, Throws (m a) s E) :
    Throws (firstOf m items) s E := by
  induction items with
  | nil => exact throws_pure
  | cons a rest ih =>
    simp only [firstOf, throws_bind]
    refine ⟨each a List.mem_cons_self, (pass a).mono ?_⟩
    intro out s' passed
    cases out with
    | some b => exact throws_pure
    | none =>
      rw [passed rfl]
      exact ih fun b member => each b (List.mem_cons_of_mem _ member)

end FirstOf

/-- A reading transaction fails as its value does. -/
theorem throws_peek (h : Throws m s E) (failed : m.peek s = .error e) :
    E e := by
  unfold peek at failed
  cases step : m s with
  | ok r => rw [step] at failed; cases failed
  | error e' => rw [step] at failed; cases failed; exact h e step

/-! ### Success -/

/-- `m` commits with an outcome that satisfies `Q`.  Unlike those of `Ensures`, the
rules leave nothing out: what they give for a transaction is exactly what it needs. -/
def Succeeds (m : Tx σ ε α) (s : σ) (Q : α → σ → Prop) : Prop := ∃ a t, m s = .ok (a, t) ∧ Q a t

theorem succeeds_pure : Succeeds (pure a : Tx σ ε α) s Q ↔ Q a s := by
  constructor
  · rintro ⟨_, _, ⟨⟩, holds⟩
    exact holds
  · exact fun holds => ⟨a, s, rfl, holds⟩

theorem succeeds_bind {f : α → Tx σ ε β} {Q : β → σ → Prop} :
    Succeeds (m >>= f) s Q ↔ Succeeds m s (fun a s' => Succeeds (f a) s' Q) := by
  have run : (m >>= f) s = match m s with | .ok (a, s') => f a s' | .error e => .error e := rfl
  unfold Succeeds
  rw [run]
  rcases m s with e | ⟨a, s'⟩ <;> simp

theorem succeeds_read {f : σ → α} : Succeeds (read f : Tx σ ε α) s Q ↔ Q (f s) s := succeeds_pure

theorem succeeds_write {f : σ → σ} {Q : Unit → σ → Prop} :
    Succeeds (write f : Tx σ ε Unit) s Q ↔ Q () (f s) := by
  constructor
  · rintro ⟨_, _, ⟨⟩, holds⟩
    exact holds
  · exact fun holds => ⟨(), f s, rfl, holds⟩

theorem succeeds_demand {p : Prop} [Decidable p] {e : ε} {Q : Unit → σ → Prop} :
    Succeeds (demand p e : Tx σ ε Unit) s Q ↔ p ∧ Q () s := by
  unfold demand Succeeds
  split
  · next holds => exact ⟨fun ⟨_, _, ran, q⟩ => ⟨holds, by cases ran; exact q⟩, fun q => ⟨(), s, rfl, q.2⟩⟩
  · next fails => simp [fails]

theorem succeeds_require {o : Option α} {e : ε} :
    Succeeds (require o e : Tx σ ε α) s Q ↔ ∃ a, o = some a ∧ Q a s := by
  unfold require Succeeds
  cases o <;> simp

theorem succeeds_ite {p : Prop} [Decidable p] {n : Tx σ ε α} :
    Succeeds (if p then m else n) s Q ↔ if p then Succeeds m s Q else Succeeds n s Q := by
  split <;> rfl

theorem ReadOnly.succeeds (reads : ReadOnly m) :
    Succeeds m s Q ↔ ∃ a, m.peek s = .ok a ∧ Q a s := by
  constructor
  · rintro ⟨a, t, ran, holds⟩
    exact ⟨a, peek_of_ok ran, reads s a t ran ▸ holds⟩
  · rintro ⟨a, found, holds⟩
    unfold peek at found
    cases ran : m s with
    | ok r =>
      simp only [ran, Except.ok.injEq] at found
      exact ⟨r.1, r.2, ran, found ▸ (reads s r.1 r.2 ran).symm ▸ holds⟩
    | error e => simp [ran] at found

/-- The rules for success together. -/
theorem wps :
    (∀ {α s Q} {a : α}, Succeeds (pure a : Tx σ ε α) s Q ↔ Q a s) ∧
    (∀ {α β s} {Q : β → σ → Prop} {m : Tx σ ε α} {f : α → Tx σ ε β},
      Succeeds (m >>= f) s Q ↔ Succeeds m s (fun a s' => Succeeds (f a) s' Q)) ∧
    (∀ {α s Q} {f : σ → α}, Succeeds (read f : Tx σ ε α) s Q ↔ Q (f s) s) ∧
    (∀ {s Q} {f : σ → σ}, Succeeds (write f : Tx σ ε Unit) s Q ↔ Q () (f s)) ∧
    (∀ {s Q} {p : Prop} [Decidable p] {e : ε},
      Succeeds (demand p e : Tx σ ε Unit) s Q ↔ p ∧ Q () s) ∧
    (∀ {α s Q} {o : Option α} {e : ε},
      Succeeds (require o e : Tx σ ε α) s Q ↔ ∃ a, o = some a ∧ Q a s) ∧
    ∀ {α s Q} {p : Prop} [Decidable p] {m n : Tx σ ε α},
      Succeeds (if p then m else n) s Q ↔ if p then Succeeds m s Q else Succeeds n s Q :=
  ⟨succeeds_pure, succeeds_bind, succeeds_read, succeeds_write, succeeds_demand, succeeds_require,
    succeeds_ite⟩

/-- Where only `a` answers, the search answers exactly when nothing before it
fails. -/
theorem firstOf_yields_iff {m : α → Tx σ ε (Option β)} {before after : List α}
    (pass : ∀ a, Ensures (m a) s (fun out s' => out = none → s' = s))
    (silent : ∀ x ∈ before, ¬Succeeds (m x) s (fun out _ => out.isSome = true))
    (answers : Succeeds (m a) s (fun out _ => out.isSome = true)) :
    Succeeds (firstOf m (before ++ a :: after)) s (fun out _ => out.isSome = true) ↔
      ∀ x ∈ before, Succeeds (m x) s (fun _ _ => True) := by
  have first : ∀ x rest, Succeeds (firstOf m (x :: rest)) s (fun out _ => out.isSome = true) ↔
      Succeeds (m x) s (fun out _ => out.isSome = true) ∨
        Succeeds (m x) s (fun out _ => out = none) ∧
          Succeeds (firstOf m rest) s (fun out _ => out.isSome = true) := by
    intro x rest
    simp only [firstOf, succeeds_bind]
    constructor
    · rintro ⟨out, t, ran, later⟩
      cases out with
      | some b => exact .inl ⟨_, t, ran, rfl⟩
      | none => exact .inr ⟨⟨none, t, ran, rfl⟩, pass x _ _ ran rfl ▸ later⟩
    · rintro (⟨out, t, ran, some⟩ | ⟨⟨_, t, ran, rfl⟩, later⟩)
      · obtain ⟨b, rfl⟩ := Option.isSome_iff_exists.mp some
        exact ⟨_, t, ran, succeeds_pure.mpr rfl⟩
      · exact ⟨none, t, ran, (pass x _ _ ran rfl).symm ▸ later⟩
  induction before with
  | nil => exact iff_of_true ((first _ _).mpr (.inl answers)) (by simp)
  | cons x rest ih =>
    obtain ⟨quiet, silent⟩ := List.forall_mem_cons.mp silent
    rw [List.cons_append, first, or_iff_right quiet, List.forall_mem_cons]
    refine and_congr ?_ (ih silent)
    refine ⟨fun ⟨_, t, ran, _⟩ => ⟨_, t, ran, trivial⟩, ?_⟩
    rintro ⟨out, t, ran, -⟩
    refine ⟨out, t, ran, ?_⟩
    cases out with
    | none => rfl
    | some b => exact absurd ⟨_, t, ran, rfl⟩ quiet

/-! ### Both outcomes -/

/-- `m` commits as `Q` says or aborts as `E` says. -/
def Runs (m : Tx σ ε α) (s : σ) (Q : α → σ → Prop) (E : ε → Prop) : Prop :=
  Ensures m s Q ∧ Throws m s E

theorem Runs.mono {Q' : α → σ → Prop} (h : Runs m s Q E)
    (weaken : ∀ a s', Q a s' → Q' a s') : Runs m s Q' E := ⟨h.1.mono weaken, h.2⟩

theorem runs_bind {f : α → Tx σ ε β} {Q : β → σ → Prop} :
    Runs (m >>= f) s Q E ↔ Runs m s (fun a s' => Runs (f a) s' Q E) E := by
  unfold Runs
  rw [ensures_bind, throws_bind]
  exact ⟨fun ⟨done, first, later⟩ => ⟨fun a s' ok => ⟨done a s' ok, later a s' ok⟩, first⟩,
    fun ⟨both, first⟩ => ⟨fun a s' ok => (both a s' ok).1, first, fun a s' ok => (both a s' ok).2⟩⟩

theorem runs_ite [Decidable p] {n : Tx σ ε α} :
    Runs (if p then m else n) s Q E ↔ (p → Runs m s Q E) ∧ (¬p → Runs n s Q E) := by
  by_cases holds : p <;> simp [holds]

theorem runs_onlyIf [Decidable p] {m : Tx σ ε Unit} {Q : Unit → σ → Prop} :
    Runs (onlyIf p m) s Q E ↔ (p → Runs m s Q E) ∧ (¬p → Q () s) := by
  unfold Runs
  rw [ensures_onlyIf, throws_onlyIf]
  exact ⟨fun ⟨⟨done, skipped⟩, errors⟩ => ⟨fun h => ⟨done h, errors h⟩, skipped⟩,
    fun ⟨both, skipped⟩ => ⟨⟨fun h => (both h).1, skipped⟩, fun h => (both h).2⟩⟩

end Tx

end DomainryAgent.Lib
