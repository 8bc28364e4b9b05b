import DomainryAgent.Lib.Transaction

/-!
Services: a computation over a store that commits as it goes.  One that fails
keeps what it has committed, unlike a transaction.

`Service.Ensures` is the triple for calls that succeed; a call made of
transactions is reasoned about through their own triples.
-/

namespace DomainryAgent.Lib

/-- A service over `σ`. -/
def Service (σ ε α : Type) : Type := σ → Except ε α × σ

namespace Service

variable {σ ε α β : Type}

instance : Monad (Service σ ε) where
  pure a := fun s => (.ok a, s)
  bind m f := fun s => match m s with
    | (.ok a, s') => f a s'
    | (.error e, s') => (.error e, s')

/-- Commit a transaction. -/
def commit (tx : Tx σ ε α) : Service σ ε α := fun s => match tx s with
  | .ok (a, s') => (.ok a, s')
  | .error e => (.error e, s)

/-- Fail with `e`. -/
def fail (e : ε) : Service σ ε α := fun s => (.error e, s)

/-- What holds of the answer and the store when `m` succeeds. -/
def Ensures (m : Service σ ε α) (s : σ) (Q : α → σ → Prop) : Prop :=
  ∀ a s', m s = (.ok a, s') → Q a s'

variable {s : σ} {Q : α → σ → Prop}

@[simp] theorem ensures_pure {a : α} : Ensures (pure a : Service σ ε α) s Q ↔ Q a s := by
  constructor
  · intro h; exact h a s rfl
  · intro h _ _ ok; cases ok; exact h

@[simp] theorem ensures_fail {e : ε} : Ensures (fail e : Service σ ε α) s Q := by
  intro a s' ok; cases ok

@[simp] theorem ensures_commit {tx : Tx σ ε α} : Ensures (commit tx) s Q ↔ tx.Ensures s Q := by
  constructor
  · intro h a s' ok
    exact h a s' (by simp [commit, ok])
  · intro h a s' ok
    unfold commit at ok
    cases step : tx s with
    | ok r => rw [step] at ok; cases ok; exact h _ _ step
    | error e => rw [step] at ok; cases ok

@[simp] theorem ensures_bind {m : Service σ ε α} {f : α → Service σ ε β} {Q : β → σ → Prop} :
    Ensures (m >>= f) s Q ↔ Ensures m s (fun a s' => Ensures (f a) s' Q) := by
  constructor
  · intro h a s' ok b s'' ok'
    refine h b s'' ?_
    change (match m s with | (.ok a, s') => f a s' | (.error e, s') => (.error e, s')) = _
    rw [ok]; exact ok'
  · intro h b s'' ok
    change (match m s with | (.ok a, s') => f a s' | (.error e, s') => (.error e, s')) = _ at ok
    match step : m s with
    | (.ok a, s') => rw [step] at ok; exact h a s' step b s'' ok
    | (.error e, s') => rw [step] at ok; cases ok

end Service

end DomainryAgent.Lib
