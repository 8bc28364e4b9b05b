import DomainryAgent.Lib.System
import DomainryAgent.Lib.Transaction

/-!
Noninterference: what an observer sees of a system does not depend on the
actions of others.

`unwinding` is the usual argument.  Two states that look alike stay alike when
both take an action, and when one of them takes an action that is hidden; so an
observer is answered as if nothing hidden had been done.  For systems whose
actions are transactions, `Tx.Seen` says that a transaction does through a view
of the state what it does to the state.
-/

namespace DomainryAgent.Lib

section Unwinding

variable {σ ι ω : Type} (step : σ → ι → σ) (answer : σ → ι → ω) (observed : ι → Prop)
  [DecidablePred observed]

/-- The answers an observer gets along a list of actions. -/
def transcript : σ → List ι → List ω
  | _, [] => []
  | s, action :: rest =>
    if observed action then answer s action :: transcript (step s action) rest
    else transcript (step s action) rest

variable {step answer observed}

/-- Two states that look alike answer alike, whether or not what is hidden is
done in one of them. -/
theorem unwinding {alike : σ → σ → Prop} {visible : ι → Prop} [DecidablePred visible]
    (hides : ∀ {s t} action, alike s t → ¬ visible action → alike (step s action) t)
    (shows : ∀ {s t} action, alike s t → visible action → alike (step s action) (step t action))
    (answers : ∀ {s t} action, alike s t → observed action → answer s action = answer t action)
    (sees : ∀ action, observed action → visible action) {s t : σ} (same : alike s t)
    (actions : List ι) :
    transcript step answer observed s actions =
        transcript step answer observed t (actions.filter (visible ·)) ∧
      alike (runActions step s actions) (runActions step t (actions.filter (visible ·))) := by
  induction actions generalizing s t with
  | nil => exact ⟨rfl, same⟩
  | cons action rest ih =>
    by_cases shown : visible action
    · rw [List.filter_cons_of_pos (by simpa using shown)]
      have later := ih (shows action same shown)
      refine ⟨?_, later.2⟩
      by_cases seen : observed action
      · simp only [transcript, if_pos seen]
        rw [answers action same seen, later.1]
      · simp only [transcript, if_neg seen]
        exact later.1
    · rw [List.filter_cons_of_neg (by simpa using shown)]
      have unseen : ¬ observed action := fun seen => shown (sees action seen)
      have later := ih (hides action same shown)
      refine ⟨?_, later.2⟩
      simp only [transcript, if_neg unseen]
      exact later.1

/-- What holds of every answer given where an invariant holds holds of the
whole transcript. -/
theorem forall_transcript {I : σ → Prop} {P : ω → Prop} (keeps : ∀ s action, I s → I (step s action))
    (each : ∀ s action, I s → observed action → P (answer s action)) {s : σ} (start : I s)
    (actions : List ι) : ∀ out ∈ transcript step answer observed s actions, P out := by
  induction actions generalizing s with
  | nil =>
    intro out member
    cases member
  | cons action rest ih =>
    have later := ih (keeps s action start)
    by_cases seen : observed action
    · simp only [transcript, if_pos seen, List.forall_mem_cons]
      exact ⟨each s action start seen, later⟩
    · simp only [transcript, if_neg seen]
      exact later

end Unwinding

namespace Tx

variable {σ ε α β : Type} {view : σ → σ} {s : σ}

/-- On the view of `s`, `m` answers as on `s` and leaves the view of what it
leaves there. -/
def Seen (view : σ → σ) (m : Tx σ ε α) (s : σ) : Prop :=
  m (view s) = (m s).map (fun out => (out.1, view out.2))

@[simp] theorem seen_pure {a : α} : Seen view (pure a : Tx σ ε α) s := rfl

@[simp] theorem seen_fail {e : ε} : Seen view (fail e : Tx σ ε α) s := rfl

@[simp] theorem seen_demand {p : Prop} [Decidable p] {e : ε} :
    Seen view (demand p e : Tx σ ε Unit) s := by
  unfold Seen demand
  split <;> rfl

theorem seen_read {f : σ → α} (reads : f (view s) = f s) : Seen view (read f : Tx σ ε α) s := by
  unfold Seen read
  rw [reads]
  rfl

theorem seen_write {f : σ → σ} (writes : f (view s) = view (f s)) :
    Seen view (write f : Tx σ ε Unit) s := by
  unfold Seen write
  rw [writes]
  rfl

theorem Seen.bind {m : Tx σ ε α} {f : α → Tx σ ε β} (first : Seen view m s)
    (later : Ensures m s (fun a s' => Seen view (f a) s')) : Seen view (m >>= f) s := by
  simp only [Seen, Bind.bind]
  rw [first]
  cases step : m s with
  | ok out => exact later out.1 out.2 step
  | error e => rfl

/-- A transaction whose outcome does not matter for the rest. -/
theorem Seen.andThen {m : Tx σ ε α} {f : α → Tx σ ε β} (first : Seen view m s)
    (later : ∀ a s', Seen view (f a) s') : Seen view (m >>= f) s :=
  first.bind fun a s' _ => later a s'

theorem Seen.commit {m : Tx σ ε α} (seen : Seen view m s) : m.commit (view s) = view (m.commit s) := by
  unfold Tx.commit
  rw [seen]
  cases m s <;> rfl

theorem Seen.peek {m : Tx σ ε α} (seen : Seen view m s) : m.peek (view s) = m.peek s := by
  unfold Tx.peek
  rw [seen]
  cases m s <;> rfl

end Tx

end DomainryAgent.Lib
