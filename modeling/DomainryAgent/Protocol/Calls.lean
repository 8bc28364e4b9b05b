import DomainryAgent.Protocol.Steps

/-!
The durable record of the calls: no step of a run and no call is lost, and what
identifies a call stays as it was recorded.  A record is new, or it is one that
was there and was not completed (`CallFrom`); what is completed has a receipt
that says what became of the call (`Receipted`).
-/

namespace DomainryAgent.Protocol

open Lib

variable {allowed : Hazard → Prop} {s t : Core}

theorem Step.toolsKept (step : Step allowed s t) : ToolsKept s.tools t.tools := by
  cases step with
  | move move =>
    cases move with
    | tools change => exact change.kept
    | _ => exact .refl _
  | _ => exact .refl _

theorem Step.stepsKept (step : Step allowed s t) : StepsKept s.steps t.steps := by
  cases step with
  | move move =>
    cases move with
    | steps change => exact change.kept
    | _ => exact .refl _
  | _ => exact .refl _

theorem Steps.toolsKept (steps : Steps allowed s t) : ToolsKept s.tools t.tools := by
  induction steps with
  | refl => exact .refl _
  | tail _ step ih => exact ih.trans step.toolsKept

theorem Steps.stepsKept (steps : Steps allowed s t) : StepsKept s.steps t.steps := by
  induction steps with
  | refl => exact .refl _
  | tail _ step ih => exact ih.trans step.stepsKept

/-! ### Where a record comes from -/

/-- The call has a receipt that says what became of it. -/
def KnownResult (call : ToolExecution) : Prop :=
  ∃ receipt, call.result = some receipt ∧ receipt.status ≠ .uncertain

instance (call : ToolExecution) : Decidable (KnownResult call) :=
  decidable_of_iff (call.result.any (·.status ≠ .uncertain) = true)
    (by simp [KnownResult, Option.any_eq_true])

/-- A record that changes gets a receipt, or stays open with the one it has. -/
def CallChange (old next : ToolExecution) : Prop :=
  (next.state = .completed ↔ KnownResult next) ∨
    next.state ≠ .completed ∧ next.result = old.result

/-- Where the record of a call comes from in one step. -/
inductive CallFrom (s : Core) (k : Id × Nat × Id) (next : ToolExecution) : Prop
  | kept (found : s.tools.get? k = some next) : CallFrom s k next
  | changed {old : ToolExecution} (found : s.tools.get? k = some old) (same : SameCall old next)
      (isOpen : old.state ≠ .completed) (changes : CallChange old next) : CallFrom s k next
  | opened {claim : Claim} {row : RunRow} (new : s.tools.get? k = none)
      (accepted : Accepted s claim row) (run : next.runID = claim.runID)
      (own : next.reusedFrom = none) (blank : next.result = none)
      (isOpen : next.state ≠ .completed) : CallFrom s k next
  | reused {claim : Claim} {row : RunRow} {record original : ToolExecution} {receipt : ToolResult}
      (new : s.tools.get? k = none) (accepted : Accepted s claim row)
      (run : next.runID = claim.runID) (earlier : s.tools.get? original.key = some original)
      (completed : original.state = .completed) (known : original.result = some receipt)
      (received : next = receivedCall record receipt) : CallFrom s k next

theorem receivedCall_known (record : ToolExecution) (receipt : ToolResult) :
    (receivedCall record receipt).state = .completed ↔ KnownResult (receivedCall record receipt) := by
  by_cases uncertain : receipt.status = .uncertain
  · simp [receivedCall, KnownResult, uncertain]
  · simp [receivedCall, KnownResult, uncertain]

variable {k : Id × Nat × Id} {next : ToolExecution} {tools : Table ToolExecution.key}

theorem CallFrom.of_put {old new : ToolExecution} (found : s.tools.get? old.key = some old)
    (same : SameCall old new) (key : new.key = old.key) (isOpen : old.state ≠ .completed)
    (changes : CallChange old new) (there : (s.tools.put new).get? k = some next) :
    CallFrom s k next := by
  rcases Table.get?_put_some there with ⟨rfl, rfl, _⟩ | ⟨_, there⟩
  · exact .changed (key.symm ▸ found) same isOpen changes
  · exact .kept there

theorem Interrupt.call (interrupt : Interrupt s.tools tools) (there : tools.get? k = some next) :
    CallFrom s k next := by
  cases interrupt with
  | @write record found started effect =>
    have same : SameCall record (interruptedCall record) :=
      ⟨rfl, rfl, rfl, rfl, rfl, rfl, fun _ h => nomatch h⟩
    have unknown : (interruptedCall record).state = .completed ↔
        KnownResult (interruptedCall record) := by
      simp [interruptedCall, KnownResult]
    refine .of_put found same rfl (fun completed => ?_) (.inl unknown) there
    cases started.symm.trans completed

theorem ToolChange.call (change : ToolChange allowed s tools) (there : tools.get? k = some next) :
    CallFrom s k next := by
  have inserted_new : ∀ {record : ToolExecution}, s.tools.insert? record = some tools →
      s.tools.get? k = some next ∨ s.tools.get? k = none ∧ next = record := by
    intro record inserted
    rcases Table.get?_insert?_some inserted there with ⟨here, rfl⟩ | ⟨_, there⟩
    · exact .inr ⟨here ▸ (Table.get?_insert? inserted).1, rfl⟩
    · exact .inl there
  cases change with
  | reserve accepted run _ _ _ _ _ state own blank inserted
    | start accepted run _ _ _ _ state own blank inserted =>
    rcases inserted_new inserted with found | ⟨new, rfl⟩
    · exact .kept found
    · exact .opened new accepted run own blank (by rw [state]; exact nofun)
  | reuse accepted run _ _ _ _ earlier completed known inserted =>
    rcases inserted_new inserted with found | ⟨new, rfl⟩
    · exact .kept found
    · exact .reused new accepted run earlier completed known rfl
  | @take claim _ record _ accepted _ found isOpen taken =>
    rcases taken with rfl | rfl
    · have same : SameCall record
          { record with leaseOwner := some claim.owner, fence := claim.fence } :=
        ⟨rfl, rfl, rfl, rfl, rfl, rfl, id⟩
      exact .of_put found same rfl isOpen (.inr ⟨isOpen, rfl⟩) there
    · refine .of_put found (begunCall_same record claim).1 rfl isOpen (.inr ⟨?_, rfl⟩) there
      intro completed
      unfold begunCall at completed
      split at completed
      · cases completed
      · exact isOpen completed
  | @receive record receipt found isOpen =>
    exact .of_put found (receivedCall_same record receipt) rfl isOpen
      (.inl (receivedCall_known record receipt)) there
  | interrupt interrupt => exact interrupt.call there

theorem Step.call (step : Step allowed s t) (there : t.tools.get? k = some next) :
    CallFrom s k next := by
  cases step with
  | move move =>
    cases move with
    | tools change => exact change.call there
    | _ => exact .kept there
  | _ => exact .kept there

/-! ### Receipts -/

/-- A call is completed exactly if its result is known, and one that repeats an
earlier receipt is completed. -/
structure Receipted (tools : Table ToolExecution.key) : Prop where
  known : ∀ k call, tools.get? k = some call → (call.state = .completed ↔ KnownResult call)
  reused : ∀ k call, tools.get? k = some call → call.reusedFrom ≠ none → call.state = .completed

theorem Receipted.empty : Receipted .empty where
  known _ _ found := by simp at found
  reused _ _ found := by simp at found

theorem Step.receipted (step : Step allowed s t) (inv : Receipted s.tools) : Receipted t.tools where
  known k call there := by
    cases step.call there with
    | kept found => exact inv.known k call found
    | @changed old found _ isOpen changes =>
      rcases changes with known | ⟨stays, result⟩
      · exact known
      · have before : ¬KnownResult old := fun known => isOpen ((inv.known k old found).mpr known)
        unfold KnownResult at before ⊢
        rw [result]
        exact iff_of_false stays before
    | opened _ _ _ _ blank isOpen =>
      refine iff_of_false isOpen ?_
      rintro ⟨receipt, known, _⟩
      cases blank.symm.trans known
    | reused _ _ _ _ _ _ received =>
      subst received
      exact receivedCall_known _ _
  reused k call there repeats := by
    cases step.call there with
    | kept found => exact inv.reused k call found repeats
    | @changed old found same isOpen =>
      rw [same.reused] at repeats
      exact absurd (inv.reused k old found repeats) isOpen
    | opened _ _ _ own => exact absurd own repeats
    | @reused _ _ record original receipt _ _ _ earlier completed known received =>
      obtain ⟨_, same, certain⟩ := (inv.known _ original earlier).mp completed
      rw [known] at same
      cases same
      rw [received, receivedCall, if_neg certain]

/-- A write is settled once it is completed. -/
theorem Receipted.settled {call : ToolExecution} (inv : Receipted tools)
    (found : tools.get? k = some call) :
    unsettledWrite call = false ↔ call.definition.effect = .write → call.state = .completed := by
  constructor
  · intro settled write
    by_contra isOpen
    simp [unsettledWrite, write, isOpen] at settled
  · intro completes
    by_cases write : call.definition.effect = .write
    · obtain ⟨receipt, known, certain⟩ := (inv.known k call found).mp (completes write)
      simp [unsettledWrite, completes write, known, certain]
    · simp [unsettledWrite, write]

end DomainryAgent.Protocol
