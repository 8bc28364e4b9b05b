import DomainryAgent.Refinement.Operations

/-!
The workers around the store: the claims they were issued, the calls they have
begun, and what they ask of the tool host.

A worker begins a call in one transaction, then acts on it, and records the
receipt in another.  In between it can stall for as long as it likes or crash,
and another worker can take the run over: a begun call stays in flight until
its worker dispatches it or is gone.  The host's calls are only logged; what
the host does with them is no part of this system.
-/

namespace DomainryAgent

open Lib Refinement

/-- The run, step and id that name a tool call. -/
abbrev CallKey := Id × Nat × Id

/-- A call between its beginning and its effect, as its worker sees it: the
record and whether it was replayed, and the definition its step froze. -/
structure Dispatch where
  claim : Claim
  number : Nat
  callID : Id
  record : ToolExecution
  replayed : Bool
  frozen : ToolDefinition
  deriving DecidableEq

abbrev Dispatch.key (d : Dispatch) : CallKey := (d.claim.runID, d.number, d.callID)

inductive HostMode where
  | invoke
  | reconcile
  deriving DecidableEq

/-- A request to the tool host. -/
structure HostCall where
  key : CallKey
  definition : ToolDefinition
  idempotencyKey : IdempotencyKey
  mode : HostMode
  deriving DecidableEq

/-- `conversation_execution.go::executeConversationToolWithParent`, the
definition a step froze for a call. -/
def frozenDefinition (steps : Table ExecutionStep.key) (runID : Id) (number : Nat) (name : Id) :
    Option ToolDefinition :=
  (steps.get? (runID, number)).bind (fun step => step.input.tools.find? (·.key = name))

/-- `conversation_execution.go::executeConversationToolWithParent`, from
the beginning of a call to its request to the host.  A program runs in the
application, and a completed call is answered from its record. -/
def Dispatch.hostCall (d : Dispatch) : Option HostCall :=
  if d.replayed = true ∧ d.record.state = .completed ∧ d.record.result ≠ none then none
  else if d.frozen.kind = .code then none
  else some
    { key := d.key, definition := d.frozen, idempotencyKey := d.record.idempotencyKey
      mode := if d.replayed = true ∧
          (d.record.state = .uncertain ∨ d.frozen.idempotency = .reconcile) then .reconcile
        else .invoke }

/-- The store with the workers' side of it.  `interrupted` are the claims whose
run a cancellation took from them. -/
structure World where
  db : Db
  issued : List Claim
  begun : List (Claim × Nat × Id)
  interrupted : List Claim
  inFlight : List Dispatch
  log : List HostCall

inductive Action where
  | store (op : Op)
  | dispatch (d : Dispatch)
  | crash (d : Dispatch)

/-- The claim an operation hands out. -/
def issuedClaims : Option Outcome → List Claim
  | some (.leased (some claim)) => [claim]
  | _ => []

/-- The call an operation begins. -/
def Op.begins : Op → Option (Claim × Nat × Id)
  | .beginExecutionTool c number callID _ => some (c, number, callID)
  | .beginExecutionSubtool c number callID => some (c, number, callID)
  | _ => none

/-- What a worker holds after a call was begun. -/
def begunCalls (steps : Table ExecutionStep.key) (op : Op) (outcome : Option Outcome) :
    List Dispatch :=
  match op.begins, outcome with
  | some (claim, number, callID), some (.began record replayed) =>
    ((frozenDefinition steps claim.runID number record.call.name).map
      (fun frozen => ⟨claim, number, callID, record, replayed, frozen⟩)).toList
  | _, _ => []

/-- The claim has the run. -/
def holdsRun (runs : Table RunRow.key) (c : Claim) : Bool :=
  (runs.get? c.runID).any (fun row => row.owner = some c.owner ∧ row.fence = c.fence)

/-- The run was cancelled at the fence after the claim's. -/
def cancelledAfter (runs : Table RunRow.key) (c : Claim) : Bool :=
  (runs.get? c.runID).any (fun row => row.run.status = .cancelled ∧ row.fence = c.fence + 1)

/-- One store operation, with what the workers learn from it. -/
def World.store (w : World) (op : Op) : World :=
  let outcome := (exec op).result? w.db
  let db := w.db.step op
  let calls := begunCalls w.db.steps op outcome
  { db := db
    issued := issuedClaims outcome ++ w.issued
    begun := calls.map (fun d => (d.claim, d.number, d.callID)) ++ w.begun
    interrupted := w.issued.filter (fun c => holdsRun w.db.runs c && cancelledAfter db.runs c) ++
      w.interrupted
    inFlight := calls ++ w.inFlight
    log := w.log }

def World.step (w : World) : Action → World
  | .store op => w.store op
  | .dispatch d =>
    if d ∈ w.inFlight then
      { w with inFlight := w.inFlight.erase d, log := w.log ++ d.hostCall.toList }
    else w
  | .crash d => { w with inFlight := w.inFlight.erase d }

/-- Workers record receipts of calls they have begun under the same claim; the
one caller of `FinishExecutionTool` comes after its `Begin`. -/
def World.may (w : World) : Action → Prop
  | .store (.finishExecutionTool claim number callID _) => (claim, number, callID) ∈ w.begun
  | _ => True

/-- Receipts are the only actions that are not free. -/
def Action.isReceipt : Action → Bool
  | .store (.finishExecutionTool ..) => true
  | _ => false

theorem World.may_of_free (w : World) {action : Action} (free : action.isReceipt = false) :
    w.may action := by
  unfold World.may
  split
  · cases free
  · trivial

def World.initial (now : Time) (limits : Option ExecutionLimits) : World :=
  { db := Db.initial now limits, issued := [], begun := [], interrupted := [], inFlight := []
    log := [] }

/-- What the system reaches by any interleaving of operations, dispatches and
crashes. -/
abbrev World.Reachable (w : World) : Prop :=
  ∃ now limits, Reaches World.step World.may (World.initial now limits) w

theorem World.step_db (w : World) (action : Action) :
    (w.step action).db = w.db ∨ ∃ op, action = .store op ∧ (w.step action).db = w.db.step op := by
  cases action with
  | store op => exact .inr ⟨op, rfl, rfl⟩
  | dispatch d =>
    simp only [World.step]
    split <;> exact .inl rfl
  | crash d => exact .inl rfl

/-- What every action keeps, over stores in order, holds of what is reached. -/
theorem World.Reachable.invariant {w : World} {P : World → Prop} (reached : w.Reachable)
    (initial : ∀ now limits, P (World.initial now limits))
    (step : ∀ u action, WellFormed u.db → P u → P (u.step action)) : WellFormed w.db ∧ P w := by
  obtain ⟨now, limits, reached⟩ := reached
  refine reached.invariant (P := fun w => WellFormed w.db ∧ P w)
    ⟨.initial now limits, initial now limits⟩ ?_
  rintro u ⟨wf, holds⟩ action _
  refine ⟨?_, step u action wf holds⟩
  rcases u.step_db action with same | ⟨op, _, db⟩
  · rw [same]; exact wf
  · rw [db]; exact wf.step op

theorem World.Reachable.wellFormed {w : World} (reached : w.Reachable) : WellFormed w.db :=
  (reached.invariant (P := fun _ => True) (fun _ _ => trivial) fun _ _ _ _ => trivial).1

end DomainryAgent
