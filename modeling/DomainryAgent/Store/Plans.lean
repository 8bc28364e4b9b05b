import Mathlib.Data.List.Sort
import DomainryAgent.Lib.Dag
import DomainryAgent.Lib.Json
import DomainryAgent.Lib.Text
import DomainryAgent.Store.Database

/-!
Briefs, their projections, and the plans of background tasks.

A plan version is written by `plan_update` (checked by
`validStoredConversationPlan`), by `supersedeConversationTaskPlan` when the
agreement behind it changes, and by `closeConversationTaskPlan` when a run
ends.  The last two rewrite step statuses without checking the result.

Where no file is named, a definition models the function of `conversation_plan_store.go`
of its name.
-/

namespace DomainryAgent

open Lib

/-! ### Text -/

/-- `unicode.IsSpace`. -/
def isSpace (c : Char) : Bool :=
  let n := c.toNat
  n == 0x20 || (0x09 ≤ n && n ≤ 0x0d) || n == 0x85 || n == 0xa0 || n == 0x1680 ||
    (0x2000 ≤ n && n ≤ 0x200a) || n == 0x2028 || n == 0x2029 || n == 0x202f || n == 0x205f ||
    n == 0x3000

/-- `strings.TrimSpace`. -/
def trimSpace (value : String) : String := String.ofList (trim isSpace value.toList)

@[simp] theorem trimSpace_trimSpace (value : String) :
    trimSpace (trimSpace value) = trimSpace value := by simp [trimSpace]

/-- `conversation_execution_store.go::executionText`. -/
def executionText (value : String) (limit : Nat) (required : Bool) : Bool :=
  value.utf8ByteSize ≤ limit && !value.toList.contains (Char.ofNat 0) &&
    (!required || trimSpace value != "")

/-! ### Briefs -/

/-- The fields a brief carries itself, in the order the source lists them. -/
def briefFields : List AgreementField :=
  [.goal, .deliverable, .audience, .constraints, .completionConditions, .verificationRules,
    .assumptions, .dueAt]

/-- Every agreement field in the order the source sorts field names. -/
def sortedFields : List AgreementField :=
  [.assignment, .assumptions, .audience, .completionConditions, .constraints, .deliverable,
    .dependencies, .dueAt, .goal, .input, .verificationRules]

/-- The position of a field in that order. -/
def AgreementField.rank (field : AgreementField) : Nat := sortedFields.idxOf field

/-- The name of a field as a key of an object. -/
def AgreementField.key (field : AgreementField) : Json.Text :=
  Json.quote (match field with
    | .assignment => "assignment"
    | .assumptions => "assumptions"
    | .audience => "audience"
    | .completionConditions => "completion_conditions"
    | .constraints => "constraints"
    | .deliverable => "deliverable"
    | .dependencies => "dependencies"
    | .dueAt => "due_at"
    | .goal => "goal"
    | .input => "input"
    | .verificationRules => "verification_rules")

/-- A number with leading zeros. -/
def padded (width n : Nat) : List Char :=
  let digits := Nat.toDigits 10 n
  List.replicate (width - digits.length) '0' ++ digits

/-- The layout `time.RFC3339Nano`. -/
def ZonedTime.format (t : ZonedTime) : String :=
  let fraction := (padded 9 t.nanosecond).rdropWhile (· = '0')
  let zone := if t.offset = 0 then ['Z'] else
    (if t.offset < 0 then '-' else '+') :: padded 2 (t.offset.natAbs / 60) ++
      ':' :: padded 2 (t.offset.natAbs % 60)
  String.ofList (padded 4 t.year ++ '-' :: padded 2 t.month ++ '-' :: padded 2 t.day ++
    'T' :: padded 2 t.hour ++ ':' :: padded 2 t.minute ++ ':' :: padded 2 t.second ++
    (if fraction = [] then [] else '.' :: fraction) ++ zone)

/-- Members that are left out when they are empty. -/
def optionalText (key value : String) : List Json.Member :=
  if value = "" then [] else [(Json.quote key, Json.quote value)]

def optionalRaw (key : String) (value : Option Json.RawMessage) : List Json.Member :=
  value.toList.map fun raw => (Json.quote key, raw.json)

def CompletionRule.json (rule : CompletionRule) : Json.Text :=
  Json.object ([(Json.quote "condition", Json.number rule.condition),
      (Json.quote "kind", Json.quote rule.kind)] ++
    optionalRaw "schema" rule.schema ++ optionalText "tool" rule.tool ++
    optionalRaw "arguments_schema" rule.argumentsSchema ++
    optionalRaw "result_schema" rule.resultSchema ++
    (if rule.minReceipts = 0 then []
      else [(Json.quote "min_receipts", Json.number rule.minReceipts)]) ++
    optionalText "completion" rule.completion)

def textsJSON : Option (List String) → Json.Text
  | none => Json.null
  | some values => Json.array (values.map Json.quote)

/-- The members of a brief, in the order of its fields. -/
def briefMembers (brief : Brief) : List Json.Member :=
  (if brief.verificationRules = [] then []
    else [(AgreementField.key .verificationRules,
      Json.array (brief.verificationRules.map CompletionRule.json))]) ++
  [(Json.quote "version", Json.number brief.version),
    (AgreementField.key .goal, Json.quote brief.goal),
    (AgreementField.key .deliverable, Json.quote brief.deliverable),
    (AgreementField.key .audience, Json.quote brief.audience),
    (AgreementField.key .constraints, textsJSON brief.constraints),
    (AgreementField.key .completionConditions, textsJSON brief.completionConditions),
    (AgreementField.key .assumptions, textsJSON brief.assumptions)] ++
  brief.dueAt.toList.map fun t => (AgreementField.key .dueAt, Json.quote t.format)

def inputJSON : Option StructuredInput → Json.Text
  | none => Json.null
  | some input => Json.object
      (optionalRaw "schema" input.schema ++ [(Json.quote "data", input.data.json)])

/-- `execution/brief.go::currentBriefFields`. -/
def currentBriefFields (brief : Brief) : List AgreementField :=
  briefFields.filter (fun field => field ≠ .verificationRules ∨ brief.verificationRules ≠ [])

/-- A map is written in the order of its keys. -/
def sortedMembers (values : List Json.Member) : List Json.Member :=
  sortedFields.filterMap fun field => (values.lookup field.key).map fun value => (field.key, value)

/-- `execution/brief.go::BriefProjection`. -/
def briefProjection (brief : Brief) (fields : List AgreementField) : Option Json.Text :=
  let fields := if fields = [] then currentBriefFields brief else fields
  if briefFields.length < fields.length then none
  else do
    let values ← Json.unmarshal (Json.object (briefMembers brief))
    if fields.Nodup ∧ ∀ field ∈ fields, field ∈ briefFields then
      some (Json.object (sortedMembers (fields.map fun field =>
        (field.key, (values.lookup field.key).getD Json.null))))
    else none

/-- `execution/brief.go::ChangedBriefFields`. -/
def changedBriefFields (before after : Brief) : List AgreementField :=
  sortedFields.filter fun field =>
    field ∈ briefFields ∧ briefProjection before [field] ≠ briefProjection after [field]

/-- `execution/brief.go::DependencyUsesInput`. -/
def dependencyUsesInput (fields : List AgreementField) : Bool := fields.isEmpty || fields.contains .input

/-- `execution/brief.go::DependencyProjection`: the text of the
selected fields, refused when a field is unknown or repeated. -/
def dependencyProjection (brief : Brief) (input : Option StructuredInput)
    (fields : List AgreementField) : Option Json.Text :=
  let fields := if fields = [] then currentBriefFields brief ++ [.input] else fields
  let other := fields.filter (· ≠ .input)
  if 1 < fields.count .input then none
  else do
    let values ← (if other = [] then some [] else (briefProjection brief other).bind Json.unmarshal)
    let values := if .input ∈ fields then (AgreementField.key .input, inputJSON input) :: values
      else values
    some (Json.object (sortedMembers values))

/-- `conversation_dependencies_store.go::mergeRequirementFields`. -/
def mergeRequirementFields (groups : List (List AgreementField)) : List AgreementField :=
  sortedFields.filter (fun field => groups.any (·.contains field))

/-! ### Plan checks -/

def storedPlanAgreementFields : List AgreementField :=
  [.assumptions, .audience, .completionConditions, .constraints, .deliverable, .dueAt, .goal]

def storedPlanField (field : AgreementField) : Bool :=
  (storedPlanAgreementFields ++ [AgreementField.input, AgreementField.dependencies]).contains field

/-- The source refuses a field list that does not strictly ascend. -/
def ascending : List AgreementField → Bool
  | [] => true
  | [_] => true
  | f :: g :: rest => f.rank < g.rank && ascending (g :: rest)

/-- The step an id names; ids of a checked plan are unique. -/
def stepByID (steps : List PlanStep) (id : Id) : Option PlanStep := steps.find? (·.id = id)

/-- The dependency edges of a plan. -/
def planDeps (steps : List PlanStep) (id : Id) : Option (List Id) :=
  (stepByID steps id).map (·.dependsOn)

/-- A dependency that lets work on a step begin. -/
def PlanStepStatus.settled : PlanStepStatus → Bool
  | completed | skipped => true
  | _ => false

/-- A step that needs its dependencies settled. -/
def PlanStepStatus.started : PlanStepStatus → Bool
  | inProgress | completed => true
  | _ => false

/-- The checks on a single step. -/
def validPlanStep (step : PlanStep) : Bool :=
  executionText step.title 512 true && executionText step.input 2048 false &&
  executionText step.expectedOutput 2048 true && step.dependsOn.length ≤ 32 &&
  1 ≤ step.requirementFields.length && step.requirementFields.length ≤ 9 &&
  step.evidence.length ≤ 32 && step.artifacts.length ≤ 32 &&
  executionText step.outcome 2048 false && executionText step.blocker 2048 false &&
  (step.status != .completed || trimSpace step.outcome != "") &&
  (step.status != .blocked || trimSpace step.blocker != "") &&
  step.requirementFields.all storedPlanField && ascending step.requirementFields

def validStoredConversationPlan (plan : Plan) : Bool :=
  1 ≤ plan.version && 1 ≤ plan.agreementRevision && executionText plan.reason 2048 true &&
  (match plan.source with
    | none => false
    | some source => 1 ≤ source.beforeStep) &&
  1 ≤ plan.steps.length && plan.steps.length ≤ 32 &&
  plan.steps.all validPlanStep && decide ((plan.steps.map (·.id)).Nodup) &&
  (plan.steps.filter (fun step => step.status = .inProgress)).length ≤ 1 &&
  Dag.isDag (planDeps plan.steps) (plan.steps.map (·.id)) &&
  plan.steps.all (fun step => !step.status.started ||
    step.dependsOn.all (fun dep => ((stepByID plan.steps dep).map (·.status.settled)).getD false))

/-- `conversation_plans.go::validConversationPlanDAG`; `order` is the order in
which the map of the steps is gone through. -/
def validConversationPlanDAG (order : List Id) (steps : List PlanStep) : Bool :=
  Dag.isDag (planDeps steps) order &&
  steps.all (fun step => !step.status.started ||
    step.dependsOn.all (fun dep => ((stepByID steps dep).map (·.status.settled)).getD false))

/-- The arguments of a `plan_update` call: every step without its executor. -/
structure PlanUpdate where
  clientID : Id
  expectedVersion : Nat
  agreementRevision : Nat
  reason : String
  steps : List PlanStep
  deriving DecidableEq

def planMatchesUpdate (plan : Plan) (update : PlanUpdate) (run : Run) : Bool :=
  (match plan.source with
    | none => false
    | some source => source.conversationID == run.conversationID && source.runID == run.id) &&
  plan.version == update.expectedVersion + 1 && plan.agreementRevision == update.agreementRevision &&
  plan.reason == trimSpace update.reason && plan.steps.length == update.steps.length &&
  (plan.steps.zip update.steps).all (fun (step, input) =>
    let fields := if input.requirementFields = [] then storedPlanAgreementFields
      else input.requirementFields
    step.id == input.id && step.title == trimSpace input.title && step.status == input.status &&
    step.input == trimSpace input.input && step.expectedOutput == trimSpace input.expectedOutput &&
    step.outcome == trimSpace input.outcome && step.blocker == trimSpace input.blocker &&
    (step.executor.runID == run.id || step.status == .completed) &&
    step.dependsOn == input.dependsOn &&
    step.requirementFields == fields.insertionSort (fun f g => f.rank ≤ g.rank) &&
    step.evidence == input.evidence && step.artifacts == input.artifacts)

/-- `plan_update` must repeat every completed step of the current plan
unchanged. -/
def keepsCompleted (old new : List PlanStep) : Bool :=
  old.all (fun step => step.status != .completed ||
    ((new.filter (fun next => next.id = step.id)).all (· == step) &&
      new.any (fun next => next.id = step.id)))

/-! ### Plan rewrites -/

def planFieldsAffected (step : PlanStep) (fields : List AgreementField) : Bool :=
  fields.any step.requirementFields.contains

/-- One pass of the loop that carries an invalidation along dependencies; ids
marked early in a pass count for the steps after them. -/
def affectedPass (steps : List PlanStep) (affected : List Id) : List Id :=
  steps.foldl (fun marked step =>
    if step.id ∈ marked then marked
    else if step.dependsOn.any (· ∈ marked) then step.id :: marked
    else marked) affected

/-- Passes until one marks nothing new; each earlier pass marks a step, so one
pass per step is enough. -/
def affectedLoop (steps : List PlanStep) : Nat → List Id → List Id
  | 0, affected => affected
  | fuel + 1, affected =>
    let next := affectedPass steps affected
    if next.length = affected.length then affected else affectedLoop steps fuel next

/-- The steps a change of `fields` reaches, directly or through dependencies. -/
def affectedSteps (steps : List PlanStep) (fields : List AgreementField) : List Id :=
  affectedLoop steps (steps.length + 1)
    ((steps.filter (planFieldsAffected · fields)).map (·.id))

/-- A step under a changed agreement. -/
def supersedeStep (affected : List Id) (reason : String) (step : PlanStep) : PlanStep :=
  if step.status ≠ .completed ∧ step.id ∈ affected then
    { step with status := .needsReview, blocker := reason }
  else step

/-- The version `supersedeConversationTaskPlan` writes. -/
def supersededPlan (plan : Plan) (revision : Nat) (fields : List AgreementField) (reason : String) :
    Plan :=
  { plan with
    version := plan.version + 1
    agreementRevision := max 1 revision
    reason := reason
    source := none
    steps := plan.steps.map (supersedeStep (affectedSteps plan.steps fields) reason) }

/-- Whether a run that ended in `status` leaves a step unfinished. -/
def unfinished (status : RunStatus) (step : PlanStep) : Bool :=
  match status with
  | .completed => step.status == .pending || step.status == .inProgress
  | _ => step.status == .inProgress

/-- A step after its run ended. -/
def closeStep (status : RunStatus) (reason : String) (step : PlanStep) : PlanStep :=
  if unfinished status step then
    { step with
      blocker := reason
      status := if status = .cancelled ∨ status = .completed then .needsReview else .blocked }
  else step

/-- The reason a closing version records. -/
def closeReason (status : RunStatus) (errorCode : String) : String :=
  match status with
  | .completed => "execution completed with unfinished plan steps"
  | .cancelled => if errorCode = "" then "execution cancelled" else errorCode
  | _ => if errorCode = "" then "execution failed" else errorCode

/-- The version `closeConversationTaskPlan` writes, if any step changes. -/
def closedPlan (plan : Plan) (status : RunStatus) (errorCode : String) : Option Plan :=
  if plan.steps.any (unfinished status) then
    some { plan with
      version := plan.version + 1
      reason := closeReason status errorCode
      source := none
      steps := plan.steps.map (closeStep status (closeReason status errorCode)) }
  else none

/-! ### Plan statements -/

def insertConversationTaskPlan (client : PlanClient) (plan : Plan) : StoreTx Unit :=
  insertRow (·.plans) (fun t s => { s with plans := t }) "_agent_conversation_task_plans"
    { plan := plan, client := client }

/-- `supersedeConversationTaskPlan`.  The
task is the caller's copy; only the plan row is written here. -/
def supersedeConversationTaskPlan (task : Task) (revision : Nat) (fields : List AgreementField)
    (reason : String) : StoreTx Task :=
  match task.plan with
  | none => pure task
  | some plan => do
    let next := supersededPlan plan revision fields reason
    insertConversationTaskPlan .system next
    pure { task with plan := some next }

def conversationPlanBriefFields (before after : Brief) : List AgreementField :=
  changedBriefFields before after

def closeConversationTaskPlan (task : Task) (run : Run) : StoreTx Task :=
  match task.plan with
  | none => pure task
  | some plan =>
    match closedPlan plan run.status run.errorCode with
    | none => pure task
    | some next => do
      insertConversationTaskPlan .system next
      pure { task with plan := some next }

end DomainryAgent
