import Mathlib.Data.List.Infix
import DomainryAgent.Store.Database

/-!
Improvement candidates and the configurations they are published as.

A candidate proposes a new version of a skill, of an agent's prompt or of the
delegation strategy.  It is evaluated against the configuration it was made
for; publishing it puts it in force, and a rollback puts another version of the
same target in force.  A target without a row of its own has what the host is
built with, the parameter `base`.

A rollback takes every version with a passed evaluation, also one that was
never published.

A request under a client id that was used before is answered from the mutation
table; it changes nothing and has no operation here.
-/

namespace DomainryAgent.Improvement

open Lib Tx Table

/-! ### Rows -/

inductive Kind where
  | skill
  | agentPrompt
  | delegationStrategy
  deriving DecidableEq

/-- The owner, kind and key of what is configured. -/
abbrev Target := Id × Kind × String

/-- A version and what is proposed under it. -/
abbrev Content := String × String

/-- `improvement_` and `baseline_` with what is hashed behind them. -/
inductive CandidateID where
  | improvement (clientID : String)
  | baseline (kind : Kind) (targetKey version proposal : String)
  deriving DecidableEq

inductive Status where
  | candidate
  | evaluated
  | published
  | retired
  | rolledBack
  deriving DecidableEq

/-- `ConversationImprovementEvaluation`. -/
structure Evaluation where
  passed : Bool
  regressions : List String
  baselineCompleted : Int
  candidateCompleted : Int
  baselineOmissions : Int
  candidateOmissions : Int
  deriving DecidableEq

/-- `ConversationImprovementCandidateCreate`. -/
structure CreateRequest where
  clientID : String
  kind : Kind
  targetKey : String
  version : String
  proposal : String
  reason : String
  feedbackIDs : List String
  deriving DecidableEq

/-- `ConversationImprovementCandidate`, with the owner and the request of its row. -/
structure Candidate where
  owner : Id
  id : CandidateID
  kind : Kind
  targetKey : String
  version : String
  proposal : String
  baselineVersion : String
  baselineProposal : String
  status : Status
  evaluation : Option Evaluation
  revision : Nat
  request : Option CreateRequest
  deriving DecidableEq

namespace Candidate

def key (c : Candidate) : Id × CandidateID := (c.owner, c.id)
def target (c : Candidate) : Target := (c.owner, c.kind, c.targetKey)
def content (c : Candidate) : Content := (c.version, c.proposal)
def baseline (c : Candidate) : Content := (c.baselineVersion, c.baselineProposal)

/-- The candidate in its next revision. -/
def become (c : Candidate) (status : Status) : Candidate :=
  { c with status, revision := c.revision + 1 }

end Candidate

/-- A row of `_agent_capability_configs`. -/
structure Config where
  target : Target
  version : String
  candidateID : CandidateID
  revision : Nat
  payload : String
  deriving DecidableEq

def Config.content (config : Config) : Content := (config.version, config.payload)

/-- The row that puts a candidate in force. -/
def Candidate.config (c : Candidate) (revision : Nat) : Config :=
  ⟨c.target, c.version, c.id, revision, c.proposal⟩

structure State where
  candidates : Table Candidate.key := .empty
  configs : Table Config.target := .empty

abbrev StateTx := Tx State Error

/-! ### Requests -/

/-- The candidate that holds a version of a target. -/
def State.byVersion (s : State) (target : Target) (version : String) : Option Candidate :=
  s.candidates.rows.find? (fun c => c.target = target ∧ c.version = version)

/-- `currentImprovementConfiguration`. -/
def currentConfiguration (base : Target → Option Content) (s : State) (target : Target) :
    Option Content :=
  ((s.configs.get? target).map Config.content).or (base target)

/-- `conversationImprovementCandidate`. -/
def candidate (owner : Id) (id : CandidateID) : StateTx Candidate := do
  require (← read (·.candidates.get? (owner, id))) (notFound "improvement_candidate_not_found")

/-- `INSERT`, under the primary key and the key of versions. -/
def insertCandidate (c : Candidate) : StateTx Unit := do
  let s ← read id
  demand ((s.byVersion c.target c.version).isNone) (duplicate "_agent_improvement_candidates")
  let candidates ← require (s.candidates.insert? c) (duplicate "_agent_improvement_candidates")
  write ({ · with candidates })

/-- `updateImprovementCandidate`, at the revision read in the transaction. -/
def updateCandidate (c : Candidate) : StateTx Unit :=
  write (fun s => { s with candidates := s.candidates.put c })

/-- `CreateConversationImprovementCandidate`.  The service has read the
configuration before the transaction: `found` is what it saw. -/
def create (owner : Id) (request : CreateRequest) (valid : Except Error Unit)
    (found : Option Content) (matched : Bool) : StateTx Unit := do
  check fun _ => valid
  let baseline ← require found (notFound "improvement_target_not_found")
  demand (baseline.1 ≠ request.version) (conflict "improvement_version_conflict")
  demand matched (conflict "improvement_feedback_mismatch")
  match ← read (·.candidates.get? (owner, .improvement request.clientID)) with
  | some known => demand (known.request = some request) (conflict "idempotency_conflict")
  | none => insertCandidate {
      owner, id := .improvement request.clientID, kind := request.kind
      targetKey := request.targetKey, version := request.version, proposal := request.proposal
      baselineVersion := baseline.1, baselineProposal := baseline.2, status := .candidate
      evaluation := none, revision := 1, request := some request }

/-- The service's rule for an evaluation. -/
def Evaluation.valid (e : Evaluation) : Bool :=
  0 ≤ e.baselineCompleted ∧ 0 ≤ e.candidateCompleted ∧ 0 ≤ e.baselineOmissions ∧
    0 ≤ e.candidateOmissions ∧ e.regressions.length ≤ 128 ∧
    (e.passed → e.baselineCompleted ≤ e.candidateCompleted ∧
      e.candidateOmissions ≤ e.baselineOmissions ∧ e.regressions = [])

/-- `EvaluateConversationImprovementCandidate`. -/
def evaluate (owner : Id) (id : CandidateID) (expectedRevision : Nat) (evaluation : Evaluation) :
    StateTx Unit := do
  demand evaluation.valid (badRequest "improvement_evaluation_invalid")
  let current ← candidate owner id
  demand (current.revision = expectedRevision ∧ current.status = .candidate)
    (conflict "improvement_revision_conflict")
  updateCandidate { current.become .evaluated with evaluation := some evaluation }

/-- `ensureImprovementBaselineSnapshot`. -/
def ensureBaselineSnapshot (current : Candidate) : StateTx Unit := do
  demand (current.baselineVersion ≠ "" ∧ current.baselineProposal ≠ "" ∧
    current.evaluation.any (·.passed)) (conflict "improvement_baseline_snapshot_invalid")
  match ← read (·.byVersion current.target current.baselineVersion) with
  | some existing =>
    demand (existing.id ≠ current.id ∧ existing.proposal = current.baselineProposal ∧
      existing.evaluation.any (·.passed)) (conflict "improvement_baseline_changed")
  | none => insertCandidate { current with
      id := .baseline current.kind current.targetKey current.baselineVersion
        current.baselineProposal
      version := current.baselineVersion, proposal := current.baselineProposal
      baselineVersion := "", baselineProposal := "", status := .retired, revision := 1
      request := none }

/-- The part of a publication that takes the candidate of the row back. -/
def retirePrevious (current : Candidate) : Option Config → StateTx Unit
  | some config => onlyIf (config.candidateID ≠ current.id) do
    let previous ← candidate current.owner config.candidateID
    onlyIf (previous.status = .published) (updateCandidate (previous.become .retired))
  | none => pure ()

/-- The candidate may be put in force. -/
def Candidate.accepted (c : Candidate) : Bool :=
  c.status = .evaluated ∧ c.evaluation.any (fun e => e.passed ∧ e.regressions = [])

/-- `PublishConversationImprovementCandidate`.  The service compares with
the configuration in force, the store again with its row. -/
def publish (base : Target → Option Content) (owner : Id) (id : CandidateID)
    (expectedRevision : Nat) (valid : Except Error Unit) : StateTx Unit := do
  let current ← candidate owner id
  let found ← require (← read (currentConfiguration base · current.target))
    (notFound "improvement_target_not_found")
  demand (found = current.baseline) (conflict "improvement_baseline_changed")
  check fun _ => valid
  demand (current.revision = expectedRevision ∧ current.accepted)
    (conflict "improvement_evaluation_required")
  let row ← read (·.configs.get? current.target)
  demand (row.all (·.content = current.baseline)) (conflict "improvement_baseline_changed")
  ensureBaselineSnapshot current
  retirePrevious current row
  write fun s => { s with
    configs := s.configs.upsert (current.config (row.elim 0 Config.revision + 1)) }
  updateCandidate (current.become .published)

/-- `RollbackConversationImprovement`. -/
def rollback (owner : Id) (id : CandidateID) (expectedRevision : Nat) (targetVersion : String) :
    StateTx Unit := do
  let current ← candidate owner id
  demand (current.revision = expectedRevision ∧ current.status = .published ∧
    current.version ≠ targetVersion) (conflict "improvement_revision_conflict")
  let target ← require (← read (·.byVersion current.target targetVersion))
    (notFound "improvement_version_not_found")
  demand (target.evaluation.any (·.passed)) (conflict "improvement_evaluation_required")
  let config ← require (← read (·.configs.get? current.target))
    (conflict "improvement_revision_conflict")
  demand (config.candidateID = current.id) (conflict "improvement_revision_conflict")
  write fun s => { s with configs := s.configs.put (target.config (config.revision + 1)) }
  updateCandidate (current.become .rolledBack)
  updateCandidate (target.become .published)

inductive Op where
  | create (owner : Id) (request : CreateRequest) (valid : Except Error Unit)
      (found : Option Content) (matched : Bool)
  | evaluate (owner : Id) (id : CandidateID) (expectedRevision : Nat) (evaluation : Evaluation)
  | publish (owner : Id) (id : CandidateID) (expectedRevision : Nat) (valid : Except Error Unit)
  | rollback (owner : Id) (id : CandidateID) (expectedRevision : Nat) (targetVersion : String)

def exec (base : Target → Option Content) : Op → StateTx Unit
  | .create owner request valid found matched => create owner request valid found matched
  | .evaluate owner id expectedRevision evaluation => evaluate owner id expectedRevision evaluation
  | .publish owner id expectedRevision valid => publish base owner id expectedRevision valid
  | .rollback owner id expectedRevision version => rollback owner id expectedRevision version

/-- The state after some operations, the latest first. -/
def after (base : Target → Option Content) : List Op → State
  | [] => {}
  | op :: earlier => (exec base op).commit (after base earlier)

variable {base : Target → Option Content} {s t : State} {c d : Candidate} {config : Config}
  {target : Target} {ops : List Op} {op : Op} {owner : Id} {id : CandidateID} {revision : Nat}
  {valid : Except Error Unit}

/-! ### Steps -/

/-- Each row carries its candidate, which is published, and each published
candidate has its row. -/
structure Linked (s : State) : Prop where
  holds : ∀ {target config}, s.configs.get? target = some config →
    ∃ c, s.candidates.get? (target.1, config.candidateID) = some c ∧ c.status = .published ∧
      c.target = target ∧ c.content = config.content
  named : ∀ {k c}, s.candidates.get? k = some c → c.status = .published →
    ∃ config, s.configs.get? c.target = some config ∧ config.candidateID = c.id
  unevaluated : ∀ {k c}, s.candidates.get? k = some c → c.status = .candidate → c.evaluation = none

/-- A step that leaves what is published alone. -/
structure Files (s t : State) : Prop where
  configs : t.configs = s.configs
  rows : ∀ {k c}, t.candidates.get? k = some c → s.candidates.get? k = some c ∨
    c.status = .candidate ∧ c.evaluation = none ∨ c.status = .evaluated
  kept : ∀ {k c}, s.candidates.get? k = some c → c.status = .published →
    t.candidates.get? k = some c

/-- `d` made room for `c`. -/
def MadeRoom (base : Target → Option Content) (s : State) (c d : Candidate) : Prop :=
  d.target = c.target ∧ (d.status = .retired ∨ d.status = .rolledBack) ∧
    currentConfiguration base s c.target = some d.content

/-- A step that puts `c` in force in the place of what was. -/
structure Installs (base : Target → Option Content) (s t : State) (c : Candidate) : Prop where
  now : t.candidates.get? c.key = some (c.become .published)
  row : ∃ config, t.configs.get? c.target = some config ∧ config.candidateID = c.id ∧
    config.content = c.content
  configs : ∀ {target}, target ≠ c.target → t.configs.get? target = s.configs.get? target
  rows : ∀ {k d}, t.candidates.get? k = some d → k = c.key ∨ MadeRoom base s c d ∨
    s.candidates.get? k = some d ∧ (d.target = c.target → d.status ≠ .published)
  kept : ∀ {k d}, s.candidates.get? k = some d → d.target ≠ c.target →
    t.candidates.get? k = some d

theorem Files.refl : Files s s := ⟨rfl, .inl, fun found _ => found⟩

theorem Linked.files (linked : Linked s) (step : Files s t) : Linked t where
  holds row := by
    obtain ⟨c, found, published, rest⟩ := linked.holds (step.configs ▸ row)
    exact ⟨c, step.kept found published, published, rest⟩
  named found published := by
    obtain old | ⟨status, _⟩ | status := step.rows found
    · exact step.configs ▸ linked.named old published
    all_goals cases status.symm.trans published
  unevaluated found status := by
    obtain old | ⟨_, none⟩ | other := step.rows found
    · exact linked.unevaluated old status
    · exact none
    · cases other.symm.trans status

theorem MadeRoom.ne {status : Status} (room : MadeRoom base s c d)
    (other : status = .published ∨ status = .candidate) : d.status ≠ status := by
  obtain ⟨_, past | past, _⟩ := room <;> obtain rfl | rfl := other <;> simp [past]

theorem Linked.installs (linked : Linked s) (step : Installs base s t c) : Linked t where
  holds {target config} row := by
    by_cases here : target = c.target
    · subst here
      obtain ⟨_, row', id, same⟩ := step.row
      cases row'.symm.trans row
      exact ⟨c.become .published, id ▸ step.now, rfl, rfl, same.symm⟩
    · obtain ⟨d, found, published, away, same⟩ := linked.holds (step.configs here ▸ row)
      exact ⟨d, step.kept found (away ▸ here), published, away, same⟩
  named found published := by
    obtain rfl | room | ⟨old, idle⟩ := step.rows found
    · cases step.now.symm.trans found
      obtain ⟨config, row, id, _⟩ := step.row
      exact ⟨config, row, id⟩
    · exact absurd published (room.ne (.inl rfl))
    · rw [step.configs (idle · published)]
      exact linked.named old published
  unevaluated found status := by
    obtain rfl | room | ⟨old, _⟩ := step.rows found
    · cases step.now.symm.trans found
      cases status
    · exact absurd status (room.ne (.inr rfl))
    · exact linked.unevaluated old status

/-! ### What requests do -/

theorem candidate_ensures {Q : Candidate → State → Prop} :
    Ensures (candidate owner id) s Q ↔ ∀ c, s.candidates.get? (owner, id) = some c → Q c s := by
  simp [candidate]

theorem insertCandidate_ensures {Q : Unit → State → Prop} :
    Ensures (insertCandidate c) s Q ↔ s.byVersion c.target c.version = none →
      ∀ candidates, s.candidates.insert? c = some candidates → Q () { s with candidates } := by
  simp [insertCandidate]

theorem create_files {request : CreateRequest} {found : Option Content} {matched : Bool} :
    Ensures (create owner request valid found matched) s (fun _ t => Files s t) := by
  simp only [create, wp]
  intro _ _ baseline _ _ _
  split
  · rw [ensures_demand]
    exact fun _ => .refl
  · rw [insertCandidate_ensures]
    intro _ candidates inserted
    refine ⟨rfl, fun row => ?_, fun row _ => get?_insert?_of_some inserted row⟩
    obtain ⟨_, rfl⟩ | ⟨_, old⟩ := get?_insert?_some inserted row
    · exact .inr (.inl ⟨rfl, rfl⟩)
    · exact .inl old

theorem evaluate_files {evaluation : Evaluation} :
    Ensures (evaluate owner id revision evaluation) s (fun _ t => Files s t) := by
  simp only [evaluate, updateCandidate, wp, candidate_ensures]
  rintro _ c found ⟨_, pending⟩
  refine ⟨rfl, fun row => ?_, fun {k d} row published => (get?_put_of_ne ?_).trans row⟩
  · obtain ⟨_, rfl, _⟩ | ⟨_, old⟩ := get?_put_some row
    · exact .inr (.inr rfl)
    · exact .inl old
  · rintro rfl
    cases (get?_key found).symm.trans row
    cases pending.symm.trans published

section Installs

variable {u : Table Candidate.key} {configs : Table Config.target}

/-- The row of `c.target` holds `c`, the others are as they were. -/
def Points (s : State) (c : Candidate) (configs : Table Config.target) : Prop :=
  (∃ config, configs.get? c.target = some config ∧ config.candidateID = c.id ∧
    config.content = c.content) ∧
  ∀ {target}, target ≠ c.target → configs.get? target = s.configs.get? target

theorem Points.installs (points : Points s c configs) (found : s.candidates.get? c.key = some c)
    (there : u.get? c.key = some d)
    (rows : ∀ {k d}, u.get? k = some d → MadeRoom base s c d ∨
      s.candidates.get? k = some d ∧ (d.target = c.target → d.status ≠ .published))
    (kept : ∀ {k d}, s.candidates.get? k = some d → d.target ≠ c.target → u.get? k = some d) :
    Installs base s ⟨u.put (c.become .published), configs⟩ c where
  now := get?_put_self there
  row := points.1
  configs := points.2
  rows here := by
    obtain ⟨rfl, _⟩ | ⟨_, old⟩ := get?_put_some here
    · exact .inl rfl
    · exact .inr (rows old)
  kept row away := by
    refine (get?_put_of_ne ?_).trans (kept row away)
    rintro rfl
    cases found.symm.trans row
    exact away rfl

/-- What was in force makes room. -/
theorem Linked.replaced (linked : Linked s) (points : Points s c configs)
    (found : s.candidates.get? c.key = some c) (row : s.configs.get? c.target = some config)
    (there : s.candidates.get? (c.owner, config.candidateID) = some d)
    (other : config.candidateID ≠ c.id) {status : Status}
    (past : status = .retired ∨ status = .rolledBack) :
    Installs base s ⟨(s.candidates.put (d.become status)).put (c.become .published), configs⟩ c := by
  obtain ⟨d', stored, _, here, same⟩ := linked.holds row
  cases stored.symm.trans there
  have key : d.key = (c.owner, config.candidateID) := key_of_get? there
  have apart : c.key ≠ (d.become status).key := fun same =>
    other (congrArg Prod.snd (same.trans key)).symm
  refine points.installs found ((get?_put_of_ne apart).trans found) (fun row' => ?_)
    fun row' away => (get?_put_of_ne ?_).trans row'
  · obtain ⟨_, rfl, _⟩ | ⟨away, old⟩ := get?_put_some row'
    · refine .inl ⟨here, past, ?_⟩
      simp [currentConfiguration, row, ← same, Candidate.content, Candidate.become]
    · refine .inr ⟨old, fun target published => away ?_⟩
      obtain ⟨_, row'', id⟩ := linked.named old published
      cases row.symm.trans (target ▸ row'')
      change _ = d.key
      rw [key, id, ← key_of_get? old]
      exact congrArg (·, _) (congrArg Prod.fst target)
  · rintro rfl
    cases (get?_key there).symm.trans row'
    exact away here

end Installs

theorem publish_installs (linked : Linked s) :
    Ensures (publish base owner id revision valid) s (fun _ t =>
      ∃ c, s.candidates.get? (owner, id) = some c ∧ c.accepted ∧
        currentConfiguration base s c.target = some c.baseline ∧ Installs base s t c) := by
  simp only [publish, ensureBaselineSnapshot, updateCandidate, wp, candidate_ensures]
  rintro c found _ current rfl _ _ ⟨_, accepted⟩ _ _
  have here := get?_key found
  have points (n) : Points s c (s.configs.upsert (c.config n)) :=
    ⟨⟨_, (get?_upsert ..).trans (if_pos rfl), rfl, rfl⟩,
      fun away => (get?_upsert ..).trans (if_neg away)⟩
  cases row : s.configs.get? c.target with
  | some config =>
    obtain ⟨d, stored, published, there, same⟩ := linked.holds row
    have other : config.candidateID ≠ c.id := fun same => by
      cases here.symm.trans (same ▸ stored)
      simp [Candidate.accepted, published] at accepted
    split
    · simp only [retirePrevious, wp, ensures_onlyIf, candidate_ensures, updateCandidate]
      refine fun _ => ⟨fun _ d' found' => ?_, fun same => absurd other same⟩
      cases stored.symm.trans found'
      exact ⟨fun _ => ⟨c, found, accepted, current,
        linked.replaced (points _) here row stored other (.inl rfl)⟩, fun idle => absurd published idle⟩
    · next none =>
      -- the version in force has its candidate, so nothing is archived
      have absent := List.find?_eq_none.mp none d (mem_of_get? stored)
      have force : config.content = c.baseline := by simpa [currentConfiguration, row] using current
      have version : d.version = c.baselineVersion := congrArg Prod.fst (same.trans force)
      simp [there, version] at absent
  | none =>
    have idle {k e} (old : s.candidates.get? k = some e) (target : e.target = c.target) :
        e.status ≠ .published := fun published => by
      obtain ⟨_, row', _⟩ := linked.named old published
      cases row.symm.trans (target ▸ row')
    split
    · simp only [retirePrevious, wp]
      exact fun _ => ⟨c, found, accepted, current, (points _).installs here here
        (fun old => .inr ⟨old, idle old⟩) fun old _ => old⟩
    · simp only [retirePrevious, insertCandidate_ensures, wp]
      intro _ u inserted
      refine ⟨c, found, accepted, current, (points _).installs here
        (get?_insert?_of_some inserted here) (fun there => ?_)
        fun old _ => get?_insert?_of_some inserted old⟩
      obtain ⟨_, rfl⟩ | ⟨_, old⟩ := get?_insert?_some inserted there
      · exact .inl ⟨rfl, .inl rfl, current⟩
      · exact .inr ⟨old, idle old⟩

theorem rollback_installs (linked : Linked s) {version : String} :
    Ensures (rollback owner id revision version) s (fun _ t =>
      ∃ c d, s.candidates.get? (owner, id) = some c ∧ s.byVersion c.target version = some d ∧
        s.candidates.get? d.key = some d ∧ d.evaluation ≠ none ∧ d.status ≠ .published ∧
        Installs base s t d) := by
  simp only [rollback, updateCandidate, wp, candidate_ensures]
  rintro c found ⟨_, published, apart⟩ d found' passed config row named
  obtain ⟨target, version'⟩ : d.target = c.target ∧ d.version = version := by
    simpa using List.find?_some found'
  have there : s.candidates.get? d.key = some d := get?_of_mem (List.mem_of_find?_eq_some found')
  have owned : d.owner = c.owner := congrArg Prod.fst target
  rw [← target] at row
  have other : config.candidateID ≠ d.id := fun same => by
    rw [Candidate.key, owned, ← same, named] at there
    cases (get?_key found).symm.trans there
    exact apart version'
  refine ⟨c, d, found, found', there, fun none => by simp [none] at passed, fun twice => ?_,
    linked.replaced ⟨⟨_, get?_put_self row, rfl, rfl⟩, (get?_put_of_ne ·)⟩ there row
      (owned ▸ named ▸ get?_key found) other (.inr rfl)⟩
  obtain ⟨_, row', id⟩ := linked.named there twice
  cases row.symm.trans row'
  exact other id

/-! ### Runs -/

/-- The operation gave the target its configuration rightly: it published a
candidate that had passed against what was in force, or went back to what had
been in force. -/
def Earned (base : Target → Option Content) (op : Op) (earlier : List Op) (target : Target)
    (config : Config) : Prop :=
  match op with
  | .publish .. => ∃ c, (after base earlier).candidates.get? (target.1, config.candidateID) = some c ∧
      c.accepted ∧ currentConfiguration base (after base earlier) target = some c.baseline ∧
      c.content = config.content
  | .rollback .. => ∃ first, first <:+ earlier ∧
      currentConfiguration base (after base first) target = some config.content
  | _ => False

/-- An operation that earned the row wrote it. -/
def Provenance (base : Target → Option Content) (ops : List Op) (target : Target)
    (config : Config) : Prop :=
  ∃ op earlier, op :: earlier <:+ ops ∧
    (after base earlier).configs.get? target ≠ some config ∧
    (after base (op :: earlier)).configs.get? target = some config ∧
    Earned base op earlier target config

/-- No rollback names a version that is only evaluated. -/
def rollsBack (base : Target → Option Content) : List Op → Bool
  | [] => true
  | op :: earlier => rollsBack base earlier && match op with
    | .rollback owner id _ version => ((after base earlier).candidates.get? (owner, id)).all fun c =>
        ((after base earlier).byVersion c.target version).all (·.status ≠ .evaluated)
    | _ => true

/-- What holds along such a run. -/
structure Kept (base : Target → Option Content) (ops : List Op) : Prop where
  linked : Linked (after base ops)
  past : ∀ {k c}, (after base ops).candidates.get? k = some c →
    c.status = .retired ∨ c.status = .rolledBack →
    ∃ first, first <:+ ops ∧ currentConfiguration base (after base first) c.target = some c.content
  origin : ∀ {target config}, (after base ops).configs.get? target = some config →
    Provenance base ops target config

theorem Provenance.cons (h : Provenance base ops target config) :
    Provenance base (op :: ops) target config := by
  obtain ⟨op', earlier, suffix, rest⟩ := h
  exact ⟨op', earlier, suffix.trans (List.suffix_cons ..), rest⟩

theorem Kept.files (kept : Kept base ops) (step : Files (after base ops) (after base (op :: ops))) :
    Kept base (op :: ops) where
  linked := kept.linked.files step
  past found past := by
    obtain old | ⟨status, _⟩ | status := step.rows found
    · obtain ⟨first, suffix, force⟩ := kept.past old past
      exact ⟨first, suffix.trans (List.suffix_cons ..), force⟩
    all_goals simp [status] at past
  origin row := (kept.origin (step.configs ▸ row)).cons

theorem Kept.installs (kept : Kept base ops)
    (step : Installs base (after base ops) (after base (op :: ops)) c)
    (found : (after base ops).candidates.get? c.key = some c) (idle : c.status ≠ .published)
    (earned : ∀ config, config.candidateID = c.id → config.content = c.content →
      Earned base op ops c.target config) : Kept base (op :: ops) where
  linked := kept.linked.installs step
  past found past := by
    obtain rfl | ⟨target, _, force⟩ | ⟨old, _⟩ := step.rows found
    · cases step.now.symm.trans found
      simp [Candidate.become] at past
    · exact ⟨ops, List.suffix_cons .., target ▸ force⟩
    · obtain ⟨first, suffix, force⟩ := kept.past old past
      exact ⟨first, suffix.trans (List.suffix_cons ..), force⟩
  origin {target config} row := by
    by_cases here : target = c.target
    · subst here
      obtain ⟨_, row', id, content⟩ := step.row
      cases row'.symm.trans row
      refine ⟨op, ops, List.suffix_refl _, fun old => ?_, row, earned config id content⟩
      obtain ⟨d, found', published, _⟩ := kept.linked.holds old
      rw [id] at found'
      cases found.symm.trans found'
      exact idle published
    · exact (kept.origin (step.configs here ▸ row)).cons

theorem kept_after (checked : rollsBack base ops) : Kept base ops := by
  induction ops with
  | nil => exact ⟨⟨by simp [after], by simp [after], by simp [after]⟩, by simp [after], by simp [after]⟩
  | cons op earlier ih =>
    simp only [rollsBack, Bool.and_eq_true] at checked
    have kept := ih checked.1
    cases op with
    | create => exact kept.files (create_files.commit .refl)
    | evaluate => exact kept.files (evaluate_files.commit .refl)
    | publish =>
      obtain same | ⟨c, found, accepted, force, step⟩ :=
        Ensures.commit (P := fun t => Files _ t ∨ _)
          ((publish_installs kept.linked).mono fun _ _ => .inr) (.inl .refl)
      · exact kept.files same
      · have idle : c.status ≠ .published := fun published => by
          simp [Candidate.accepted, published] at accepted
        refine kept.installs step (get?_key found) idle fun config id content =>
          ⟨c, ?_, accepted, force, content.symm⟩
        rw [id]
        exact get?_key found
    | rollback =>
      obtain same | ⟨c, d, found, version, there, evaluated, idle, step⟩ :=
        Ensures.commit (P := fun t => Files _ t ∨ _)
          ((rollback_installs kept.linked).mono fun _ _ => .inr) (.inl .refl)
      · exact kept.files same
      · refine kept.installs step there idle fun config _ content => ?_
        rw [Earned, content]
        refine kept.past there ?_
        have unevaluated := kept.linked.unevaluated there
        have prior : d.status ≠ .evaluated := by simpa [found, version] using checked.2
        cases status : d.status <;> simp_all

/-- In every run whose rollbacks name no version that is only evaluated, each
target has at most one published candidate, and a row just when it has one; the
row carries the candidate, which passed against what was in force before it or
had been in force itself. -/
theorem configurations_earned (base : Target → Option Content) (ops : List Op)
    (checked : rollsBack base ops) :
    (∀ c ∈ (after base ops).candidates.rows, ∀ d ∈ (after base ops).candidates.rows,
      c.status = .published → d.status = .published → c.target = d.target → c = d) ∧
    (∀ target, (∃ config, (after base ops).configs.get? target = some config) ↔
      ∃ c ∈ (after base ops).candidates.rows, c.status = .published ∧ c.target = target) ∧
    ∀ target config, (after base ops).configs.get? target = some config →
      (∀ c ∈ (after base ops).candidates.rows, c.status = .published → c.target = target →
        config.candidateID = c.id ∧ config.version = c.version ∧ config.payload = c.proposal) ∧
      Provenance base ops target config := by
  have kept := kept_after checked
  have carried {c config} (member : c ∈ (after base ops).candidates.rows)
      (published : c.status = .published)
      (row : (after base ops).configs.get? c.target = some config) :
      (after base ops).candidates.get? (c.target.1, config.candidateID) = some c ∧
        config.candidateID = c.id ∧ c.content = config.content := by
    obtain ⟨_, row', id⟩ := kept.linked.named (get?_of_mem member) published
    cases row.symm.trans row'
    obtain ⟨d, found, _, _, content⟩ := kept.linked.holds row
    rw [id] at found ⊢
    cases (get?_of_mem member).symm.trans found
    exact ⟨found, rfl, content⟩
  refine ⟨?_, fun target => ⟨?_, ?_⟩, fun target config row => ⟨?_, kept.origin row⟩⟩
  · intro c member d member' published published' same
    obtain ⟨config, row, _⟩ := kept.linked.named (get?_of_mem member) published
    have left := (carried member published row).1
    rw [same] at row left
    exact Option.some.inj (left.symm.trans (carried member' published' row).1)
  · rintro ⟨config, row⟩
    obtain ⟨c, found, published, here, _⟩ := kept.linked.holds row
    exact ⟨c, mem_of_get? found, published, here⟩
  · rintro ⟨c, member, published, rfl⟩
    obtain ⟨config, row, _⟩ := kept.linked.named (get?_of_mem member) published
    exact ⟨config, row⟩
  · rintro c member published rfl
    obtain ⟨_, id, content⟩ := carried member published row
    exact ⟨id, (congrArg Prod.fst content).symm, (congrArg Prod.snd content).symm⟩

/-! ### A version that was never in force -/

/-- The text of a strategy that asks for `n` reviewed deliveries. -/
def reviews (n : String) : String :=
  "\x7b\"minimum_reviewed_deliveries\":" ++ n ++
    ",\"prefer_cost\":true,\"prefer_coordination\":true,\"prefer_duration\":true\x7d"

/-- The strategy the host is built with. -/
def builtin (target : Target) : Option Content :=
  if target.2 = (.delegationStrategy, "default") then some ("builtin-1", reviews "3") else none

def strategy (clientID version : String) : CreateRequest :=
  ⟨clientID, .delegationStrategy, "default", version, reviews version, "better", ["feedback"]⟩

def better : Evaluation := ⟨true, [], 1, 2, 0, 0⟩

/-- A new strategy is proposed and evaluated. -/
def proposed (clientID version : String) : List Op :=
  [.evaluate 1 (.improvement clientID) 1 better,
    .create 1 (strategy clientID version) (.ok ()) (builtin (1, .delegationStrategy, "default")) true]

theorem configurations_earned_restored :
    let ops := [.rollback 1 (.improvement "a") 3 "builtin-1",
      .publish 1 (.improvement "a") 2 (.ok ())] ++ proposed "a" "4"
    rollsBack builtin ops ∧
      ((after builtin ops).configs.get? (1, .delegationStrategy, "default")).map Config.version =
        some "builtin-1" ∧ ∀ config,
      (after builtin ops).configs.get? (1, .delegationStrategy, "default") = some config →
        Provenance builtin ops (1, .delegationStrategy, "default") config :=
  ⟨by decide, by decide, fun _ row => ((configurations_earned builtin _ (by decide)).2.2 _ _ row).2⟩

/-- Two strategies pass against the built-in one, the first is published, and a
rollback puts the second in force, which never was and has not been compared
with the first. -/
theorem rollback_to_unpublished :
    let ops := [.rollback 1 (.improvement "a") 3 "5",
      .publish 1 (.improvement "a") 2 (.ok ())] ++ proposed "b" "5" ++ proposed "a" "4"
    ∃ config, (after builtin ops).configs.get? (1, .delegationStrategy, "default") = some config ∧
      ¬ Provenance builtin ops (1, .delegationStrategy, "default") config := by
  intro ops
  refine ⟨⟨(1, .delegationStrategy, "default"), "5", .improvement "b", 2, reviews "5"⟩,
    by decide, ?_⟩
  rintro ⟨op, earlier, suffix, _, written, earned⟩
  have last : ∀ l ∈ ops.tails, (after builtin l).configs.get? (1, .delegationStrategy, "default") =
      some ⟨(1, .delegationStrategy, "default"), "5", .improvement "b", 2, reviews "5"⟩ →
      l.length = ops.length := by decide
  obtain ⟨rfl, rfl⟩ := List.cons.inj
    (suffix.eq_of_length (last _ ((List.mem_tails _ _).mpr suffix) written))
  obtain ⟨first, suffix, force⟩ := earned
  have never : ∀ l ∈ ops.tail.tails, currentConfiguration builtin (after builtin l)
      (1, .delegationStrategy, "default") ≠ some ("5", reviews "5") := by decide
  exact never first ((List.mem_tails _ _).mpr suffix) force

end DomainryAgent.Improvement
