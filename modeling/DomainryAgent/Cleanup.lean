import Mathlib.Data.List.Sort
import DomainryAgent.Store.Records

/-!
Batches of the retention policy.  Where no file is named, a definition models the
function of `lifecycle_executor.go` of its name.

Every batch lists the candidates from the beginning.  A candidate that is held
stays in the listing, and so does every candidate of a dry run and of a job that
only archives; enough of them in front hide the rest of the listing.
-/

namespace DomainryAgent.Cleanup

/-! ### Candidates -/

inductive Kind where
  | conversation | session | proposal
  deriving DecidableEq

/-- A conversation or an agent state: what the statements compare of it, whether
it is `closed` (archived; of a proposal, not open), and whether a run of it is
`active`. -/
structure Candidate where
  kind : Kind
  workspaceID : Id
  owner : Id
  id : String
  revision : Nat
  updatedAt : Time
  closed : Bool
  active : Bool
  created : kind = .conversation → 1 ≤ revision

structure LifecycleQuery where
  policyKey : String
  workspaceID : Id
  now : Time
  retention : Nat
  archivedRetention : Nat

def LifecycleQuery.eligible (q : LifecycleQuery) (c : Candidate) : Bool :=
  let retention := if c.kind = .conversation ∧ 0 < q.archivedRetention then q.archivedRetention
    else q.retention
  q.policyKey = "agent.dialog.v1" && c.workspaceID = q.workspaceID && c.closed &&
    c.updatedAt + retention ≤ q.now && !(c.kind = .conversation && c.active)

/-- `lifecycle_store.go::ListLifecycleCandidates`: the conversations, the sessions
and the proposals, each oldest first; all of them if the limit is zero. -/
def listLifecycleCandidates (q : LifecycleQuery) (limit : Nat) (rows : List Candidate) :
    List Candidate :=
  let all := (rows.filter q.eligible).insertionSort fun x y => x.kind.ctorIdx < y.kind.ctorIdx ∨
    x.kind = y.kind ∧ (x.updatedAt < y.updatedAt ∨ x.updatedAt = y.updatedAt ∧ x.id ≤ y.id)
  if limit = 0 then all else all.take limit

/-- The row that the candidate was, unless it has changed since. -/
def Candidate.names (c row : Candidate) : Bool :=
  row.kind = c.kind && row.workspaceID = c.workspaceID && row.id = c.id &&
    if c.kind = .conversation then row.owner = c.owner && row.revision = c.revision
    else row.updatedAt = c.updatedAt

/-- `lifecycle_store.go::DeleteLifecycleCandidate`. -/
def deleteLifecycleCandidate (c : Candidate) (rows : List Candidate) : Bool × List Candidate :=
  if c.kind = .conversation ∧ c.revision < 1 then (false, rows)
  else (rows.countP c.names = 1, rows.filter (!c.names ·))

/-! ### Batches -/

structure LegalHold where
  startsAt : Time
  endsAt : Option Time
  owner : String
  resourceType : String
  resourceID : String

def Candidate.resourceType (c : Candidate) : String :=
  if c.kind = .conversation then "agent.conversation" else "agent.state"

def Candidate.resourceID (c : Candidate) : String :=
  match c.kind with
  | .conversation => c.id
  | .session => "session:" ++ c.id
  | .proposal => "proposal:" ++ c.id

def agentLifecycleHeld (holds : List LegalHold) (now : Time) (c : Candidate) : Bool :=
  holds.any fun hold => !(now < hold.startsAt || hold.endsAt.any (· ≤ now)) &&
    (hold.owner = "" || hold.owner = "agent") &&
    (hold.resourceType = "" || hold.resourceType = c.resourceType) &&
    (hold.resourceID = "" || hold.resourceID = c.resourceID)

/-- A job with its holds; `archiveOnly` says that its operation is to archive. -/
structure CleanupJob where
  query : LifecycleQuery
  dryRun : Bool
  archiveOnly : Bool
  holds : List LegalHold
  batchSize : Int

def CleanupJob.held (job : CleanupJob) : Candidate → Bool :=
  agentLifecycleHeld job.holds job.query.now

def CleanupJob.size (job : CleanupJob) : Nat := if job.batchSize ≤ 0 then 100 else job.batchSize.toNat

structure CleanupBatchResult where
  done : Bool
  scanned : Nat := 0
  skipped : Nat := 0
  archived : Nat := 0
  purged : Nat := 0
  failed : Nat := 0
  checkpoint : String := ""
  oldestEligible : Option Time := none

/-- Whether the archive took the payload of a candidate. -/
abbrev ArchiveWriter := Candidate → Except Error Bool

/-- The loop over the listed candidates; the archive can end it with an error. -/
def processCandidates (job : CleanupJob) (archives : ArchiveWriter) : List Candidate →
    CleanupBatchResult → List Candidate → (CleanupBatchResult × Option Error) × List Candidate
  | [], result, rows => ((result, none), rows)
  | c :: rest, result, rows =>
    let result := { result with
      scanned := result.scanned + 1, checkpoint := c.resourceType ++ ":" ++ c.resourceID
      oldestEligible := some (result.oldestEligible.elim c.updatedAt (min c.updatedAt)) }
    if job.held c then
      processCandidates job archives rest { result with skipped := result.skipped + 1 } rows
    else if job.dryRun then processCandidates job archives rest result rows
    else match archives c with
      | .error e => (({ result with failed := result.failed + 1 }, some e), rows)
      | .ok archived =>
        let result := { result with archived := result.archived + archived.toNat }
        if job.archiveOnly then processCandidates job archives rest result rows
        else
          let (deleted, left) := deleteLifecycleCandidate c rows
          processCandidates job archives rest
            { result with purged := result.purged + deleted.toNat } left

def processBatch (job : CleanupJob) (archives : ArchiveWriter) (rows : List Candidate) :
    (CleanupBatchResult × Option Error) × List Candidate :=
  let candidates := listLifecycleCandidates job.query job.size rows
  processCandidates job archives candidates { done := candidates.length < job.size } rows

/-- The rows after `n` batches. -/
def CleanupJob.after (job : CleanupJob) (archives : Nat → ArchiveWriter) (rows : List Candidate) :
    Nat → List Candidate
  | 0 => rows
  | n + 1 => (processBatch job (archives n) (job.after archives rows n)).2

/-- The batch after `n` others. -/
def CleanupJob.batch (job : CleanupJob) (archives : Nat → ArchiveWriter) (rows : List Candidate)
    (n : Nat) : CleanupBatchResult × Option Error :=
  (processBatch job (archives n) (job.after archives rows n)).1

def CleanupJob.candidates (job : CleanupJob) (rows : List Candidate) : List Candidate :=
  listLifecycleCandidates job.query 0 rows

/-- The job deletes what it comes to. -/
def CleanupJob.purges (job : CleanupJob) : Bool := !job.dryRun && !job.archiveOnly

/-- Every batch that does not fail and is not the last leaves fewer candidates;
and repeating batches comes to one that fails, or to the last one.  Of the
candidates that are left then those not held were all in it, and none is left
if the job deletes. -/
structure CleanupJob.Progresses (job : CleanupJob) (rows : List Candidate) : Prop where
  fewer : ∀ archives n, (job.batch archives rows n).2 = none →
    (job.batch archives rows n).1.done = false →
    (job.candidates (job.after archives rows (n + 1))).length <
      (job.candidates (job.after archives rows n)).length
  ends : ∀ archives, ∃ n, (job.batch archives rows n).2 ≠ none ∨
    (job.batch archives rows n).1.done = true ∧
      ∀ c ∈ job.candidates (job.after archives rows (n + 1)), job.held c = true ∨
        job.purges = false ∧ c ∈ listLifecycleCandidates job.query job.size rows

/-! ### Listings and loops -/

variable {job : CleanupJob} {archives : ArchiveWriter} {rows listed : List Candidate}
  {result : CleanupBatchResult}

theorem candidates_perm (job : CleanupJob) (rows : List Candidate) :
    (job.candidates rows).Perm (rows.filter job.query.eligible) :=
  List.perm_insertionSort _ _

theorem listed_eq (job : CleanupJob) (rows : List Candidate) :
    listLifecycleCandidates job.query job.size rows = (job.candidates rows).take job.size := by
  have positive : job.size ≠ 0 := by
    unfold CleanupJob.size
    split <;> omega
  simp [CleanupJob.candidates, listLifecycleCandidates, positive]

/-- Rows that a statement cannot tell apart are under the same holds. -/
theorem held_of_names {c row : Candidate} (same : c.names row = true) : job.held row = job.held c := by
  simp only [Candidate.names, Bool.and_eq_true, decide_eq_true_eq] at same
  obtain ⟨⟨⟨kind, _⟩, id⟩, _⟩ := same
  have type : row.resourceType = c.resourceType := by simp only [Candidate.resourceType, kind]
  have resource : row.resourceID = c.resourceID := by simp only [Candidate.resourceID, kind, id]
  simp only [CleanupJob.held, agentLifecycleHeld, type, resource]

theorem processCandidates_done :
    (processCandidates job archives listed result rows).1.1.done = result.done := by
  induction listed generalizing result rows with
  | nil => rfl
  | cons c rest ih =>
    unfold processCandidates
    split
    · exact ih
    · split
      · exact ih
      · cases archives c with
        | error e => rfl
        | ok archived =>
          dsimp only
          split <;> exact ih

/-- A batch is the last if all the candidates fit in it. -/
theorem processBatch_done : (processBatch job archives rows).1.1.done = true ↔
    (job.candidates rows).length < job.size := by
  rw [processBatch, processCandidates_done, listed_eq]
  simp

theorem processCandidates_succeeds :
    (processCandidates job (fun _ => .ok true) listed result rows).1.2 = none := by
  induction listed generalizing result rows with
  | nil => rfl
  | cons c rest ih =>
    unfold processCandidates
    dsimp only
    repeat' split
    all_goals exact ih

/-- A loop that does not delete leaves the rows. -/
theorem processCandidates_keeps (spares : job.purges = false) :
    (processCandidates job archives listed result rows).2 = rows := by
  induction listed generalizing result rows with
  | nil => rfl
  | cons c rest ih =>
    unfold processCandidates
    split
    · exact ih
    · split
      · exact ih
      · next wet =>
        cases archives c with
        | error e => rfl
        | ok archived =>
          have only : job.archiveOnly = true := by simpa [CleanupJob.purges, wet] using spares
          dsimp only
          rw [if_pos only]
          exact ih

/-- A loop that deletes takes no candidate that is held, and every other one of
its list unless it fails. -/
theorem processCandidates_takes (purges : job.purges = true) (archives : ArchiveWriter)
    (listed rows : List Candidate) (result : CleanupBatchResult) : ∃ keep : Candidate → Bool,
    (processCandidates job archives listed result rows).2 = rows.filter keep ∧
      (∀ row, job.held row = true → keep row = true) ∧
      ((processCandidates job archives listed result rows).1.2 = none →
        ∀ c ∈ listed, job.held c = false → keep c = false) := by
  obtain ⟨wet, deletes⟩ : job.dryRun = false ∧ job.archiveOnly = false := by
    simpa [CleanupJob.purges] using purges
  induction listed generalizing result rows with
  | nil => exact ⟨fun _ => true, by simp [processCandidates], fun _ _ => rfl, by simp⟩
  | cons c rest ih =>
    unfold processCandidates
    simp only [wet, deletes, Bool.false_eq_true, if_false]
    split
    · next held =>
      obtain ⟨keep, kept, spared, taken⟩ := ih rows _
      exact ⟨keep, kept, spared, fun ran => by simpa [held] using taken ran⟩
    · next free =>
      cases archives c with
      | error e => exact ⟨fun _ => true, by simp, fun _ _ => rfl, fun failed => nomatch failed⟩
      | ok archived =>
        obtain ⟨keep, kept, spared, taken⟩ := ih (deleteLifecycleCandidate c rows).2 _
        have stored : ¬(c.kind = .conversation ∧ c.revision < 1) :=
          fun bad => Nat.not_lt.mpr (c.created bad.1) bad.2
        refine ⟨fun row => keep row && !c.names row, ?_, fun row held => ?_, fun ran other member => ?_⟩
        · refine kept.trans ?_
          rw [deleteLifecycleCandidate, if_neg stored, List.filter_filter]
        · have other : c.names row = false := by
            by_contra names
            exact free (held_of_names (Bool.not_eq_false _ ▸ names) ▸ held)
          simp [spared row held, other]
        · rcases List.mem_cons.mp member with rfl | later
          · simp [Candidate.names]
          · exact fun free => by simp [taken ran other later free]

/-! ### Batches -/

/-- What a batch leaves of the candidates, if the job deletes. -/
theorem processBatch_takes (purges : job.purges = true) (archives : ArchiveWriter)
    (rows : List Candidate) : ∃ keep : Candidate → Bool,
    (job.candidates (processBatch job archives rows).2).Perm ((job.candidates rows).filter keep) ∧
      (∀ row, job.held row = true → keep row = true) ∧
      ((processBatch job archives rows).1.2 = none →
        ∀ c ∈ (job.candidates rows).take job.size, job.held c = false → keep c = false) := by
  obtain ⟨keep, kept, spared, taken⟩ := processCandidates_takes purges archives
    ((job.candidates rows).take job.size) rows
    { done := ((job.candidates rows).take job.size).length < job.size }
  refine ⟨keep, ?_, spared, ?_⟩
  · rw [processBatch, listed_eq]
    refine (candidates_perm job _).trans ?_
    rw [kept, List.filter_comm]
    exact ((candidates_perm job rows).filter keep).symm
  · rw [processBatch, listed_eq]
    exact taken

/-- A job that deletes keeps the candidates that are held. -/
theorem processBatch_held (purges : job.purges = true) :
    (job.candidates (processBatch job archives rows).2).countP job.held =
      (job.candidates rows).countP job.held := by
  obtain ⟨keep, left, spared, _⟩ := processBatch_takes purges archives rows
  rw [left.countP_eq, List.countP_filter]
  refine List.countP_congr fun row _ => ?_
  simp only [Bool.and_eq_true, and_iff_left_iff_imp]
  exact spared row

/-- As long as fewer candidates are held than fit in a batch, one that is not
the last takes a candidate. -/
theorem processBatch_fewer (purges : job.purges = true)
    (room : (job.candidates rows).countP job.held < job.size)
    (ran : (processBatch job archives rows).1.2 = none)
    (more : (processBatch job archives rows).1.1.done = false) :
    (job.candidates (processBatch job archives rows).2).length < (job.candidates rows).length := by
  obtain ⟨keep, left, _, taken⟩ := processBatch_takes purges archives rows
  have full : job.size ≤ (job.candidates rows).length :=
    Nat.not_lt.mp (processBatch_done.not.mp (Bool.eq_false_iff.mp more))
  rw [left.length_eq, List.length_filter_lt_length_iff_exists]
  by_contra all
  have held : ∀ c ∈ (job.candidates rows).take job.size, job.held c = true := by
    intro c member
    by_contra free
    exact all ⟨c, List.mem_of_mem_take member, by simp [taken ran c member (by simpa using free)]⟩
  have count := (List.take_sublist job.size (job.candidates rows)).countP_le (p := job.held)
  rw [List.countP_eq_length.mpr held, List.length_take, min_eq_left full] at count
  omega

/-! ### Repeated batches -/

theorem after_held (purges : job.purges = true) (archives : Nat → ArchiveWriter) (n : Nat) :
    (job.candidates (job.after archives rows n)).countP job.held =
      (job.candidates rows).countP job.held := by
  induction n with
  | zero => rfl
  | succ n ih => exact (processBatch_held purges).trans ih

theorem after_unchanged (spares : job.purges = false) (archives : Nat → ArchiveWriter) (n : Nat) :
    job.after archives rows n = rows := by
  induction n with
  | zero => rfl
  | succ n ih => exact (processCandidates_keeps spares).trans ih

/-- Enough candidates that no batch takes keep every batch from being the last. -/
theorem batch_full {n : Nat} {archives : Nat → ArchiveWriter} (full : job.size ≤
      if job.purges then (job.candidates rows).countP job.held else (job.candidates rows).length) :
    (job.batch archives rows n).1.done = false := by
  refine Bool.eq_false_iff.mpr (processBatch_done.not.mpr (Nat.not_lt.mpr ?_))
  split at full
  · next purges => exact (after_held purges archives n ▸ full).trans List.countP_le_length
  · next spares => exact (after_unchanged (Bool.eq_false_iff.mpr spares) archives n).symm ▸ full

/-- The count of the candidates ends a repetition in which each batch leaves
fewer. -/
theorem ends_of_fewer {archives : Nat → ArchiveWriter}
    (fewer : ∀ n, (job.batch archives rows n).2 = none → (job.batch archives rows n).1.done = false →
      (job.candidates (job.after archives rows (n + 1))).length <
        (job.candidates (job.after archives rows n)).length) :
    ∃ n, (job.batch archives rows n).2 ≠ none ∨ (job.batch archives rows n).1.done = true := by
  by_contra goes
  simp only [not_exists, not_or, not_not, Bool.not_eq_true] at goes
  have sinks (n : Nat) : (job.candidates (job.after archives rows n)).length + n ≤
      (job.candidates rows).length := by
    induction n with
    | zero => exact le_rfl
    | succ n ih =>
      have next := fewer n (goes n).1 (goes n).2
      omega
  have := sinks ((job.candidates rows).length + 1)
  omega

/-- **Batches make progress** exactly if the batch is larger than what no batch
takes away: the candidates that are held if the job deletes, and all of them
if it is a dry run or only archives. -/
theorem cleanup_batches_progress (job : CleanupJob) (rows : List Candidate) :
    job.Progresses rows ↔ (if job.purges then (job.candidates rows).countP job.held
      else (job.candidates rows).length) < job.size := by
  constructor
  · intro progresses
    by_contra full
    obtain ⟨n, failed | ⟨last, _⟩⟩ := progresses.ends fun _ _ => .ok true
    · exact failed processCandidates_succeeds
    · rw [batch_full (Nat.not_lt.mp full)] at last
      cases last
  · intro room
    cases purges : job.purges with
    | true =>
      rw [if_pos purges] at room
      have fewer (archives n) (ran : (job.batch archives rows n).2 = none)
          (more : (job.batch archives rows n).1.done = false) :=
        processBatch_fewer purges ((after_held purges archives n).trans_lt room) ran more
      refine ⟨fewer, fun archives => ?_⟩
      obtain ⟨n, ended⟩ := ends_of_fewer (fewer archives)
      by_cases ran : (job.batch archives rows n).2 = none
      · have last := ended.resolve_left (not_not.mpr ran)
        refine ⟨n, .inr ⟨last, fun c member => .inl ?_⟩⟩
        -- The last batch came to every candidate.
        obtain ⟨keep, left, _, taken⟩ := processBatch_takes purges (archives n)
          (job.after archives rows n)
        rw [List.take_of_length_le (processBatch_done.mp last).le] at taken
        obtain ⟨there, keeps⟩ := List.mem_filter.mp (left.mem_iff.mp member)
        by_contra free
        simp [taken ran c there (by simpa using free)] at keeps
      · exact ⟨n, .inl ran⟩
    | false =>
      simp only [purges, Bool.false_eq_true, if_false] at room
      have last (archives n) : (job.batch archives rows n).1.done = true :=
        processBatch_done.mpr ((after_unchanged purges archives n).symm ▸ room)
      refine ⟨fun archives n _ more => ?_, fun archives => ⟨0, .inr ⟨last archives 0, ?_⟩⟩⟩
      · rw [last archives n] at more
        cases more
      · intro c member
        rw [after_unchanged purges] at member
        refine .inr ⟨purges, ?_⟩
        rwa [listed_eq, List.take_of_length_le room.le]

/-! An archived conversation in front of an archived session, in batches of one. -/

def sampleRows : List Candidate :=
  [⟨.conversation, 1, 1, "a", 1, 10, true, false, fun _ => le_rfl⟩,
    ⟨.session, 1, 0, "b", 0, 20, true, false, nofun⟩]

def sampleJob (holds : List LegalHold) : CleanupJob :=
  ⟨⟨"agent.dialog.v1", 1, 100, 30, 0⟩, false, false, holds, 1⟩

theorem unheld_rows_are_purged : (sampleJob []).Progresses sampleRows :=
  (cleanup_batches_progress _ _).mpr (by decide)

def heldJob : CleanupJob := sampleJob [⟨0, none, "agent", "agent.conversation", ""⟩]

/-- With the conversations held, the batch changes nothing and is not the last:
repeated, it never comes to the session. -/
theorem held_row_hides_the_rest :
    (processBatch heldJob (fun _ => .ok true) sampleRows).2 = sampleRows ∧
      (processBatch heldJob (fun _ => .ok true) sampleRows).1 =
        (⟨false, 1, 1, 0, 0, 0, "agent.conversation:a", some 10⟩, none) ∧
      (heldJob.candidates sampleRows).map heldJob.held = [true, false] :=
  ⟨rfl, rfl, rfl⟩

end DomainryAgent.Cleanup
