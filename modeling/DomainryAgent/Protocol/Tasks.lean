import DomainryAgent.Protocol.Leases
import DomainryAgent.Protocol.Routing

/-!
What a step does to the tasks: it leaves them alone, adds one, changes one or
launches one (`TaskStep`).  The invariants of a task's record are read off that:
the phase of its status, the runs it had, the client ids its launches took, and
the revisions of its completion.
-/

namespace DomainryAgent.Protocol

open Lib Table

variable {allowed : Hazard → Prop} {s t : Core}

/-! ### Steps on tasks -/

/-- Every run was there before, or is a new one that executes no task. -/
def RunsRest (allowed : Hazard → Prop) (s t : Core) : Prop :=
  ∀ r row, t.runs.get? r = some row →
    (∃ old, s.runs.get? r = some old ∧ SameRun old row) ∨
      row.run.background = none ∧
        ((∀ k v b n, row.run.clientMessageID ≠ .background k v b n) ∨ allowed .borrow)

theorem RunsRest.of_eq (same : t.runs = s.runs) : RunsRest allowed s t := by
  intro r row there
  rw [same] at there
  exact .inl ⟨row, there, .refl row⟩

theorem RunsRest.of_put {old new : RunRow} (found : s.runs.get? old.run.id = some old)
    (same : SameRun old new) (runs : t.runs = s.runs.put new) : RunsRest allowed s t := by
  intro r row there
  rw [runs] at there
  rcases get?_put_some there with ⟨rfl, rfl, _⟩ | ⟨_, there⟩
  · exact .inl ⟨old, (congrArg s.runs.get? same.id).trans found, same⟩
  · exact .inl ⟨row, there, .refl row⟩

/-- How the record of a task goes on. -/
structure TaskChange (allowed : Hazard → Prop) (old new : Task) : Prop where
  same : SameTask old new
  phase : (InPhase old → InPhase new) ∨ allowed .stalePhase
  verified : Verified old → Verified new

/-- A task as it is accepted. -/
structure NewTask (task : Task) : Prop where
  status : task.status = .queued
  run : task.executionRunID = none
  previous : task.previousExecutionRuns = []
  completion : task.completion = none
  phase : InPhase task

inductive TaskStep (allowed : Hazard → Prop) (s t : Core) : Prop
  | keep (tasks : t.tasks = s.tasks) (completions : t.completions = s.completions)
      (rest : RunsRest allowed s t) : TaskStep allowed s t
  | accept {task : Task} (inserted : s.tasks.insert? task = some t.tasks) (new : NewTask task)
      (completions : t.completions = s.completions) (rest : RunsRest allowed s t) :
      TaskStep allowed s t
  | change {old new : Task} (found : s.tasks.get? old.id = some old)
      (tasks : t.tasks = s.tasks.put new) (change : TaskChange allowed old new)
      (runs : RunsKept old new)
      (completed : CompletionWrite old.id s.completions old.completion new.completion t.completions)
      (rest : RunsRest allowed s t) : TaskStep allowed s t
  | launch {old new : Task} {row : RunRow} {b : TaskExecution}
      (found : s.tasks.get? old.id = some old) (tasks : t.tasks = s.tasks.put new)
      (change : TaskChange allowed old new) (completion : new.completion = old.completion)
      (completions : t.completions = s.completions) (inserted : s.runs.insert? row = some t.runs)
      (executes : Executes row b old) (names : new.executionRunID = some row.run.id)
      (previous : new.previousExecutionRuns = old.previousExecutionRuns)
      (forgets : old.executionRunID = none ∨ allowed .forgetRun)
      (client : old.status = .queued ∧ row.run.clientMessageID = launchClient old ∨
        ∃ m, row.run.clientMessageID = .peer m) : TaskStep allowed s t

theorem TaskFor.new {d : Delegation} {task} (work : TaskFor d task) : NewTask task :=
  ⟨work.status, work.run, work.previous, work.completion, work.phase⟩

variable {old new task : Task} {r k : Id} {row : RunRow}

/-- A change that leaves the status, the runs and the completion. -/
theorem TaskStep.plain (found : s.tasks.get? old.id = some old) (tasks : t.tasks = s.tasks.put new)
    (same : SameTask old new) (phase : InPhase old → InPhase new)
    (verified : Verified old → Verified new) (run : new.executionRunID = old.executionRunID)
    (previous : new.previousExecutionRuns = old.previousExecutionRuns)
    (completion : new.completion = old.completion) (completions : t.completions = s.completions)
    (rest : RunsRest allowed s t) : TaskStep allowed s t := by
  refine .change found tasks ⟨same, .inl phase, verified⟩ (.same run previous) ?_ rest
  rw [completion, completions]
  exact .keep

theorem Move.taskStep (move : Move allowed s t) : TaskStep allowed s t := by
  cases move with
  | run found same | endRun found same | reopenRun found same | reopenRunning found same =>
    exact .keep rfl rfl (.of_put found same rfl)
  | openRun _ foreground inserted _ _ client =>
    refine .keep rfl rfl fun r row there => ?_
    rcases get?_insert?_some inserted there with ⟨_, rfl⟩ | ⟨_, there⟩
    · exact .inr ⟨foreground, client⟩
    · exact .inl ⟨row, there, .refl row⟩
  | closeTask found same _ _ _ named _ _ _ _ completed verified phase =>
    exact .change (get?_key named) rfl
      ⟨⟨rfl, rfl, rfl, rfl, rfl, rfl⟩, phase.imp_left fun current _ => current, fun _ => verified⟩
      (.same rfl rfl) completed (.of_put found same rfl)
  | reopenTask found same _ _ _ named _ _ phase =>
    exact .plain (get?_key named) rfl ⟨rfl, rfl, rfl, rfl, rfl, rfl⟩ (fun _ => phase)
      (fun _ => .of_status nofun) rfl rfl rfl rfl (.of_put found same rfl)
  | launch found same running names _ _ _ _ _ executes _ _ inserted _ completion previous forgets
      phase client =>
    refine .launch found rfl ⟨same, phase.imp_left fun current _ => current, fun _ => ?_⟩
      completion rfl inserted executes names previous forgets client
    exact .of_status (by rw [running]; exact nofun)
  | newTask status run _ _ _ inserted _ previous completion phase =>
    exact .accept inserted ⟨status, run, previous, completion, phase⟩ rfl (.of_eq rfl)
  | editTask found edit _ _ completed verified phase =>
    exact .change found rfl ⟨edit.same, phase, verified⟩ edit.runs completed (.of_eq rfl)
  | submit found running names next inserted =>
    refine .change found rfl ⟨⟨rfl, rfl, rfl, rfl, rfl, rfl⟩, .inl fun h => h, fun _ => ?_⟩ (.same rfl rfl)
      (.write names next inserted) (.of_eq rfl)
    exact .of_status (by rw [running]; exact nofun)
  | repoint _ found | planTask found =>
    exact .plain found rfl ⟨rfl, rfl, rfl, rfl, rfl, rfl⟩ (fun h => h) (fun h => h) rfl rfl rfl rfl
      (.of_eq rfl)
  | tick | openConversation | touchConversation | steps | tools | messages | send | input
    | touchDelegation | openLedger | ledger => exact .keep rfl rfl (.of_eq rfl)

theorem Step.taskStep (step : Step allowed s t) : TaskStep allowed s t := by
  cases step with
  | move move => exact move.taskStep
  | @resumeDelegation _ _ task next _ _ _ _ _ named _ same _ _ queued _ _ _ _ _ _ _ runs completion
      phase =>
    refine .change named rfl ⟨same, .inl fun _ => phase, fun _ => ?_⟩ runs ?_ (.of_eq rfl)
    · exact .of_status (by rw [queued]; exact nofun)
    · rw [completion]
      exact .keep
  | admitDelegation _ work _ _ inserted | transferDelegation _ _ _ work _ _ inserted =>
    exact .accept inserted work.new rfl (.of_eq rfl)
  | amendDelegation | snapshot => exact .keep rfl rfl (.of_eq rfl)

/-- Where every new task has a property and every change keeps it, a step keeps
it of all tasks. -/
theorem TaskStep.each {P : Task → Prop} (step : TaskStep allowed s t)
    (fresh : ∀ task, NewTask task → P task)
    (changes : ∀ old new, TaskChange allowed old new → P old → P new)
    (all : ∀ k task, s.tasks.get? k = some task → P task) :
    ∀ k task, t.tasks.get? k = some task → P task := by
  cases step with
  | keep tasks => rwa [tasks]
  | accept inserted new =>
    intro k task there
    rcases get?_insert?_some inserted there with ⟨_, rfl⟩ | ⟨_, there⟩
    · exact fresh task new
    · exact all k task there
  | change found tasks change | launch found tasks change =>
    intro k task there
    rw [tasks] at there
    rcases get?_put_some there with ⟨_, rfl, _⟩ | ⟨_, there⟩
    · exact changes _ task change (all _ _ found)
    · exact all k task there

/-! ### What stays -/

theorem Step.run_stays (step : Step allowed s t) (found : s.runs.get? r = some row) :
    ∃ row', t.runs.get? r = some row' ∧ SameRun row row' :=
  step.runs.keeps (P := SameRun row) (fun _ _ same _ before => before.trans same) found (.refl row)

/-- Only an operation that ends runs ends one. -/
theorem Step.open_stays (kept : ¬allowed .ends) (step : Step allowed s t)
    (found : s.runs.get? r = some row) (isOpen : row.run.status.terminal = false) :
    ∃ row', t.runs.get? r = some row' ∧ row'.run.status.terminal = false := by
  have stays : ∃ row', s.runs.get? r = some row' ∧ row'.run.status.terminal = false :=
    ⟨row, found, isOpen⟩
  cases step with
  | move move =>
    cases move with
    | run there same _ terminal =>
      exact exists_put there same.id found isOpen fun _ => terminal.trans
    | openRun _ _ inserted | launch _ _ _ _ _ _ _ _ _ _ _ _ inserted =>
      exact ⟨row, get?_insert?_of_some inserted found, isOpen⟩
    | endRun _ _ _ _ _ _ _ marked | closeTask _ _ _ _ _ _ _ _ _ _ _ _ _ marked =>
      exact absurd marked kept
    | reopenRun there same _ reopened | reopenTask there same _ reopened
    | reopenRunning there same _ reopened =>
      exact exists_put there same.id found isOpen fun _ _ => reopened
    | _ => exact stays
  | _ => exact stays

theorem Step.task_stays (step : Step allowed s t) (found : s.tasks.get? k = some task) :
    ∃ task', t.tasks.get? k = some task' ∧ SameTask task task' := by
  cases step.taskStep with
  | keep tasks => exact ⟨task, tasks ▸ found, .refl task⟩
  | accept inserted => exact ⟨task, get?_insert?_of_some inserted found, .refl task⟩
  | change there tasks change | launch there tasks change =>
    rw [tasks]
    exact exists_put there change.same.id found (.refl task) fun here _ => here ▸ change.same

theorem SameConversation.refl (c : Conversation) : SameConversation c c :=
  ⟨rfl, rfl, rfl, .inl rfl, fun shelved => shelved⟩

theorem SameConversation.trans {a b c : Conversation} (ab : SameConversation a b)
    (bc : SameConversation b c) : SameConversation a c where
  id := bc.id.trans ab.id
  owner := bc.owner.trans ab.owner
  agent := bc.agent.trans ab.agent
  saved := by
    rcases ab.saved with rfl | first
    · exact bc.saved
    · rcases bc.saved with rfl | second
      · exact .inr first
      · exact .inr (first.trans second)
  shelved := bc.shelved ∘ ab.shelved

/-- Saving a conversation leaves all of them where they are. -/
theorem SameConversation.put {conversations : Table Conversation.id} {c next : Conversation}
    (same : SameConversation c next) (held : conversations.get? c.id = some c) {old : Conversation}
    (found : conversations.get? k = some old) :
    ∃ new, (conversations.put next).get? k = some new ∧ SameConversation old new :=
  exists_put held same.id found (.refl old) fun here _ => here ▸ same

theorem Step.conversation_stays (step : Step allowed s t) {old : Conversation}
    (found : s.conversations.get? k = some old) :
    ∃ new, t.conversations.get? k = some new ∧ SameConversation old new := by
  have stays : ∃ new, s.conversations.get? k = some new ∧ SameConversation old new :=
    ⟨old, found, .refl old⟩
  cases step with
  | move move =>
    cases move with
    | openConversation _ inserted =>
      exact ⟨old, get?_insert?_of_some inserted found, .refl old⟩
    | touchConversation held same => exact same.put held found
    | openRun _ _ _ taken | reopenRun _ _ _ _ _ taken =>
      exact taken.same.put (get?_key taken.found) found
    | endRun _ _ _ _ _ _ released =>
      cases released with
      | saved held same => exact same.put (get?_key held) found
      | elsewhere => exact stays
    | _ => exact stays
  | _ => exact stays

/-! ### Phases and verification -/

/-- Every task records the phase of its status. -/
def InPhases (tasks : Table Task.id) : Prop := ∀ k task, tasks.get? k = some task → InPhase task

theorem InPhases.empty : InPhases .empty := fun _ _ found => by simp at found

/-- Every completed task that somebody has to accept is verified. -/
def AllVerified (tasks : Table Task.id) : Prop := ∀ k task, tasks.get? k = some task → Verified task

theorem AllVerified.empty : AllVerified .empty := fun _ _ found => by simp at found

/-! ### The runs of a task -/

/-- Every run that executes a task is the one the task names, or one it had. -/
def Provenance (runs : Table RunRow.key) (tasks : Table Task.id) : Prop :=
  ∀ r row b, runs.get? r = some row → row.run.background = some b →
    ∃ task, tasks.get? b.taskID = some task ∧
      (task.executionRunID = some r ∨ r ∈ task.previousExecutionRuns)

theorem Provenance.empty : Provenance .empty .empty := fun _ _ _ found => by simp at found

/-- A task that changes keeps the runs it had. -/
theorem RunsKept.keeps (kept : RunsKept old new)
    (had : old.executionRunID = some r ∨ r ∈ old.previousExecutionRuns) :
    new.executionRunID = some r ∨ r ∈ new.previousExecutionRuns := by
  cases kept with
  | same run previous => rwa [run, previous]
  | @archived r' named cleared previous =>
    right
    rw [previous]
    rcases had with current | earlier
    · rw [named] at current
      cases current
      split
      · assumption
      · exact List.mem_append_right _ (List.mem_singleton.mpr rfl)
    · split
      · exact earlier
      · exact List.mem_append_left _ earlier

/-- A run that was there before executes the task it executed. -/
theorem Provenance.rest (inv : Provenance s.runs s.tasks) (rest : RunsRest allowed s t)
    {b : TaskExecution} (there : t.runs.get? r = some row)
    (background : row.run.background = some b) : ∃ task, s.tasks.get? b.taskID = some task ∧
      (task.executionRunID = some r ∨ r ∈ task.previousExecutionRuns) := by
  rcases rest r row there with ⟨old, before, same⟩ | ⟨foreground, _⟩
  · exact inv r old b before (same.background ▸ background)
  · rw [foreground] at background
    cases background

theorem Step.provenance (kept : ¬allowed .forgetRun) (step : Step allowed s t)
    (inv : Provenance s.runs s.tasks) : Provenance t.runs t.tasks := by
  intro r row b there background
  cases step.taskStep with
  | keep tasks _ rest =>
    rw [tasks]
    exact inv.rest rest there background
  | accept inserted _ _ rest =>
    obtain ⟨task, named, had⟩ := inv.rest rest there background
    exact ⟨task, get?_insert?_of_some inserted named, had⟩
  | @change old new found tasks change runs _ rest =>
    obtain ⟨task, named, had⟩ := inv.rest rest there background
    rw [tasks]
    exact exists_put found change.same.id named had fun _ => runs.keeps
  | @launch old new launched b' found tasks change _ _ inserted executes names previous forgets =>
    rw [tasks]
    have stored : (s.tasks.put new).get? old.id = some new := get?_put_at found change.same.id
    rcases get?_insert?_some inserted there with ⟨rfl, rfl⟩ | ⟨_, there⟩
    · rw [executes.background] at background
      cases background
      exact ⟨new, executes.names ▸ stored, .inl names⟩
    · obtain ⟨task, named, had⟩ := inv r row b there background
      refine exists_put found change.same.id named had ?_
      rintro rfl -
      -- The task named no run, so this one is among the earlier ones.
      rw [previous]
      refine .inr (had.resolve_left ?_)
      rw [forgets.resolve_right kept]
      exact nofun

/-! ### The client ids of launches -/

/-- A task's earlier runs exist and are not the one it names; and each launch
took the number of runs the task had by then, which it has outgrown when it
names none. -/
structure LaunchIds (runs : Table RunRow.key) (tasks : Table Task.id) : Prop where
  archived : ∀ {k task r}, tasks.get? k = some task → r ∈ task.previousExecutionRuns →
    ∃ row, runs.get? r = some row
  current : ∀ {k task r}, tasks.get? k = some task → task.executionRunID = some r →
    r ∉ task.previousExecutionRuns
  counted : ∀ {r row k v b n}, runs.get? r = some row →
    row.run.clientMessageID = .background k v b n → ∃ task, tasks.get? k = some task ∧
      n ≤ task.previousExecutionRuns.length ∧
      (task.executionRunID = none → n < task.previousExecutionRuns.length)

theorem LaunchIds.empty : LaunchIds .empty .empty :=
  ⟨fun found => by simp at found, fun found => by simp at found, fun found => by simp at found⟩

/-- The client id of a launch of a task that names no run is new. -/
theorem LaunchIds.fresh (inv : LaunchIds s.runs s.tasks) (found : s.tasks.get? task.id = some task)
    (idle : task.executionRunID = none) (there : s.runs.get? r = some row) :
    row.run.clientMessageID ≠ launchClient task := by
  intro same
  obtain ⟨task', named, _, outgrown⟩ := inv.counted there same
  rw [found] at named
  cases named
  have := outgrown idle
  omega

variable {n : Nat}

/-- Counting goes on when a task changes without being launched. -/
theorem RunsKept.counts (kept : RunsKept old new)
    (current : ∀ r, old.executionRunID = some r → r ∉ old.previousExecutionRuns)
    (below : n ≤ old.previousExecutionRuns.length)
    (outgrown : old.executionRunID = none → n < old.previousExecutionRuns.length) :
    n ≤ new.previousExecutionRuns.length ∧
      (new.executionRunID = none → n < new.previousExecutionRuns.length) := by
  cases kept with
  | same run previous => rw [run, previous]; exact ⟨below, outgrown⟩
  | archived named cleared previous =>
    rw [previous, if_neg (current _ named), List.length_append, List.length_singleton]
    exact ⟨by omega, fun _ => by omega⟩

/-- A run with a launch's client id was there before, unless a user took one. -/
theorem LaunchIds.rest (inv : LaunchIds s.runs s.tasks) (kept : ¬allowed .borrow)
    (rest : RunsRest allowed s t) {v b : Nat} (there : t.runs.get? r = some row)
    (client : row.run.clientMessageID = .background k v b n) :
    ∃ task, s.tasks.get? k = some task ∧ n ≤ task.previousExecutionRuns.length ∧
      (task.executionRunID = none → n < task.previousExecutionRuns.length) := by
  rcases rest r row there with ⟨old, before, same⟩ | ⟨_, other | hazard⟩
  · exact inv.counted before (same.client ▸ client)
  · exact absurd client (other k v b n)
  · exact absurd hazard kept

theorem Step.launchIds (kept : ¬allowed .borrow) (step : Step allowed s t)
    (routed : s.Routed) (inv : LaunchIds s.runs s.tasks) :
    LaunchIds t.runs t.tasks := by
  have stays : ∀ {r : Id} {row : RunRow}, s.runs.get? r = some row →
      ∃ row', t.runs.get? r = some row' := by
    intro r row found
    obtain ⟨row', there, _⟩ := step.run_stays found
    exact ⟨row', there⟩
  have archived : ∀ {k : Id} {task : Task} {r : Id}, s.tasks.get? k = some task →
      r ∈ task.previousExecutionRuns → ∃ row', t.runs.get? r = some row' := by
    intro k task r named member
    obtain ⟨row, there⟩ := inv.archived named member
    exact stays there
  cases step.taskStep with
  | keep tasks _ rest =>
    rw [tasks]
    exact ⟨archived, inv.current, fun there => inv.rest kept rest there⟩
  | accept inserted new _ rest =>
    refine ⟨fun named member => ?_, fun named current => ?_, fun there client => ?_⟩
    · rcases get?_insert?_some inserted named with ⟨_, rfl⟩ | ⟨_, named⟩
      · rw [new.previous] at member
        cases member
      · exact archived named member
    · rcases get?_insert?_some inserted named with ⟨_, rfl⟩ | ⟨_, named⟩
      · rw [new.run] at current
        cases current
      · exact inv.current named current
    · obtain ⟨task, named, counts⟩ := inv.rest kept rest there client
      exact ⟨task, get?_insert?_of_some inserted named, counts⟩
  | @change old new found tasks change runs _ rest =>
    rw [tasks]
    refine ⟨fun {k task r} named member => ?_, fun {k task r} named current => ?_,
      fun {r row k v b n} there client => ?_⟩
    · rcases get?_put_some named with ⟨_, rfl, _⟩ | ⟨_, named⟩
      · have had : old.executionRunID = some r ∨ r ∈ old.previousExecutionRuns := by
          cases runs with
          | same _ previous => exact .inr (previous ▸ member)
          | archived run _ previous =>
            rw [previous] at member
            split at member
            · exact .inr member
            · rcases List.mem_append.mp member with earlier | last
              · exact .inr earlier
              · exact .inl (List.mem_singleton.mp last ▸ run)
        rcases had with current | earlier
        · obtain ⟨row, _, there, _⟩ := routed.named_run found current
          exact stays there
        · exact archived found earlier
      · exact archived named member
    · rcases get?_put_some named with ⟨_, rfl, _⟩ | ⟨_, named⟩
      · cases runs with
        | same run previous =>
          rw [previous]
          exact inv.current found (run ▸ current)
        | archived _ cleared =>
          rw [cleared] at current
          cases current
      · exact inv.current named current
    · obtain ⟨task, named, below, outgrown⟩ := inv.rest kept rest there client
      refine exists_put found change.same.id named ⟨below, outgrown⟩ ?_
      rintro rfl -
      exact runs.counts (fun _ => inv.current found) below outgrown
  | @launch old new launched b' found tasks change _ _ inserted executes names previous _ client =>
    rw [tasks]
    have stored : (s.tasks.put new).get? new.id = some new :=
      get?_put_self (change.same.id ▸ found)
    refine ⟨fun {k task r} named member => ?_, fun {k task r} named current => ?_,
      fun {r row k v b n} there took => ?_⟩
    · rcases get?_put_some named with ⟨_, rfl, _⟩ | ⟨_, named⟩
      · exact archived found (previous ▸ member)
      · exact archived named member
    · rcases get?_put_some named with ⟨_, rfl, _⟩ | ⟨_, named⟩
      · -- The run is new, and the earlier ones exist.
        rw [names] at current
        cases current
        intro member
        obtain ⟨row, there⟩ := inv.archived found (previous ▸ member)
        have free : s.runs.get? launched.run.id = none := (get?_insert? inserted).1
        rw [free] at there
        cases there
      · exact inv.current named current
    · rcases get?_insert?_some inserted there with ⟨_, rfl⟩ | ⟨_, there⟩
      · rcases client with ⟨_, launches⟩ | ⟨m, peer⟩
        · rw [launches] at took
          cases took
          refine ⟨new, change.same.id ▸ stored, by rw [previous], fun cleared => ?_⟩
          rw [names] at cleared
          cases cleared
        · rw [peer] at took
          cases took
      · obtain ⟨task, named, below, outgrown⟩ := inv.counted there took
        refine exists_put found change.same.id named ⟨below, outgrown⟩ ?_
        rintro rfl -
        refine ⟨by rw [previous]; exact below, fun cleared => ?_⟩
        rw [names] at cleared
        cases cleared

/-! ### Completions -/

/-- The completions of a task are stored under the revisions up to its last, and
the last is the one it records. -/
structure CompletionHistory (tasks : Table Task.id) (completions : Table CompletionRow.key) :
    Prop where
  revisions : ∀ {k task}, tasks.get? k = some task → ∀ n,
    (∃ row, completions.get? (k, n) = some row) ↔ 1 ≤ n ∧ n ≤ completionRevision task.completion
  current : ∀ {k task record}, tasks.get? k = some task → task.completion = some record →
    ∃ row, completions.get? (k, record.revision) = some row ∧ row.completion = record
  owned : ∀ {k n row}, completions.get? (k, n) = some row → ∃ task, tasks.get? k = some task

namespace CompletionHistory

variable {tasks : Table Task.id} {completions : Table CompletionRow.key}

theorem empty : CompletionHistory .empty .empty :=
  ⟨fun found => by simp at found, fun found => by simp at found, fun found => by simp at found⟩

theorem insert_task {grown : Table Task.id} (inv : CompletionHistory tasks completions)
    (none : task.completion = none) (inserted : tasks.insert? task = some grown) :
    CompletionHistory grown completions := by
  have unknown : tasks.get? task.id = .none := (get?_insert? inserted).1
  refine ⟨fun {k other} there n => ?_, fun {k other record} there has => ?_,
    fun {k n row} there => ?_⟩
  · rcases get?_insert?_some inserted there with ⟨rfl, rfl⟩ | ⟨_, there⟩
    · rw [none]
      constructor
      · rintro ⟨row, stored⟩
        obtain ⟨owner, at_owner⟩ := inv.owned stored
        rw [unknown] at at_owner
        cases at_owner
      · rintro ⟨positive, below⟩
        have : completionRevision .none = 0 := rfl
        omega
    · exact inv.revisions there n
  · rcases get?_insert?_some inserted there with ⟨_, rfl⟩ | ⟨_, there⟩
    · rw [none] at has
      cases has
    · exact inv.current there has
  · obtain ⟨owner, at_owner⟩ := inv.owned there
    exact ⟨owner, get?_insert?_of_some inserted at_owner⟩

/-- A task that keeps its completion. -/
theorem keep (inv : CompletionHistory tasks completions) (found : tasks.get? old.id = some old)
    (id : new.id = old.id) (same : new.completion = old.completion) :
    CompletionHistory (tasks.put new) completions := by
  refine ⟨fun {k task} there n => ?_, fun {k task record} there has => ?_,
    fun {k n row} there => ?_⟩
  · rcases get?_put_some there with ⟨rfl, rfl, _⟩ | ⟨_, there⟩
    · rw [id, same]
      exact inv.revisions found n
    · exact inv.revisions there n
  · rcases get?_put_some there with ⟨rfl, rfl, _⟩ | ⟨_, there⟩
    · rw [id]
      exact inv.current found (same ▸ has)
    · exact inv.current there has
  · obtain ⟨owner, at_owner⟩ := inv.owned there
    exact exists_get?_put at_owner

/-- A task that gets its next completion. -/
theorem write {row : CompletionRow} {grown : Table CompletionRow.key}
    (inv : CompletionHistory tasks completions) (found : tasks.get? old.id = some old)
    (id : new.id = old.id) (owner : row.taskID = old.id)
    (next : row.completion.revision = completionRevision old.completion + 1)
    (inserted : completions.insert? row = some grown)
    (completion : new.completion = some row.completion) :
    CompletionHistory (tasks.put new) grown := by
  have key : row.key = (old.id, completionRevision old.completion + 1) := Prod.ext owner next
  have last : completionRevision new.completion = completionRevision old.completion + 1 := by
    rw [completion]
    exact next
  have lookup : ∀ k n, (∃ other, grown.get? (k, n) = some other) ↔
      (k = old.id ∧ n = completionRevision old.completion + 1) ∨
        ∃ other, completions.get? (k, n) = some other := by
    intro k n
    constructor
    · rintro ⟨other, there⟩
      rcases get?_insert?_some inserted there with ⟨same, _⟩ | ⟨_, there⟩
      · rw [key] at same
        exact .inl (Prod.mk.inj same)
      · exact .inr ⟨other, there⟩
    · rintro (⟨rfl, rfl⟩ | ⟨other, there⟩)
      · exact ⟨row, key ▸ get?_insert?_self inserted⟩
      · exact ⟨other, get?_insert?_of_some inserted there⟩
  refine ⟨fun {k task} there n => ?_, fun {k task record} there has => ?_,
    fun {k n other} there => ?_⟩
  · rw [lookup]
    rcases get?_put_some there with ⟨rfl, rfl, _⟩ | ⟨elsewhere, there⟩
    · rw [id, inv.revisions found n, last]
      have mine : (old.id = old.id ∧ n = completionRevision old.completion + 1) ↔
        n = completionRevision old.completion + 1 := and_iff_right rfl
      rw [mine]
      omega
    · rw [inv.revisions there n]
      have other : k ≠ old.id := id ▸ elsewhere
      exact or_iff_right fun here => other here.1
  · rcases get?_put_some there with ⟨rfl, rfl, _⟩ | ⟨_, there⟩
    · rw [completion] at has
      cases has
      refine ⟨row, ?_, rfl⟩
      rw [id, ← owner]
      exact get?_insert?_self inserted
    · obtain ⟨stored, at_stored, same⟩ := inv.current there has
      exact ⟨stored, get?_insert?_of_some inserted at_stored, same⟩
  · have owned : ∃ task, tasks.get? k = some task := by
      rcases (lookup k n).mp ⟨other, there⟩ with ⟨rfl, _⟩ | ⟨before, there⟩
      · exact ⟨old, found⟩
      · exact inv.owned there
    obtain ⟨task, at_task⟩ := owned
    exact exists_get?_put at_task

end CompletionHistory

theorem Step.completionHistory (step : Step allowed s t)
    (inv : CompletionHistory s.tasks s.completions) : CompletionHistory t.tasks t.completions := by
  cases step.taskStep with
  | keep tasks completions => rwa [tasks, completions]
  | accept inserted new completions =>
    rw [completions]
    exact inv.insert_task new.completion inserted
  | @change old new found tasks change _ completed =>
    rw [tasks]
    generalize t.completions = grown at completed
    generalize completes : new.completion = completion at completed
    cases completed with
    | keep => exact inv.keep found change.same.id completes
    | write owner next inserted =>
      exact inv.write found change.same.id owner next inserted completes
  | launch found tasks change completion completions =>
    rw [tasks, completions]
    exact inv.keep found change.same.id completion

end DomainryAgent.Protocol
