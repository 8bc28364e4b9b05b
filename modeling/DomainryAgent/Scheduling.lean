import DomainryAgent.Protocol.Quotas
import DomainryAgent.Protocol.Slots
import DomainryAgent.SingleExecutor

/-!
Which runs may wait and run, over every run of the store: the foreground slot
of a conversation, the quotas of users and workspaces, and the leases of an
agent.

The last bound has a gap.  A lease that ran out is not counted, and whoever
takes such a run over is not checked, so a second run of the agent can be leased
in between.
-/

namespace DomainryAgent

open Lib Tx Protocol Refinement

variable {s : Db}

/-! ### The foreground slot -/

variable {may : Db → Op → Prop} {runtimeID : Id}

theorem slots_of_reachable (reached : ReachableBy may s) : Slots s.toCore :=
  reached.invariant (fun _ _ => .empty rfl rfl) fun _ _ _ _ _ _ step _ _ slots => step.slots slots

variable {worker : Id} {ttl : Nat} {agents : List AgentProfile}

/-- A worker that looks for work is never turned away by a run that lost its
slot. -/
theorem claimRun_not_superseded (slots : Slots s.toCore) :
    (claimRun runtimeID worker ttl agents).Throws s (· ≠ conflict "run_superseded") := by
  have loop (candidates : List RunRow) (owners : List OwnerKey) (workspaces : List (Id × Id))
      (chosen : ∀ old ∈ candidates, old ∈ claimCandidates s runtimeID) :
      (claimLoop worker ttl agents candidates owners workspaces).Throws s
        (· ≠ conflict "run_superseded") := by
    induction candidates generalizing owners workspaces with
    | nil => simp [claimLoop]
    | cons old rest ih =>
      have lease : (leaseRun old worker ttl).Throws s (· ≠ conflict "run_superseded") := by
        suffices demand : old.authority.known = true → ∀ c,
            s.conversations.get? old.run.conversationID = some c →
            c.owner = conversationOwner old.authority → old.run.background = none →
            c.activeRunID = some old.run.id by
          simpa [leaseRun, getConversation, conversationAuthority, event, insertRow, saveRun,
            forbidden, notFound, conflict, duplicate] using demand
        intro _ c there _ none
        obtain ⟨found, idle⟩ := idle_of_candidate (chosen old List.mem_cons_self)
        have isOpen : old.run.status.terminal = false := by
          rcases idle with queued | ⟨running, _⟩
          · rw [queued]; rfl
          · rw [running]; rfl
        obtain ⟨c', there', active⟩ := (slots.open_iff found none).mp isOpen
        rw [there] at there'
        cases there'
        exact active
      have later := fun owners workspaces =>
        ih owners workspaces fun next member => chosen next (List.mem_cons_of_mem _ member)
      simp only [claimLoop, wpe, wp, true_and]
      split
      · exact lease
      · split
        · exact later _ _
        · split
          · exact later _ _
          · exact later _ _
          · exact lease
  simp only [claimRun, wpe, wp, true_and]
  refine ⟨?_, fun _ => loop _ _ _ fun _ => id⟩
  rintro _ ⟨⟩

/-- **Foreground slot.**  A run without a task is open exactly as long as it is
the active run of its conversation, an active run is always one without a task,
and so no worker that looks for work is told that a run was superseded. -/
theorem foreground_run_holds_slot (reached : Reachable s) :
    (∀ r row, s.runs.get? r = some row → row.run.background = none →
      (row.run.status.terminal = false ↔ ∃ c,
        s.conversations.get? row.run.conversationID = some c ∧ c.activeRunID = some r)) ∧
    (∀ k c r, s.conversations.get? k = some c → c.activeRunID = some r →
      ∃ row, s.runs.get? r = some row ∧ row.run.background = none ∧
        row.run.conversationID = k) ∧
    ∀ runtimeID worker ttl agents,
      exec (.claim runtimeID worker ttl agents) s ≠ .error (conflict "run_superseded") := by
  have slots := slots_of_reachable reached
  refine ⟨fun r row found none => slots.open_iff found none,
    fun k c r found active => slots.active found active, ?_⟩
  intro runtimeID worker ttl agents failed
  have throws : (exec (.claim runtimeID worker ttl agents)).Throws s
      (· ≠ conflict "run_superseded") := by
    simp only [exec, throws_map]
    exact claimRun_not_superseded slots
  exact throws _ failed rfl

def sampleSend : Send :=
  { clientMessageID := .user 1, runID := 20, message := "hello", requestHash := 1, agent := none }

/-- A message starts a run, and a task is launched beside it. -/
def busyConversation : List Op :=
  [.createConversation 1 none sampleUser, .acceptScheduledTask sampleStart sampleUser,
    .launchTask 1 21, .enqueue 1 sampleSend sampleUser]

theorem busy_conversation_holds_slot :
    ((afterOps busyConversation).conversations.get? 1).any (·.activeRunID = some 20) = true ∧
    ((afterOps busyConversation).runs.get? 21).any (·.run.background ≠ none) = true ∧
    (∀ r row, (afterOps busyConversation).runs.get? r = some row → row.run.background = none →
      (row.run.status.terminal = false ↔ ∃ c,
        (afterOps busyConversation).conversations.get? row.run.conversationID = some c ∧
          c.activeRunID = some r)) :=
  ⟨by decide +kernel, by decide +kernel,
    (foreground_run_holds_slot (reachable_afterOps busyConversation)).1⟩

/-! ### The quotas -/

theorem within_of_reachable {limits : ExecutionLimits} (reached : ReachableBy may s)
    (configured : s.limits = some limits) : Within s.toCore limits := by
  have always : ∀ limits, s.limits = some limits → Within s.toCore limits := by
    refine reached.invariant
      (P := fun c => ∀ limits, c.limits = some limits → Within c limits)
      (fun _ _ _ _ => .empty rfl rfl) ?_
    intro _ _ _ _ x y step _ _ within limits configured
    have before : x.limits = some limits := step.limits ▸ configured
    exact step.within before (within limits before)
  exact always limits configured

/-- **Quotas.**  Under configured limits no user and no workspace ever has more
runs in status running, or more queued runs and queued tasks together, than its
limit. -/
theorem execution_within_quotas {limits : ExecutionLimits} (reached : Reachable s)
    (configured : s.limits = some limits) :
    (∀ user, runsIn s.toCore (ofUser user) .running ≤ limits.maxRunningPerUser ∧
      runsIn s.toCore (ofUser user) .queued + queuedTasksIn s.toCore (ofUser user) ≤
        limits.maxQueuedPerUser) ∧
    ∀ workspace, runsIn s.toCore (ofWorkspace workspace) .running ≤ limits.maxRunningPerWorkspace ∧
      runsIn s.toCore (ofWorkspace workspace) .queued +
        queuedTasksIn s.toCore (ofWorkspace workspace) ≤ limits.maxQueuedPerWorkspace := by
  have within := within_of_reachable reached configured
  exact ⟨fun user => ⟨within.userRunning user, within.userQueued user⟩,
    fun workspace => ⟨within.workspaceRunning workspace, within.workspaceQueued workspace⟩⟩

def sampleLimits : ExecutionLimits :=
  { maxQueuedPerUser := 1, maxQueuedPerWorkspace := 2, maxRunningPerUser := 1
    maxRunningPerWorkspace := 2 }

/-- The store after some operations on an empty one with limits. -/
def afterOpsWithin (ops : List Op) : Db := runActions Db.step (Db.initial 0 (some sampleLimits)) ops

/-- With a full queue the message is refused. -/
theorem busy_conversation_within_quotas :
    (afterOpsWithin busyConversation).limits = some sampleLimits ∧
      (afterOpsWithin busyConversation).runs.rows.length = 1 ∧
      ∀ user, runsIn (afterOpsWithin busyConversation).toCore (ofUser user) .running ≤ 1 ∧
        runsIn (afterOpsWithin busyConversation).toCore (ofUser user) .queued +
          queuedTasksIn (afterOpsWithin busyConversation).toCore (ofUser user) ≤ 1 := by
  have configured : (afterOpsWithin busyConversation).limits = some sampleLimits := by
    decide +kernel
  have reached : Reachable (afterOpsWithin busyConversation) :=
    ⟨0, some sampleLimits, Reaches.start.runActions _ fun _ _ _ => trivial⟩
  exact ⟨configured, by decide +kernel, (execution_within_quotas reached configured).1⟩

/-! ### The leases of an agent -/

section Agent

variable {workspace : Id × Id} {agent : AgentRef} {limit : Nat}

/-- The agent is enabled in one fixed revision: whatever a worker asks the
registry for a run of the agent in the workspace, it answers this revision, and
the run is of this revision. -/
def AgentFixed (workspace : Id × Id) (agent : AgentRef) (limit : Nat) (s : Db) : Op → Bool
  | .claim _ _ _ agents => s.runs.rows.all (fun row => row.run.agent.all (fun ref =>
      decide (workspaceKey row.authority = workspace ∧ ref.id = agent.id →
        ref = agent ∧ (conversationAgent agents agent.id row.authority).any (fun profile =>
          profile.id = agent.id ∧ profile.enabled = true ∧ profile.revision = agent.revision ∧
            profile.maxConcurrent = limit))))
  | _ => true

/-- A run of the agent in the workspace whose lease ran out. -/
def staleLease (workspace : Id × Id) (agentID : Id) (now : Time) (row : RunRow) : Bool :=
  decide (workspaceKey row.authority = workspace ∧ row.run.status = .running ∧ row.expires ≤ now ∧
    row.run.agent.any (·.id = agentID))

/-- A worker looks for work while a lease of the agent has run out only if the
agent has a lease to spare. -/
def LeaseToSpare (workspace : Id × Id) (agentID : Id) (limit : Nat) (s : Db) : Op → Bool
  | .claim .. => !s.runs.rows.any (staleLease workspace agentID s.now) ||
      decide (agentLoad workspace agentID s.toCore < limit)
  | _ => true

/-- A claim gives the agent a lease only below its limit. -/
theorem Claims.agentLoad_grows {out : Option Claim} {t : Core} (named : agent.id ≠ defaultAgentID)
    (fixed : AgentFixed workspace agent limit s (.claim runtimeID worker ttl agents) = true)
    (spare : LeaseToSpare workspace agent.id limit s (.claim runtimeID worker ttl agents) = true)
    (claims : Claims s.toCore agents out t) :
    Table.Grows (agentLoad workspace agent.id s.toCore) (agentLoad workspace agent.id t)
      (agentLoad workspace agent.id s.toCore < limit) := by
  cases claims with
  | none => exact .inl le_rfl
  | @leased claim old new lease =>
    have there : s.runs.get? new.run.id = some old := lease.same.id ▸ lease.found
    refine Table.countP_put_grows there fun leased => .inr ?_
    simp only [leasedTo, decide_eq_true_eq, lease.same.agent,
      workspaceKey_of_principal lease.same.principal] at leased
    obtain ⟨inside, _, _, carries⟩ := leased
    have member := Table.mem_of_get? lease.found
    rcases lease.idle with queued | ⟨running, expired⟩
    · obtain ⟨ref, has, same⟩ := (Option.any_eq_true _ _).mp carries
      have facts := (Option.all_eq_true _ _).mp (List.all_eq_true.mp fixed old member) ref has
      obtain ⟨rfl, answered⟩ := of_decide_eq_true facts ⟨inside, of_decide_eq_true same⟩
      obtain ⟨profile, answers, profiled⟩ := (Option.any_eq_true _ _).mp answered
      obtain ⟨id, enabled, revision, rfl⟩ := of_decide_eq_true profiled
      -- The check of a queued run of the agent counts against its limit.
      have current : ¬(profile.enabled = false ∨ profile.revision ≠ ref.revision) := by
        simp [enabled, revision]
      have available := (lease.room queued).2
      simp only [peerAgentCapacity, has, if_neg named, answers, if_neg current, id,
        agentLeases_eq, decide_eq_true_eq] at available
      rw [← inside]
      exact available
    · have stale : s.runs.rows.any (staleLease workspace agent.id s.now) = true :=
        List.any_eq_true.mpr ⟨old, member, decide_eq_true ⟨inside, running, expired, carries⟩⟩
      simpa [LeaseToSpare, stale] using spare

/-- **Agent concurrency.**  An agent enabled in one fixed revision never has
more live leases in a workspace than its limit, as long as no worker looks for
work while a lease of the agent has run out and the others use up the limit. -/
theorem agent_leases_within_limit (named : agent.id ≠ defaultAgentID)
    (reached : ReachableBy (fun u op => AgentFixed workspace agent limit u op = true ∧
      LeaseToSpare workspace agent.id limit u op = true) s) :
    agentLoad workspace agent.id s.toCore ≤ limit := by
  obtain ⟨now, limits, reached⟩ := reached
  have both : WellFormed s ∧ agentLoad workspace agent.id s.toCore ≤ limit := by
    refine reached.invariant
      (P := fun u => WellFormed u ∧ agentLoad workspace agent.id u.toCore ≤ limit)
      ⟨.initial now limits, Nat.zero_le _⟩ ?_
    intro u ⟨wf, fits⟩ op ⟨fixed, spare⟩
    refine ⟨wf.step op, ?_⟩
    by_cases isClaim : ∃ runtimeID worker ttl agents, op = .claim runtimeID worker ttl agents
    · obtain ⟨runtimeID, worker, ttl, agents, rfl⟩ := isClaim
      have claims : (exec (.claim runtimeID worker ttl agents)).Ensures u
          (fun _ t => agentLoad workspace agent.id t.toCore ≤ limit) := by
        simp only [exec, wp]
        exact claimRun_claims.mono fun _ _ claims =>
          (Claims.agentLoad_grows named fixed spare claims).within fits id
      exact claims.commit fits
    · refine wf.along (P := fun c => agentLoad workspace agent.id c ≤ limit) op fits ?_
      intro x y step _ _ fits
      refine (step.agentLoad_le fun agents claims => ?_).trans fits
      cases claims
      exact isClaim ⟨_, _, _, _, rfl⟩
  exact both.2

end Agent

/-! The failing run: an older run of the agent is cancelled and resumed while a
newer one is leased, and the worker of the newer one stalls.  The older run is
leased in the gap, and then the newer one is taken over. -/

def sampleAgent : AgentRef := ⟨9, 1⟩

def sampleRegistry : List AgentProfile :=
  [{ viewer := conversationOwner sampleUser, id := 9, revision := 1, enabled := true
     maxConcurrent := 1 }]

def agentSend (client runID : Id) : Send :=
  { clientMessageID := .user client, runID := runID, message := "hello", requestHash := client
    agent := some sampleAgent }

/-- The newer run is leased, the older one waits. -/
def leasedAgent : List Op :=
  [.createConversation 1 none sampleUser, .createConversation 2 none sampleUser,
    .enqueue 1 (agentSend 1 20) sampleUser, .cancel 1 20 sampleUser,
    .enqueue 2 (agentSend 2 21) sampleUser, .claim 1 7 1000 sampleRegistry,
    .resume 1 20 sampleUser, .claim 1 8 1000 sampleRegistry]

def takenOverAgent : List Op :=
  leasedAgent ++
    [.tick 2000, .claim 1 8 1000 sampleRegistry, .claim 1 8 1000 sampleRegistry]

theorem leased_agent_within_limit :
    agentLoad (1, 1) 9 (afterOps leasedAgent).toCore = 1 ∧
      agentLoad (1, 1) 9 (afterOps leasedAgent).toCore ≤ 1 := by
  have passes : checkedActions Db.step (fun u op => AgentFixed (1, 1) sampleAgent 1 u op &&
      LeaseToSpare (1, 1) 9 1 u op) (Db.initial 0 none) leasedAgent = true := by decide +kernel
  have reached : ReachableBy (fun u op => AgentFixed (1, 1) sampleAgent 1 u op = true ∧
      LeaseToSpare (1, 1) sampleAgent.id 1 u op = true) (afterOps leasedAgent) :=
    ⟨0, none, Reaches.checkedActions (fun _ _ both => Bool.and_eq_true_iff.mp both) .start
      leasedAgent passes⟩
  exact ⟨by decide +kernel, agent_leases_within_limit (by decide) reached⟩

/-- Two live leases of an agent that may have one. -/
theorem taken_over_agent_exceeds_limit :
    ∃ s, ReachableBy (fun u op => AgentFixed (1, 1) sampleAgent 1 u op = true) s ∧
      agentLoad (1, 1) sampleAgent.id s.toCore = 2 := by
  have passes : checkedActions Db.step (AgentFixed (1, 1) sampleAgent 1) (Db.initial 0 none)
      takenOverAgent = true := by decide +kernel
  exact ⟨afterOps takenOverAgent,
    ⟨0, none, Reaches.checkedActions (fun _ _ => id) .start takenOverAgent passes⟩,
    by decide +kernel⟩

end DomainryAgent
