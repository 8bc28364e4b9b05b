import DomainryAgent.Collaboration
import DomainryAgent.Protocol.Admissions

/-!
The delegations below a root, over every run of the store.

An admission counts the delegation in the ledger of its root and stores it in
the same transaction; a replay of it changes neither.  So the counter of a
ledger is the number of delegations stored for its root, and its limit is a
limit on those.
-/

namespace DomainryAgent

open Lib Tx Table Protocol Refinement

variable {s : Db}

/-! ### The root of a delegation -/

variable {a : Authority} {root : Id} {input : Admission}

variable {c : Conversation}

theorem getConversation_rooted {id : Id} (read : (getConversation id a).peek s = .ok c) :
    RootedIn s.conversations (ledgerKey id a) := by
  have reads : (getConversation id a).Ensures s
      (fun _ s' => s' = s ∧ RootedIn s.conversations (ledgerKey id a)) := by
    rw [ensures_getConversation]
    intro _ c found owner
    exact ⟨rfl, c, found, congrArg (·.runtimeID) owner, congrArg (·.workspaceID) owner⟩
  exact (reads.peek (fun _ => by simp) read).2

/-- The walk up the delegations goes on in the workspace it is in. -/
theorem upstreamAuthority_workspace {d : Delegation} {next : Authority}
    (ok : upstreamAuthority s c d a = .ok next) : sameConversationWorkspace a next := by
  unfold upstreamAuthority at ok
  split at ok
  · cases ok
    exact ⟨rfl, rfl⟩
  · obtain ⟨found, read, rfl⟩ : ∃ found, (delegationSubjects d.id a).peek s = .ok found ∧
        (found.map (·.source)).getD a = next := by
      cases read : (delegationSubjects d.id a).peek s with
      | error e => rw [read] at ok; cases ok
      | ok found =>
        rw [read] at ok
        exact ⟨found, rfl, Except.ok.inj ok⟩
    cases found with
    | none => exact ⟨rfl, rfl⟩
    | some row =>
      have reads := delegationSubjects_workspace.peek (readOnly_delegationSubjects d.id a) read
      exact reads.2 row rfl

theorem conversationDelegationRoot_rooted {receiver : Option Id} {depth : Nat} {current : Id}
    (ok : conversationDelegationRoot s receiver depth current a = .ok root) :
    RootedIn s.conversations (ledgerKey root a) := by
  induction depth generalizing current a with
  | zero => cases ok
  | succ depth ih =>
    rw [conversationDelegationRoot] at ok
    obtain ⟨c, read, ok⟩ := except_bind_ok ok
    obtain ⟨upstream, _, ok⟩ := except_bind_ok ok
    cases upstream with
    | none =>
      dsimp only at ok
      split at ok
      · cases ok
      · cases ok
        exact getConversation_rooted read
    | some d =>
      dsimp only at ok
      by_cases cycle : receiver = some (if c.delegationID = none then c.agentID.getD defaultAgentID
          else d.toAgentID)
      · rw [if_pos cycle] at ok
        cases ok
      · rw [if_neg cycle] at ok
        obtain ⟨next, walks, ok⟩ := except_bind_ok ok
        obtain ⟨runtime, workspace⟩ := upstreamAuthority_workspace walks
        have key : ledgerKey root a = ledgerKey root next := by
          rw [ledgerKey, ledgerKey, runtime, workspace]
        exact key ▸ ih ok

/-! ### What an admission counts -/

/-- Of the delegations below a root none is for another goal. -/
theorem conversationWorkDelegationCount_eq (counted : s.Counted)
    (tallied : Tallied s.toCore) {key : LedgerKey} (rooted : RootedIn s.conversations key) :
    conversationWorkDelegationCount s key.rootConversationID = goalCount s.delegations key := by
  rw [conversationWorkDelegationCount, ← List.countP_eq_length_filter, goalCount]
  refine List.countP_congr fun d member => ?_
  simp only [decide_eq_true_eq]
  constructor
  · intro root
    obtain ⟨ledger, opened⟩ := counted.opened _ d (get?_of_mem member)
    exact (tallied.rooted _ ledger opened).unique rooted root
  · intro goal
    exact congrArg (·.rootConversationID) goal

/-- A ledger counts the delegation that is to be stored. -/
def Awaits (s : Db) (key : LedgerKey) (ledgers : Table WorkLedger.key) : Prop :=
  ∀ k ledger, ledgers.get? k = some ledger →
    ledger.delegations = goalCount s.delegations k + (decide (key = k)).toNat

theorem admitConversationWorkBudget_counts {requested : Option WorkBudget}
    (counted : s.Counted) (tallied : Tallied s.toCore)
    (rooted : RootedIn s.conversations (ledgerKey root a)) :
    (admitConversationWorkBudget root requested a).Ensures s (fun _ s' => ∃ ledgers,
      s' = { s with ledgers := ledgers } ∧ Awaits s (ledgerKey root a) ledgers ∧
        ∀ k ledger, ledgers.get? k = some ledger → RootedIn s.conversations k) := by
  have count : conversationWorkDelegationCount s root = goalCount s.delegations (ledgerKey root a) :=
    conversationWorkDelegationCount_eq counted tallied rooted
  have others : ∀ k ledger, k ≠ ledgerKey root a → s.ledgers.get? k = some ledger →
      ledger.delegations = goalCount s.delegations k + (decide (ledgerKey root a = k)).toNat := by
    intro k ledger other found
    rw [decide_eq_false (Ne.symm other), Bool.toNat_false]
    exact tallied.counts k ledger found
  simp only [admitConversationWorkBudget, wp]
  split
  · next ledger found =>
    simp only [admitToLedger, wp, saveConversationWorkLedger]
    intro _ _ _
    have stored := tallied.counts _ _ found
    have key : ledger.key = ledgerKey root a := key_of_get? found
    refine ⟨_, rfl, fun k next there => ?_, fun k next there => ?_⟩
    · rcases get?_put_some there with ⟨here, rfl, _⟩ | ⟨other, before⟩
      · replace here : k = ledgerKey root a := here.trans key
        subst here
        rw [decide_eq_true rfl, Bool.toNat_true]
        dsimp only
        split <;> omega
      · exact others k next (fun here => other (here.trans key.symm)) before
    · rcases get?_put_some there with ⟨here, _, _⟩ | ⟨_, before⟩
      · exact (here.trans key).symm ▸ rooted
      · exact tallied.rooted k next before
  · next missing =>
    simp only [admitNewLedger, wp, insertConversationWorkLedger, ensures_insertRow]
    intro _ grown inserted
    have none := counted.none missing
    refine ⟨grown, rfl, fun k next there => ?_, fun k next there => ?_⟩
    · rcases get?_insert?_some inserted there with ⟨rfl, rfl⟩ | ⟨other, before⟩
      · simp [openLedger, none]
      · exact others k next other before
    · rcases get?_insert?_some inserted there with ⟨rfl, rfl⟩ | ⟨_, before⟩
      · exact rooted
      · exact tallied.rooted k next before

theorem admitDelegation_tallied (counted : s.Counted)
    (tallied : Tallied s.toCore) :
    (admitDelegation input a).Ensures s (fun _ s' => Tallied s'.toCore) := by
  simp only [admitDelegation, wp, ensures_getConversation,
    (readOnly_checkAdmissionSource _ _).ensures, (readOnly_checkAdmissionRun _ _ _).ensures,
    ensures_checkConversationQueueCapacity]
  intro _ _ _ _ _ _ _ _ _ _ root walked
  have rooted := conversationDelegationRoot_rooted walked
  refine (admitConversationWorkBudget_counts counted tallied rooted).mono ?_
  rintro workBudget _ ⟨ledgers, rfl, awaits, roots⟩ references _ dependencies _
  simp only [recordAdmission, wp, insertConversation, ensures_insertRow, ensures_insertTask]
  intro conversations opened tasks _ delegations inserted
  refine saveDelegationSubjects_core.mono ?_
  intro _ t core
  simp only [saveAgreementRevision, wp, insertAssignment, ensures_insertRow]
  intro assignments _ _ _
  -- Of the rows of an admission one is a delegation, and none a ledger.
  show Tallied { t.toCore with agreements := _, assignments := assignments }
  rw [core]
  refine ⟨fun k ledger found => ?_, fun k ledger found => ?_⟩
  · exact (awaits k ledger found).trans (Table.countP_insert? (goalKey · = k) inserted).symm
  · obtain ⟨c, there, workspace⟩ := roots k ledger found
    exact ⟨c, get?_insert?_of_some opened there, workspace⟩

/-! ### Every run -/

theorem tallied_step (wf : WellFormed s) (tallied : Tallied s.toCore) (op : Op) :
    Tallied (s.step op).toCore := by
  by_cases admits : mayRaise .admits op = true
  · obtain ⟨input, a, rfl⟩ : ∃ input a, op = .createDelegation input a := by
      cases op with
      | createDelegation input a => exact ⟨input, a, rfl⟩
      | _ => cases admits
    have creates : (createConversationDelegation input a).Ensures s
        (fun _ s' => Tallied s'.toCore) := by
      simp only [createConversationDelegation, wp, ensures_conversationAuthority]
      intro _ _
      split
      · rw [ensures_demand]
        exact fun _ => tallied
      · exact admitDelegation_tallied wf.counted tallied
    refine Tx.Ensures.commit (P := fun t : Db => Tallied t.toCore) ?_ tallied
    simpa only [exec, ensures_seqRight, ensures_pure] using creates
  · have kept : ¬Raises s op .admits := fun raises => admits raises.mayRaise
    have both : Counted (s.step op).delegations (s.step op).ledgers ∧
        Tallied (s.step op).toCore := by
      refine wf.along (P := fun c => c.Counted ∧ Tallied c) op
        ⟨wf.counted, tallied⟩ ?_
      rintro x y step _ _ ⟨counted, tallied⟩
      exact ⟨step.counted counted, step.tallied kept counted tallied⟩
    exact both.2

theorem tallied_of_reachable (reached : Reachable s) : Tallied s.toCore := by
  obtain ⟨now, limits, reached⟩ := reached
  have both : WellFormed s ∧ Tallied s.toCore := by
    refine reached.invariant (P := fun u => WellFormed u ∧ Tallied u.toCore)
      ⟨.initial now limits, .empty rfl⟩ ?_
    intro u ⟨wf, tallied⟩ op _
    exact ⟨wf.step op, tallied_step wf tallied op⟩
  exact both.2

/-- **Admission is limited.**  However delegations are created below a root, at
most 32 are stored for it; with the first of them the root has a ledger, and the
counter of that is their number. -/
theorem root_delegations_limited (reached : Reachable s) (root : Id) :
    conversationWorkDelegationCount s root ≤ 32 ∧
    (0 < conversationWorkDelegationCount s root →
      ∃ ledger ∈ s.ledgers.rows, ledger.key.rootConversationID = root) ∧
    ∀ ledger ∈ s.ledgers.rows, ledger.key.rootConversationID = root →
      ledger.delegations = conversationWorkDelegationCount s root := by
  have tallied := tallied_of_reachable reached
  have counted := reached.wellFormed.counted
  have counter : ∀ ledger ∈ s.ledgers.rows, ledger.key.rootConversationID = root →
      ledger.delegations = conversationWorkDelegationCount s root := by
    rintro ledger member rfl
    have found := get?_of_mem member
    rw [conversationWorkDelegationCount_eq counted tallied (tallied.rooted _ _ found)]
    exact tallied.counts _ _ found
  have opened : 0 < conversationWorkDelegationCount s root →
      ∃ ledger ∈ s.ledgers.rows, ledger.key.rootConversationID = root := by
    intro some
    obtain ⟨d, member⟩ := List.exists_mem_of_length_pos some
    obtain ⟨stored, same⟩ := List.mem_filter.mp member
    obtain ⟨ledger, found⟩ := counted.opened _ d (get?_of_mem stored)
    refine ⟨ledger, mem_of_get? found, ?_⟩
    rw [key_of_get? found]
    exact of_decide_eq_true same
  refine ⟨?_, opened, counter⟩
  by_cases any : 0 < conversationWorkDelegationCount s root
  · obtain ⟨ledger, member, same⟩ := opened any
    rw [← counter ledger member same]
    exact counted.few _ ledger (get?_of_mem member)
  · omega

/-- A second delegation below the root is asked for twice. -/
def replayedAdmission : List Op :=
  dependentDelegations ++ [.createDelegation dependentAdmission sampleUser]

theorem replayed_admission_limited :
    conversationWorkDelegationCount (afterOps replayedAdmission) 1 = 2 ∧
    ∀ ledger ∈ (afterOps replayedAdmission).ledgers.rows, ledger.key.rootConversationID = 1 →
      ledger.delegations = 2 := by
  have count : conversationWorkDelegationCount (afterOps replayedAdmission) 1 = 2 := by
    decide +kernel
  have limited := root_delegations_limited (reachable_afterOps replayedAdmission) 1
  exact ⟨count, fun ledger member root => (limited.2.2 ledger member root).trans count⟩

end DomainryAgent
