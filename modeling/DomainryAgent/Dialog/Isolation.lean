import Mathlib.Data.List.GetD
import DomainryAgent.Dialog.Sessions

/-!
Sessions of different principals are kept apart.

What a request reads and writes is filed under the principal that makes it, so
its effect is the same when only those rows are looked at; requests of others
do not touch them.  By the unwinding argument a principal is answered as if the
others had done nothing.

The key does not tell every two principals apart: a user or role that contains
the separator shares its rows with the one that has `_` in its place, and a
blank one with the one called `anonymous`.
-/

namespace DomainryAgent.Dialog

open Lib Tx Table

/-! ### Keys -/

@[simp] theorem statePart_trimSpace (value : String) :
    statePart (trimSpace value) = statePart value := by
  simp only [statePart, trimSpace_trimSpace]

theorem colon_notMem_statePart (value : String) : ':' ∉ (statePart value).toList := by
  simp only [statePart]
  split
  · decide
  · rw [String.toList_ofList, List.mem_map]
    rintro ⟨c, _, same⟩
    by_cases colon : c = ':'
    · rw [if_pos colon] at same
      cases same
    · rw [if_neg colon] at same
      exact colon same

/-- A part of a key begins with something else than a blank. -/
theorem statePart_cons (value : String) :
    ∃ c rest, (statePart value).toList = c :: rest ∧ isSpace c = false := by
  simp only [statePart]
  split
  · exact ⟨'a', "nonymous".toList, by decide, by decide⟩
  · next nonblank =>
    rw [String.toList_ofList]
    have solid : ∀ c ∈ (trimSpace value).toList.head?, isSpace c = false := by
      intro c first
      rw [trimSpace, String.toList_ofList] at first
      exact head?_trim first
    cases text : (trimSpace value).toList with
    | nil => exact absurd (String.toList_eq_nil_iff.mp text) nonblank
    | cons c rest =>
      refine ⟨_, _, rfl, ?_⟩
      by_cases colon : c = ':'
      · simp only [if_pos colon]
        decide
      · simp only [if_neg colon]
        exact solid c (by rw [text]; rfl)

/-- Rows under the key `id` belong to the principal. -/
def FiledFor (authority : AgentAuthority) (id : String × String) : Prop :=
  id.1 = trimSpace authority.workspaceID ∧ ∃ rest, id.2.toList =
    (statePart authority.workspaceID).toList ++ ':' :: ((statePart authority.userID).toList ++
      ':' :: ((statePart authority.roleKey).toList ++ ':' :: rest))

/-- What the key keeps of a principal. -/
def AgentAuthority.parts (authority : AgentAuthority) : String × String × String :=
  (trimSpace authority.workspaceID, statePart authority.userID, statePart authority.roleKey)

/-- The primary key of the session `externalID` of a principal. -/
def sessionAddress (authority : AgentAuthority) (externalID : String) : String × String :=
  (trimSpace authority.workspaceID, trimSpace (stateKey authority.workspaceID authority.userID
    authority.roleKey externalID))

/-- The store trims the keys it is given; that takes nothing from the parts. -/
theorem toList_trimSpace_stateKey (workspaceID userID role id : String) :
    (trimSpace (stateKey workspaceID userID role id)).toList =
      (statePart workspaceID).toList ++ ':' :: ((statePart userID).toList ++
        ':' :: ((statePart role).toList ++ ':' :: id.toList.rdropWhile isSpace)) := by
  obtain ⟨c, rest, front, solid⟩ := statePart_cons workspaceID
  simp only [trimSpace, String.toList_ofList, trim, stateKey, String.toList_append, front,
    List.cons_append, List.append_assoc]
  rw [List.dropWhile_cons_of_neg (by simp [solid])]
  have separator : isSpace ':' = false := by decide
  have apart := rdropWhile_append_cons separator
    (c :: rest ++ ':' :: ((statePart userID).toList ++ ':' :: (statePart role).toList)) id.toList
  simpa using apart

theorem filedFor_sessionAddress (authority : AgentAuthority) (externalID : String) :
    FiledFor authority (sessionAddress authority externalID) :=
  ⟨rfl, _, toList_trimSpace_stateKey _ _ _ _⟩

variable {b : AgentAuthority} {row : StateRecord} {request : SessionRequest}

variable {a : AgentAuthority}

theorem FiledFor.of_parts {id} (same : a.parts = b.parts)
    (filed : FiledFor a id) : FiledFor b id := by
  obtain ⟨workspace, user, role⟩ : trimSpace a.workspaceID = trimSpace b.workspaceID ∧
      statePart a.userID = statePart b.userID ∧ statePart a.roleKey = statePart b.roleKey := by
    simpa [AgentAuthority.parts] using same
  have first : statePart a.workspaceID = statePart b.workspaceID := by
    rw [← statePart_trimSpace a.workspaceID, workspace, statePart_trimSpace]
  obtain ⟨scope, rest, key⟩ := filed
  exact ⟨scope.trans workspace, rest, by rw [key, first, user, role]⟩

theorem statePart_split {x y : String} {l l' : List Char}
    (same : (statePart x).toList ++ ':' :: l = (statePart y).toList ++ ':' :: l') :
    statePart x = statePart y ∧ l = l' :=
  (split_unique (colon_notMem_statePart x) (colon_notMem_statePart y) same).imp_left
    String.toList_inj.mp

/-- A key is filed for one principal only, as far as the key tells them apart. -/
theorem FiledFor.unique {id} (left : FiledFor a id) (right : FiledFor b id) :
    a.parts = b.parts := by
  obtain ⟨scope, rest, key⟩ := left
  obtain ⟨scope', rest', key'⟩ := right
  have split := statePart_split (statePart_split (key.symm.trans key')).2
  simp only [AgentAuthority.parts, Prod.mk.injEq]
  exact ⟨scope.symm.trans scope', split.1, (statePart_split split.2).1⟩

/-! ### What a principal's requests see -/

noncomputable instance (authority : AgentAuthority) : DecidablePred (FiledFor authority) :=
  Classical.decPred _

/-- The rows filed for a principal. -/
noncomputable def rowsFor (authority : AgentAuthority) (states : States) : States :=
  states.only (FiledFor authority)

section Rows

variable {p : AgentAuthority} {states : States} {workspaceID key : String} {value : StateRecord}
  {id : String × String}

theorem get?_rowsFor (filed : FiledFor p id) :
    (rowsFor p states).get? id = states.get? id := get?_only filed

theorem seen_normalized {α : Type} {f : String → StateTx α}
    (later : Seen (rowsFor p) (f (trimSpace workspaceID)) states) :
    Seen (rowsFor p) (normalizeWorkspaceID workspaceID >>= f) states := by
  refine Seen.bind (Seen.andThen seen_demand fun _ _ => seen_pure) ?_
  simp only [normalizeWorkspaceID, wp]
  exact fun _ => later

theorem seen_get (filed : FiledFor p (trimSpace workspaceID, trimSpace key)) :
    Seen (rowsFor p) (get workspaceID key) states :=
  seen_normalized (seen_read (get?_rowsFor filed))

variable {expected : Time}

theorem swap_rowsFor (filed : FiledFor p id) : swap (rowsFor p states) id value expected =
      (swap states id value expected).map (rowsFor p) := by
  simp only [swap, get?_rowsFor filed]
  cases found : states.get? id with
  | none => rfl
  | some row =>
    have here : row.id = id := key_of_get? found
    by_cases current : row.updatedAt = expected
    · simp only [if_pos current, Option.map_some]
      exact congrArg some (only_put _ (here ▸ filed)).symm
    · simp only [if_neg current, Option.map_none]

theorem seen_compareAndSwap (filed : FiledFor p (trimSpace workspaceID, trimSpace value.key)) :
    Seen (rowsFor p) (compareAndSwap workspaceID value expected) states := by
  refine seen_normalized (.andThen seen_demand fun _ states => .andThen (seen_read ?_) ?_)
  · rw [swap_rowsFor filed, Option.isSome_map]
  · refine fun _ states => .andThen (seen_write ?_) fun _ _ => seen_pure
    rw [swap_rowsFor filed]
    cases swap states (trimSpace workspaceID, trimSpace value.key) value expected <;> rfl

end Rows

/-! ### Requests -/

variable {e : String}

section Requests

variable {p a : AgentAuthority} {states : States} {now : Time}

/-- A request reads and writes under the address of one session of the
principal that makes it. -/
theorem filedFor_address : FiledFor p (sessionAddress a e) ↔ p.parts = a.parts := by
  constructor
  · exact fun filed => filed.unique (filedFor_sessionAddress a e)
  · exact fun same => (filedFor_sessionAddress a e).of_parts same.symm

/-- The session of an upsert is kept under the address of its id. -/
theorem newSession_address (request : AgentSessionUpsertRequest) (now : Time) :
    (trimSpace (newSession request a now).workspaceID, trimSpace (stateKey
      (newSession request a now).workspaceID (newSession request a now).userID
      (newSession request a now).role (newSession request a now).externalSessionID)) =
    sessionAddress a (request.externalID a now) := by
  simp [newSession, stateKey, sessionAddress]

theorem archived_address (externalID : String) :
    (trimSpace (trimSpace a.workspaceID), trimSpace (stateKey (trimSpace a.workspaceID) a.userID
      a.roleKey externalID)) = sessionAddress a externalID := by
  simp [stateKey, sessionAddress]

theorem seen_upsertSession (same : p.parts = a.parts) (request : AgentSessionUpsertRequest) :
    Seen (rowsFor p) (upsertSession request a now) states := by
  have filed := filedFor_address (e := request.externalID a now) |>.mpr same
  rw [← newSession_address request now] at filed
  refine .andThen seen_demand fun _ _ => .andThen (seen_get filed) fun found _ => ?_
  cases found with
  | none =>
    refine .andThen (seen_normalized (.andThen seen_demand fun _ _ => seen_write ?_))
      fun _ _ => seen_pure
    exact .symm (only_upsert _ (by exact filed))
  | some previous =>
    refine .andThen seen_demand fun _ _ => .andThen (seen_compareAndSwap filed) fun _ _ => ?_
    exact .andThen seen_demand fun _ _ => seen_pure

theorem seen_setSessionArchived (same : p.parts = a.parts) (externalID : String)
    (archived : Bool) :
    Seen (rowsFor p) (setSessionArchived externalID archived a now) states := by
  have filed := filedFor_address (e := trimSpace externalID) |>.mpr same
  rw [← archived_address] at filed
  refine .andThen seen_demand fun _ _ => .andThen seen_demand fun _ _ => ?_
  refine .andThen (seen_get filed) fun found _ => ?_
  cases found with
  | none => exact seen_fail
  | some state =>
    refine .andThen seen_demand fun _ _ => .andThen (seen_compareAndSwap filed) fun _ _ => ?_
    exact .andThen seen_demand fun _ _ => seen_pure

end Requests

/-! ### Where rows are filed -/

/-- Every row is filed for the principal in its columns, and its session belongs
to its workspace. -/
def Filed (states : States) : Prop := ∀ id row, states.get? id = some row →
  FiledFor ⟨row.workspaceID, row.userID, row.roleKey⟩ row.id ∧
    row.payload.workspaceID = row.workspaceID

theorem filed_empty : Filed Table.empty := by
  intro id row found
  rw [get?_empty] at found
  cases found

section Kept

variable {states : States} {a : AgentAuthority} {now : Time}

/-- A request under the address `id` leaves the states, or writes the row there
and files it. -/
def Writes (id : String × String) (states after : States) : Prop :=
  after = states ∨ ∃ row : StateRecord, row.id = id ∧
    (FiledFor ⟨row.workspaceID, row.userID, row.roleKey⟩ row.id ∧
      row.payload.workspaceID = row.workspaceID) ∧
    (after = states.upsert row ∨ after = states.put row)

variable {id : String × String} {after : States}

theorem Writes.filed (writes : Writes id states after) (filed : Filed states) : Filed after := by
  rcases writes with rfl | ⟨row, -, own, rfl | rfl⟩
  · exact filed
  · intro id row' found
    rw [get?_upsert] at found
    split at found
    · cases found
      exact own
    · exact filed id row' found
  · intro id row' found
    rcases get?_put_some found with ⟨_, rfl, _⟩ | ⟨_, kept⟩
    · exact own
    · exact filed id row' kept

theorem Writes.elsewhere {p : AgentAuthority} (writes : Writes id states after)
    (outside : ¬ FiledFor p id) : rowsFor p after = rowsFor p states := by
  rcases writes with rfl | ⟨row, rfl, -, rfl | rfl⟩
  · rfl
  · exact only_upsert_of_not _ outside
  · exact only_put_of_not _ outside

variable {workspaceID : String} {value : StateRecord}

theorem compareAndSwap_writes {expected : Time} (filed : Filed states)
    (scope : value.payload.workspaceID = trimSpace workspaceID) :
    (compareAndSwap workspaceID value expected).Ensures states
      (fun _ after => Writes (trimSpace workspaceID, trimSpace value.key) states after) := by
  simp only [compareAndSwap, normalizeWorkspaceID, wp, swap]
  intro _ _
  cases found : states.get? (trimSpace workspaceID, trimSpace value.key) with
  | none => exact .inl rfl
  | some row =>
    have here : row.id = (trimSpace workspaceID, trimSpace value.key) := key_of_get? found
    by_cases current : row.updatedAt = expected
    · simp only [if_pos current, Option.getD_some]
      exact .inr ⟨{ row with payload := value.payload, updatedAt := value.updatedAt }, here,
        ⟨(filed _ _ found).1, scope.trans (congrArg Prod.fst here).symm⟩, .inr rfl⟩
    · simp only [if_neg current, Option.getD_none]
      exact .inl rfl

end Kept

/-! ### Answers -/

/-- The principal a session was written by. -/
def AgentSession.principal (session : AgentSession) : AgentAuthority :=
  ⟨session.workspaceID, session.userID, session.role⟩

@[simp] theorem principal_after (record previous : AgentSession) :
    (record.after previous).principal = record.principal := rfl

section Answers

variable {states : States} {a : AgentAuthority} {now : Time}

theorem sessionVisible_iff {session : AgentSession} (scope : session.workspaceID =
    trimSpace a.workspaceID) :
    sessionVisible session a = true ↔ session.principal.parts = a.parts := by
  simp [sessionVisible, AgentSession.principal, AgentAuthority.parts, scope]

theorem parts_newSession (request : AgentSessionUpsertRequest) :
    (newSession request a now).principal.parts = a.parts := by
  simp [newSession, AgentSession.principal, AgentAuthority.parts]

/-- An upsert writes under the address of its session and returns a session of
its principal. -/
theorem upsertSession_spec (filed : Filed states) (request : AgentSessionUpsertRequest) :
    (upsertSession request a now).Ensures states (fun session after =>
      Writes (sessionAddress a (request.externalID a now)) states after ∧
        session.principal.parts = a.parts) := by
  simp only [upsertSession, validateAuthority, get, normalizeWorkspaceID, wp]
  intro _ _
  split
  · simp only [put, normalizeWorkspaceID, wp]
    intro _ _
    have own := filedFor_sessionAddress a (request.externalID a now)
    rw [← newSession_address] at own ⊢
    refine ⟨.inr ⟨_, ?_, ⟨?_, ?_⟩, .inl rfl⟩, parts_newSession request⟩
    · rfl
    · refine own.of_parts ?_
      simp [AgentAuthority.parts, AgentSession.state, newSession]
    · simp [AgentSession.state, newSession]
  · simp only [wp]
    intro _
    refine Tx.Ensures.mono (compareAndSwap_writes filed ?_) ?_
    · simp [AgentSession.state, AgentSession.after, newSession]
    · intro _ _ writes _
      rw [principal_after, ← newSession_address]
      exact ⟨writes, parts_newSession request⟩

theorem setSessionArchived_spec (filed : Filed states) (externalID : String) (archived : Bool) :
    (setSessionArchived externalID archived a now).Ensures states (fun session after =>
      Writes (sessionAddress a (trimSpace externalID)) states after ∧
        session.principal.parts = a.parts) := by
  simp only [setSessionArchived, validateAuthority, wp]
  intro _ _
  simp only [get, normalizeWorkspaceID, wp, trimSpace_trimSpace]
  intro _
  cases found : states.get? (trimSpace a.workspaceID, trimSpace (stateKey (trimSpace a.workspaceID)
      a.userID a.roleKey (trimSpace externalID))) with
  | none => exact ensures_fail
  | some state =>
    have here : state.id = _ := key_of_get? found
    have scope : state.payload.workspaceID = trimSpace a.workspaceID :=
      (filed _ _ found).2.trans (congrArg Prod.fst here)
    simp only [wp]
    intro visible
    refine Tx.Ensures.mono (compareAndSwap_writes filed ?_) ?_
    · simpa [AgentSession.state] using scope
    · intro _ _ writes _
      rw [← archived_address]
      exact ⟨writes, (sessionVisible_iff scope).mp visible⟩

/-- A request writes under an address of its principal and returns sessions of
its principal. -/
theorem run_spec (filed : Filed states) (toLower : String → String) (request : SessionRequest) :
    (request.run toLower).Ensures states (fun sessions after =>
      (∃ e, Writes (sessionAddress request.authority e) states after) ∧
        ∀ session ∈ sessions, session.principal.parts = request.authority.parts) := by
  unfold SessionRequest.run
  cases request.call with
  | list query =>
    simp only [listSessions, validateAuthority, list, normalizeWorkspaceID, wp]
    intro _ _
    refine ⟨⟨"", .inl rfl⟩, fun session member => ?_⟩
    have chosen := List.mem_of_mem_take member
    rw [List.mem_insertionSort, List.mem_filter, List.mem_map] at chosen
    obtain ⟨⟨row, listed, rfl⟩, picked⟩ := chosen
    rw [List.mem_insertionSort, List.mem_filter] at listed
    obtain ⟨stored, columns⟩ := listed
    have workspace : row.workspaceID = trimSpace request.authority.workspaceID := by
      simp only [Bool.and_eq_true, beq_iff_eq, trimSpace_trimSpace] at columns
      exact columns.1.1
    have scope := (filed _ _ (get?_of_mem stored)).2.trans workspace
    refine (sessionVisible_iff scope).mp ?_
    simp only [selected, Bool.and_eq_true] at picked
    exact picked.1.1.1.1
  | upsert upsert =>
    simp only [wp, List.mem_singleton, forall_eq]
    refine (upsertSession_spec filed upsert).mono ?_
    rintro _ _ ⟨writes, own⟩
    exact ⟨⟨_, writes⟩, own⟩
  | setArchived externalID archived =>
    simp only [wp, List.mem_singleton, forall_eq]
    refine (setSessionArchived_spec filed externalID archived).mono ?_
    rintro _ _ ⟨writes, own⟩
    exact ⟨⟨_, writes⟩, own⟩

end Answers

/-! ### Principals the key tells apart -/

/-- A part that is not blank and does not contain the separator is kept as it
is. -/
def PlainPart (value : String) : Prop :=
  trimSpace value ≠ "" ∧ ':' ∉ (trimSpace value).toList

theorem statePart_of_plain {value : String} (plain : PlainPart value) :
    statePart value = trimSpace value := by
  have kept : ∀ c ∈ (trimSpace value).toList, (if c = ':' then '_' else c) = c := by
    intro c member
    have other : c ≠ ':' := by
      rintro rfl
      exact plain.2 member
    exact if_neg other
  simp only [statePart, if_neg plain.1]
  rw [List.map_congr_left kept, List.map_id', String.ofList_toList]

namespace AgentAuthority

/-- A principal without the blanks around its parts. -/
def trimmed (authority : AgentAuthority) : AgentAuthority :=
  ⟨trimSpace authority.workspaceID, trimSpace authority.userID, trimSpace authority.roleKey⟩

/-- The user and the role are plain parts. -/
def Plain (authority : AgentAuthority) : Prop :=
  PlainPart authority.userID ∧ PlainPart authority.roleKey

@[simp] theorem parts_trimmed (authority : AgentAuthority) :
    authority.trimmed.parts = authority.parts := by
  simp [trimmed, parts]

theorem parts_of_trimmed (same : a.trimmed = b.trimmed) :
    a.parts = b.parts := by
  rw [← parts_trimmed a, same, parts_trimmed]

theorem Plain.of_trimmed (plain : b.Plain) (same : a.trimmed = b.trimmed) :
    a.Plain := by
  obtain ⟨-, user, role⟩ : trimSpace a.workspaceID = trimSpace b.workspaceID ∧
      trimSpace a.userID = trimSpace b.userID ∧ trimSpace a.roleKey = trimSpace b.roleKey := by
    simpa [trimmed] using same
  refine ⟨?_, ?_⟩
  · rw [PlainPart, user]
    exact plain.1
  · rw [PlainPart, role]
    exact plain.2

end AgentAuthority

section Plain

variable {p a : AgentAuthority} {states : States}

theorem seen_listSessions (same : p.parts = a.parts) (plain : a.Plain) (filed : Filed states)
    (toLower : String → String) (query : AgentSessionQuery) :
    Seen (rowsFor p) (listSessions toLower query a) states := by
  refine Seen.bind seen_demand ?_
  rw [validateAuthority, ensures_demand]
  intro _
  refine .andThen (seen_normalized (seen_read ?_)) ?_
  · refine congrArg (List.insertionSort _) ?_
    simp only [rowsFor, Table.only, List.filter_filter]
    refine List.filter_congr fun row stored => ?_
    rw [Bool.and_eq_left_iff_imp]
    intro columns
    -- The columns of a row that a plain principal lists are its own.
    simp only [admits, Bool.and_eq_true, Bool.or_eq_true, beq_iff_eq, trimSpace_trimSpace] at columns
    obtain ⟨⟨workspace, user⟩, role⟩ := columns
    have listed := (filed _ _ (get?_of_mem stored)).1
    refine decide_eq_true (listed.of_parts (Eq.trans ?_ same.symm))
    simp [AgentAuthority.parts, workspace, user.resolve_left plain.1.1, role.resolve_left plain.2.1]
  · exact fun _ _ => seen_pure

/-- A request that writes does so among the rows of its principal. -/
theorem seen_writing (same : p.parts = request.authority.parts)
    (writes : ∀ query, request.call ≠ .list query) (toLower : String → String) :
    Seen (rowsFor p) (request.run toLower) states := by
  unfold SessionRequest.run
  cases call : request.call with
  | list query => exact absurd call (writes query)
  | upsert upsert => exact .andThen (seen_upsertSession same upsert) fun _ _ => seen_pure
  | setArchived externalID archived =>
    exact .andThen (seen_setSessionArchived same externalID archived) fun _ _ => seen_pure

end Plain

/-! ### Histories -/

section Histories

variable {p q : AgentAuthority} {s t : States} {toLower : String → String}

theorem serve_writes (filed : Filed s) (request : SessionRequest) :
    ∃ e, Writes (sessionAddress request.authority e) s (serve toLower s request) :=
  Tx.Ensures.commit (P := fun after => ∃ e, Writes (sessionAddress request.authority e) s after)
    ((run_spec filed toLower request).mono fun _ _ done => done.1) ⟨"", .inl rfl⟩

theorem serve_filed (filed : Filed s) (request : SessionRequest) :
    Filed (serve toLower s request) := by
  obtain ⟨e, writes⟩ := serve_writes filed request
  exact writes.filed filed

/-- A request of another principal is not seen. -/
theorem serve_elsewhere (filed : Filed s) (request : SessionRequest)
    (other : p.parts ≠ request.authority.parts) :
    rowsFor p (serve toLower s request) = rowsFor p s := by
  obtain ⟨e, writes⟩ := serve_writes filed request
  exact writes.elsewhere (mt filedFor_address.mp other)

/-- Listing writes nothing. -/
theorem serve_list {query : AgentSessionQuery} (call : request.call = .list query) :
    serve toLower s request = s := by
  refine Tx.Ensures.commit (P := fun after => after = s) ?_ rfl
  simp [SessionRequest.run, call, listSessions, validateAuthority, list, normalizeWorkspaceID]

/-- Two states hold the same rows for a principal. -/
structure Alike (p : AgentAuthority) (s t : States) : Prop where
  rows : rowsFor p s = rowsFor p t
  left : Filed s
  right : Filed t

/-- The answers a principal gets in a history of requests. -/
def answersTo (toLower : String → String) (p : AgentAuthority) (history : List SessionRequest) :
    List (Except Failure (List AgentSession)) :=
  transcript (serve toLower) (fun states request => (request.run toLower).peek states)
    (fun request => request.authority.trimmed = p.trimmed) Table.empty history

/-- The history without the requests of a principal. -/
def without (q : AgentAuthority) (history : List SessionRequest) : List SessionRequest :=
  history.filter (fun request => request.authority.trimmed ≠ q.trimmed)

/-- A principal is answered, and finds its rows, as if another one whose key
differs had made no request. -/
theorem unseen_requests (plain : p.Plain) (other : p.parts ≠ q.parts)
    (history : List SessionRequest) :
    answersTo toLower p history = answersTo toLower p (without q history) ∧
      Alike p (afterRequests toLower history) (afterRequests toLower (without q history)) := by
  have start : Alike p Table.empty Table.empty := ⟨rfl, filed_empty, filed_empty⟩
  refine unwinding ?_ ?_ ?_ ?_ start history
  · intro s t request same hidden
    have hers : request.authority.parts = q.parts :=
      AgentAuthority.parts_of_trimmed (not_not.mp hidden)
    refine ⟨?_, serve_filed same.left request, same.right⟩
    rw [serve_elsewhere same.left request (hers ▸ other), same.rows]
  · intro s t request same _
    refine ⟨?_, serve_filed same.left request, serve_filed same.right request⟩
    -- What a request leaves among the rows of a principal depends on them only.
    by_cases own : p.parts = request.authority.parts
    · by_cases writes : ∀ query, request.call ≠ .list query
      · have seen : ∀ u : States, Seen (rowsFor p) (request.run toLower) u :=
          fun u => seen_writing own writes toLower
        rw [serve, serve, ← (seen s).commit, ← (seen t).commit, same.rows]
      · simp only [not_forall, not_not] at writes
        obtain ⟨query, call⟩ := writes
        rw [serve_list call, serve_list call, same.rows]
    · rw [serve_elsewhere same.left request own, serve_elsewhere same.right request own, same.rows]
  · intro s t request same mine
    have own := AgentAuthority.parts_of_trimmed mine.symm
    have seen : ∀ u, Filed u → Seen (rowsFor p) (request.run toLower) u := by
      intro u filed
      by_cases writes : ∀ query, request.call ≠ .list query
      · exact seen_writing own writes toLower
      · simp only [not_forall, not_not] at writes
        obtain ⟨query, call⟩ := writes
        simp only [SessionRequest.run, call]
        exact seen_listSessions own (plain.of_trimmed mine) filed toLower query
    rw [← (seen s same.left).peek, ← (seen t same.right).peek, same.rows]
  · intro request mine hers
    exact other (AgentAuthority.parts_of_trimmed (mine.symm.trans hers))

/-- A principal is only shown sessions filed for it. -/
theorem answers_own (history : List SessionRequest) :
    ∀ out ∈ answersTo toLower p history, ∀ sessions, out = .ok sessions →
      ∀ session ∈ sessions, session.principal.parts = p.parts := by
  refine forall_transcript (I := Filed) (fun s request filed => serve_filed filed request) ?_
    filed_empty history
  intro s request filed mine sessions given session member
  have own := AgentAuthority.parts_of_trimmed mine
  have returned := (run_spec filed toLower request).mono fun _ _ kept => kept.2
  exact (returned.peeked given session member).trans own

end Histories

/-! ### Session ids -/

/-- A number is written without blanks. -/
theorem formatInt36_solid (n : Nat) :
    (formatInt36 n).toList ≠ [] ∧ ∀ c ∈ (formatInt36 n).toList, isSpace c = false := by
  have solid : ∀ d, isSpace ("0123456789abcdefghijklmnopqrstuvwxyz".toList.getD d '0') = false := by
    intro d
    have each : "0123456789abcdefghijklmnopqrstuvwxyz".toList.all (!isSpace ·) = true := by decide
    by_cases small : d < "0123456789abcdefghijklmnopqrstuvwxyz".toList.length
    · rw [List.getD_eq_getElem _ _ small]
      simpa using List.all_eq_true.mp each _ (List.getElem_mem small)
    · rw [List.getD_eq_default _ _ (by omega)]
      decide
  simp only [formatInt36]
  by_cases zero : n = 0
  · rw [if_pos zero]
    exact ⟨by decide, List.forall_mem_singleton.mpr (by decide)⟩
  · rw [if_neg zero, String.toList_ofList]
    refine ⟨?_, ?_⟩
    · simpa [Nat.digits_eq_nil_iff_eq_zero] using zero
    · intro c member
      obtain ⟨d, -, rfl⟩ := List.mem_map.mp member
      exact solid d

/-- The id of a session has no blanks around it. -/
theorem trimSpace_externalID (request : AgentSessionUpsertRequest) (a : AgentAuthority)
    (now : Time) : trimSpace (request.externalID a now) = request.externalID a now := by
  unfold AgentSessionUpsertRequest.externalID
  split
  · obtain ⟨nonempty, solid⟩ := formatInt36_solid now
    rw [trimSpace, trim_eq_self, String.ofList_toList]
    · simp [String.toList_append]
      decide
    · intro c last
      refine solid c (List.mem_of_getLast? ?_)
      rw [String.toList_append, List.getLast?_append_of_ne_nil _ nonempty] at last
      exact last
  · exact trimSpace_trimSpace _

/-- The address of a session determines its principal, as far as the key tells
principals apart, and its id. -/
theorem sessionAddress_inj {e' : String}
    (same : sessionAddress a (trimSpace e) = sessionAddress b (trimSpace e')) :
    a.parts = b.parts ∧ trimSpace e = trimSpace e' := by
  have parts : a.parts = b.parts :=
    (filedFor_sessionAddress a (trimSpace e)).unique
      (same ▸ filedFor_sessionAddress b (trimSpace e'))
  refine ⟨parts, ?_⟩
  have kept : ∀ e : String, (trimSpace e).toList.rdropWhile isSpace = (trimSpace e).toList := by
    intro e
    rw [trimSpace, String.toList_ofList, trim, List.rdropWhile_idempotent]
  have keys := congrArg (fun id => id.2.toList) same
  simp only [sessionAddress, toList_trimSpace_stateKey, kept] at keys
  exact String.toList_inj.mp (statePart_split (statePart_split (statePart_split keys).2).2).2

/-! ### Isolation -/

/-- Two principals whose users and roles are plain are isolated: whatever is
requested, by them and by others, one of them is answered and finds its sessions
as if the other had made no request, is never shown a session of the other, and
the address of a session tells whose it is and which. -/
theorem dialog_sessions_isolated (toLower : String → String) {p q : AgentAuthority}
    (plain : p.Plain) (plain' : q.Plain) (differ : p.trimmed ≠ q.trimmed)
    (history : List SessionRequest) :
    answersTo toLower p history = answersTo toLower p (without q history) ∧
      (∀ e, (afterRequests toLower history).get? (sessionAddress p e) =
        (afterRequests toLower (without q history)).get? (sessionAddress p e)) ∧
      (∀ sessions, .ok sessions ∈ answersTo toLower p history →
        ∀ session ∈ sessions, session.principal ≠ q.trimmed) ∧
      (∀ (r r' : AgentSessionUpsertRequest) (now now' : Time),
        sessionAddress p (r.externalID p now) ≠ sessionAddress q (r'.externalID q now')) ∧
      ∀ (r r' : AgentSessionUpsertRequest) (now now' : Time),
        sessionAddress p (r.externalID p now) = sessionAddress p (r'.externalID p now') →
          r.externalID p now = r'.externalID p now' := by
  have other : p.parts ≠ q.parts := fun same => differ <| by
    simpa [AgentAuthority.parts, AgentAuthority.trimmed, statePart_of_plain plain.1,
      statePart_of_plain plain.2, statePart_of_plain plain'.1,
      statePart_of_plain plain'.2] using same
  obtain ⟨answers, alike⟩ := unseen_requests plain other history
  refine ⟨answers, ?_, ?_, ?_, ?_⟩
  · intro e
    have mine := filedFor_sessionAddress p e
    rw [← get?_rowsFor mine, alike.rows, get?_rowsFor mine]
  · intro sessions answered session member theirs
    have own := answers_own history _ answered sessions rfl session member
    rw [theirs, AgentAuthority.parts_trimmed] at own
    exact other own.symm
  · intro r r' now now' same
    rw [← trimSpace_externalID r, ← trimSpace_externalID r'] at same
    exact other (sessionAddress_inj same).1
  · intro r r' now now' same
    rw [← trimSpace_externalID r, ← trimSpace_externalID r'] at same
    have ids := (sessionAddress_inj same).2
    rwa [trimSpace_externalID, trimSpace_externalID] at ids

/-- A request for the session `externalID` that sets nothing else. -/
def sampleUpsert (externalID : String) : AgentSessionUpsertRequest :=
  ⟨externalID, "", "", "", "", false, []⟩

/-- Two users of a workspace, each with a session of the same id. -/
theorem plain_users_isolated :
    let p : AgentAuthority := ⟨"w", "ann", "operator"⟩
    let q : AgentAuthority := ⟨"w", "bob", "operator"⟩
    let history : List SessionRequest :=
      [⟨p, 1, .upsert (sampleUpsert "s")⟩, ⟨q, 2, .upsert (sampleUpsert "s")⟩,
        ⟨q, 3, .setArchived "s" true⟩, ⟨p, 4, .setArchived "s" false⟩]
    answersTo id p history = answersTo id p (without q history) ∧
      (answersTo id p history).length = 2 :=
  ⟨(dialog_sessions_isolated id ⟨⟨by decide, by decide⟩, ⟨by decide, by decide⟩⟩
    ⟨⟨by decide, by decide⟩, ⟨by decide, by decide⟩⟩ (by decide) _).1, by decide⟩

/-- The principals of the sessions a request is answered with. -/
def shownTo (request : SessionRequest) (states : States) : Option (List AgentAuthority) :=
  ((request.run id).result? states).map (·.map (·.principal))

/-- A user whose id contains the separator archives the session of the user
that has `_` in its place, and is shown it; a blank user lists the session of
the user called `anonymous`. -/
theorem dialog_sessions_shared :
    (let p : AgentAuthority := ⟨"w", "team_a", "operator"⟩
     let q : AgentAuthority := ⟨"w", "team:a", "operator"⟩
     let states := afterRequests id [⟨p, 1, .upsert (sampleUpsert "s")⟩]
     let archive : SessionRequest := ⟨q, 2, .setArchived "s" true⟩
     p.trimmed ≠ q.trimmed ∧ sessionAddress p "s" = sessionAddress q "s" ∧
       shownTo archive states = some [p] ∧
       ((serve id states archive).get? (sessionAddress p "s")).map (·.payload.archived) =
         some true) ∧
    (let p : AgentAuthority := ⟨"w", "anonymous", "operator"⟩
     let q : AgentAuthority := ⟨"w", "", "operator"⟩
     let states := afterRequests id [⟨p, 1, .upsert (sampleUpsert "s")⟩]
     p.trimmed ≠ q.trimmed ∧
       shownTo ⟨q, 2, .list ⟨"", "", "", false, 0⟩⟩ states = some [p]) := by
  decide +kernel

end DomainryAgent.Dialog
