import Mathlib.Data.Nat.Digits.Defs
import DomainryAgent.AgentTask.Proposals
import DomainryAgent.Lib.Noninterference

/-!
Dialog sessions, as the state service keeps them for a workspace, a user and a
role.

Here principals and session ids are texts: a session is stored under a key made
of them, and a part of the key is trimmed, replaced by a default when it is
blank, and freed of the separator.  Only rows of the kind `session` are kept;
the kind is a column of the primary key, so those of other kinds are never
read or written here.  A payload is the record it encodes.

Where no file is named, a definition models the function of `dialog_state_service.go`
of its name.
-/

namespace DomainryAgent.Dialog

open Lib Tx AgentTask

/-! ### Records -/

/-- `agentsdk.AgentAuthority`. -/
structure AgentAuthority where
  workspaceID : String
  userID : String
  roleKey : String
  deriving DecidableEq

/-- The context of a session under its keys. -/
abbrev Context := List (String × MetaValue)

/-- `agentsdk.AgentSession`. -/
structure AgentSession where
  externalSessionID : String
  agentSessionID : String
  title : String
  lastSummary : String
  mode : String
  workspaceID : String
  userID : String
  role : String
  objectKey : String
  recordID : String
  archived : Bool
  context : Context
  createdAt : Time
  updatedAt : Time
  deriving DecidableEq

/-- `agentmodel.AgentStateRecord`. -/
structure StateRecord where
  workspaceID : String
  key : String
  userID : String
  roleKey : String
  payload : AgentSession
  updatedAt : Time
  deriving DecidableEq

/-- The primary key of a row. -/
abbrev StateRecord.id (record : StateRecord) : String × String := (record.workspaceID, record.key)

/-- The session rows of `_agent_runtime_states`. -/
abbrev States := Table StateRecord.id

/-- An error of the service, or one of the store itself. -/
inductive Failure where
  | sdk (error : Error)
  | workspaceRequired
  | workspaceMismatch (value repository : String)
  deriving DecidableEq

abbrev StateTx := Tx States Failure

/-! ### The store -/

/-- `agent_state_store.go::normalizeWorkspaceID`. -/
def normalizeWorkspaceID (value : String) : StateTx String := do
  demand (trimSpace value ≠ "") .workspaceRequired
  pure (trimSpace value)

/-- `agent_state_store.go::Put`, that is `PutBatch` of one record. -/
def put (workspaceID : String) (value : StateRecord) : StateTx Unit := do
  let workspace ← normalizeWorkspaceID workspaceID
  demand (trimSpace value.workspaceID = workspace) (.workspaceMismatch value.workspaceID workspace)
  write fun states => states.upsert
    { workspaceID := workspace, key := trimSpace value.key, userID := trimSpace value.userID
      roleKey := trimSpace value.roleKey, payload := value.payload, updatedAt := value.updatedAt }

/-- `UPDATE … WHERE state_key = key AND updated_at = expected`: only the payload
and the stamp are set. -/
def swap (states : States) (id : String × String) (value : StateRecord) (expected : Time) :
    Option States :=
  match states.get? id with
  | none => none
  | some row =>
    if row.updatedAt = expected then
      some (states.put { row with payload := value.payload, updatedAt := value.updatedAt })
    else none

/-- `agent_state_store.go::CompareAndSwap`. -/
def compareAndSwap (workspaceID : String) (value : StateRecord) (expectedUpdatedAt : Time) :
    StateTx Bool := do
  let workspace ← normalizeWorkspaceID workspaceID
  demand (trimSpace value.workspaceID = workspace) (.workspaceMismatch value.workspaceID workspace)
  let swapped ← read fun states =>
    (swap states (workspace, trimSpace value.key) value expectedUpdatedAt).isSome
  write fun states =>
    (swap states (workspace, trimSpace value.key) value expectedUpdatedAt).getD states
  pure swapped

/-- `agent_state_store.go::Get`. -/
def get (workspaceID key : String) : StateTx (Option StateRecord) := do
  let workspace ← normalizeWorkspaceID workspaceID
  read fun states => states.get? (workspace, trimSpace key)

/-- A filter of `List`: a blank value lets every row through. -/
def admits (filter column : String) : Bool := trimSpace filter == "" || column == trimSpace filter

/-- `agent_state_store.go::List`. -/
def list (workspaceID userID roleKey : String) : StateTx (List StateRecord) := do
  let workspace ← normalizeWorkspaceID workspaceID
  read fun states => (states.rows.filter fun row =>
    row.workspaceID == workspace && admits userID row.userID && admits roleKey row.roleKey
    ).insertionSort fun x y => y.updatedAt ≤ x.updatedAt

/-! ### Keys -/

def statePart (value : String) : String :=
  let value := trimSpace value
  if value = "" then "anonymous"
  else String.ofList (value.toList.map fun c => if c = ':' then '_' else c)

def stateKey (workspaceID userID role id : String) : String :=
  statePart workspaceID ++ ":" ++ statePart userID ++ ":" ++ statePart role ++ ":" ++ id

def sessionVisible (record : AgentSession) (authority : AgentAuthority) : Bool :=
  statePart record.workspaceID == statePart authority.workspaceID &&
    statePart record.userID == statePart authority.userID &&
    statePart record.role == statePart authority.roleKey

/-! ### The service -/

def validateAuthority (authority : AgentAuthority) : StateTx Unit :=
  demand (trimSpace authority.workspaceID ≠ "")
    (.sdk (forbidden "backend.workspace_scope_required"))

def truncate (value : String) (limit : Nat) : String := String.ofList (value.toList.take limit)

def sessionTitle (title summary : String) : String :=
  if trimSpace title ≠ "" then truncate (trimSpace title) 120
  else if trimSpace summary ≠ "" then truncate (trimSpace summary) 120
  else "New conversation"

def sessionSummary (value : String) : String := truncate (trimSpace value) 500

def contextString (context : Context) (key : String) : String :=
  let text := trimSpace ((context.lookup key).getD .null).sprint
  if text = "<nil>" then "" else text

/-- `strconv.FormatInt` to base 36. -/
def formatInt36 (n : Nat) : String :=
  let digits := "0123456789abcdefghijklmnopqrstuvwxyz".toList
  if n = 0 then "0" else String.ofList ((Nat.digits 36 n).reverse.map fun d => digits.getD d '0')

/-- `agentsdk.AgentSessionQuery`. -/
structure AgentSessionQuery where
  search : String
  objectKey : String
  recordID : String
  includeArchived : Bool
  limit : Int

/-- Whether `part` occurs in `text`. -/
def contains (text part : String) : Bool :=
  text.toList.tails.any fun tail => part.toList.isPrefixOf tail

section Lower

/-! `strings.ToLower` stays a parameter: no result depends on how letters are
folded. -/

variable (toLower : String → String)

def sessionMatches (record : AgentSession) (search : String) : Bool :=
  contains (toLower (record.title ++ " " ++ record.lastSummary ++ " " ++
    record.externalSessionID ++ " " ++ record.agentSessionID)) search

/-- Whether a listed session is returned. -/
def selected (query : AgentSessionQuery) (authority : AgentAuthority) (record : AgentSession) :
    Bool :=
  let search := toLower (trimSpace query.search)
  sessionVisible record authority && !(record.archived && !query.includeArchived) &&
    !(query.objectKey != "" && record.objectKey != query.objectKey) &&
    !(query.recordID != "" && record.recordID != query.recordID) &&
    !(search != "" && !sessionMatches toLower record search)

/-- At most 100 sessions, 20 when the query does not say. -/
def sessionLimit (limit : Int) : Nat :=
  if limit ≤ 0 then 20 else if 100 < limit then 100 else limit.toNat

def listSessions (query : AgentSessionQuery) (authority : AgentAuthority) :
    StateTx (List AgentSession) := do
  validateAuthority authority
  let states ← list (trimSpace authority.workspaceID) (trimSpace authority.userID)
    (trimSpace authority.roleKey)
  let out := (states.map (·.payload)).filter (selected toLower query authority)
  pure ((out.insertionSort fun x y => y.updatedAt ≤ x.updatedAt).take (sessionLimit query.limit))

end Lower

/-- `agentsdk.AgentSessionUpsertRequest`. -/
structure AgentSessionUpsertRequest where
  externalSessionID : String
  agentSessionID : String
  title : String
  lastSummary : String
  mode : String
  archived : Bool
  context : Context

/-- The id of the session a request is about; one is made up when it names
none. -/
def AgentSessionUpsertRequest.externalID (request : AgentSessionUpsertRequest)
    (authority : AgentAuthority) (now : Time) : String :=
  if trimSpace request.externalSessionID = "" then
    "session:" ++ statePart authority.userID ++ ":" ++ formatInt36 now
  else trimSpace request.externalSessionID

/-- The record a request writes when there is none yet. -/
def newSession (request : AgentSessionUpsertRequest) (authority : AgentAuthority) (now : Time) :
    AgentSession where
  externalSessionID := request.externalID authority now
  agentSessionID := trimSpace request.agentSessionID
  title := sessionTitle request.title request.lastSummary
  lastSummary := sessionSummary request.lastSummary
  mode := trimSpace request.mode
  workspaceID := trimSpace authority.workspaceID
  userID := trimSpace authority.userID
  role := trimSpace authority.roleKey
  objectKey := contextString request.context "object_key"
  recordID := contextString request.context "record_id"
  archived := request.archived
  context := request.context
  createdAt := now
  updatedAt := now

/-- What the record keeps of the one it replaces. -/
def AgentSession.after (record previous : AgentSession) : AgentSession :=
  { record with
    createdAt := previous.createdAt
    agentSessionID :=
      if record.agentSessionID = "" then previous.agentSessionID else record.agentSessionID }

/-- The state record of a session. -/
def AgentSession.state (record : AgentSession) (key : String) : StateRecord :=
  ⟨record.workspaceID, key, record.userID, record.role, record, record.updatedAt⟩

def upsertSession (request : AgentSessionUpsertRequest) (authority : AgentAuthority)
    (now : Time) : StateTx AgentSession := do
  validateAuthority authority
  let record := newSession request authority now
  let key := stateKey record.workspaceID record.userID record.role record.externalSessionID
  match ← get record.workspaceID key with
  | none =>
    put record.workspaceID (record.state key)
    pure record
  | some previous =>
    demand (sessionVisible previous.payload authority = true)
      (.sdk (notFound "agent_dialog.session_not_found"))
    let record := record.after previous.payload
    let updated ← compareAndSwap record.workspaceID (record.state key) previous.updatedAt
    demand (updated = true) (.sdk (conflict "agent_dialog.session_update_conflict"))
    pure record

def setSessionArchived (externalID : String) (archived : Bool) (authority : AgentAuthority)
    (now : Time) : StateTx AgentSession := do
  validateAuthority authority
  demand (trimSpace externalID ≠ "") (.sdk (badRequest "agent_dialog.session_id_required"))
  let workspaceID := trimSpace authority.workspaceID
  let key := stateKey workspaceID authority.userID authority.roleKey (trimSpace externalID)
  match ← get workspaceID key with
  | none => Tx.fail (.sdk (notFound "agent_dialog.session_not_found"))
  | some state =>
    demand (sessionVisible state.payload authority = true)
      (.sdk (notFound "agent_dialog.session_not_found"))
    let record := { state.payload with archived := archived, updatedAt := now }
    let updated ← compareAndSwap workspaceID (record.state key) state.updatedAt
    demand (updated = true) (.sdk (conflict "agent_dialog.session_update_conflict"))
    pure record

/-! ### Requests -/

/-- A call of the session service. -/
inductive SessionCall where
  | list (query : AgentSessionQuery)
  | upsert (request : AgentSessionUpsertRequest)
  | setArchived (externalID : String) (archived : Bool)

/-- A call with the principal that makes it and the reading of the clock. -/
structure SessionRequest where
  authority : AgentAuthority
  now : Time
  call : SessionCall

/-- What a request does; the answer is the sessions it returns. -/
def SessionRequest.run (toLower : String → String) (request : SessionRequest) :
    StateTx (List AgentSession) :=
  match request.call with
  | .list query => listSessions toLower query request.authority
  | .upsert upsert => do
    let session ← upsertSession upsert request.authority request.now
    pure [session]
  | .setArchived externalID archived => do
    let session ← setSessionArchived externalID archived request.authority request.now
    pure [session]

/-- The states after a request. -/
def serve (toLower : String → String) (states : States) (request : SessionRequest) : States :=
  (request.run toLower).commit states

/-- The states after a history of requests. -/
def afterRequests (toLower : String → String) (history : List SessionRequest) : States :=
  runActions (serve toLower) Table.empty history

end DomainryAgent.Dialog
