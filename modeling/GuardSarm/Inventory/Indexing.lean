import GuardSarm.Inventory.AgentSession
import GuardSarm.Indexer.Connector

/-! What the manager hands to the indexer for a session that was queued: the
queries that clean indices, one bulk operation for each stored value, and the
query that removes what a full synchronization did not send. Parsing a document
and building a query are the JSON library's and come from an `Environment`. -/
namespace GuardSarm.Inventory

open Indexer (Bytes Server Connector)

/-- A callback registered with the connector, with the session object it captures. -/
inductive Notify
  | updated (object : Nat)
  | indexed (object : Nat)
  deriving DecidableEq, Repr

/-- What the manager is configured with and what the JSON library computes. A document is absent
when the body is not a JSON object; otherwise it carries the manager's own fields. The cluster is
the one named in the Start, or the manager's. -/
structure Environment where
  maxBulkSize : Nat
  clusterName : Context → String
  document : Context → String → Option Bytes
  query : Context → String

def elementId (env : Environment) (context : Context) (id : String) : Bytes :=
  (env.clusterName context ++ "_" ++ context.agentId ++ "_" ++ id).toList

/-- `hasBulkData` and `fullSyncKeepIds`, the latter as the ids sent with their indices. -/
structure Indexed where
  hasBulkData : Bool
  fullSyncKeepIds : List (String × Bytes)

section

variable (env : Environment) (server : Server) (fuel : Nat) (context : Context)

/-- One stored value. It is passed over if its index, its id or its document is not acceptable. -/
def indexValue (done : Indexed) (data : DataValue) : Connector.Action Notify Indexed := do
  let index := data.index.getD ""
  let id := data.id.getD ""
  if !isInventoryStateIndex index || id.isEmpty then
    return done
  else
    let element := elementId env context id
    match data.operation with
    | .delete =>
      Connector.bulkDelete server env.maxBulkSize fuel element index.toList
      return { done with hasBulkData := true }
    | .upsert =>
      match data.data.bind (env.document context) with
      | none => return done
      | some document =>
        Connector.bulkIndex server env.maxBulkSize fuel element index.toList document
          (if 0 < data.version then decimal data.version else [])
        return {
          hasBulkData := true
          fullSyncKeepIds :=
            if context.mode = .moduleFull then done.fullSyncKeepIds ++ [(index, element)]
            else done.fullSyncKeepIds }

/-- One entry of the store; a context is not sent. Both exceptions of the source are caught by
blocks that do the same, so one type stands for them. -/
def indexEntry (done : Indexed) (entry : Entry) : Connector.Action Notify Indexed :=
  if "_context".toList.isSuffixOf entry.key then return done
  else
    match entry.value with
    | .dataValue data => indexValue env server fuel context done data
    | .dataContext _ => Connector.fail "Invalid data message"

/-- A call whose exception is only logged: did it return? -/
def attempt (action : Connector.Action Notify Unit) : Connector.Action Notify Bool :=
  tryCatch (do action; return true) fun _ => return false

/-- Every query is attempted: was one of them enqueued? -/
def attemptAll (actions : List (Connector.Action Notify Unit)) : Connector.Action Notify Bool :=
  actions.foldlM (fun enqueued action => return (← attempt action) || enqueued) false

def cleanActions : List (Connector.Action Notify Unit) :=
  (context.dataCleanIndices.sort (· ≤ ·)).map fun index =>
    Connector.queueDelete index.toList context.agentId

def sweepActions (keepIds : List (String × Bytes)) : List (Connector.Action Notify Unit) :=
  if context.mode = .moduleFull then
    context.indices.map fun index =>
      Connector.deleteByQueryExceptIds index.toList context.agentId
        ((keepIds.filter (·.1 = index)).map (·.2))
  else []

/-- The session's values and queries are handed over: was anything enqueued? -/
def indexSession (entries : List Entry) : Connector.Action Notify Bool := do
  let cleaned ← attemptAll (cleanActions context)
  let indexed ← entries.foldlM (indexEntry env server fuel context) ⟨false, []⟩
  let swept ← attemptAll (sweepActions context indexed.fullSyncKeepIds)
  return indexed.hasBulkData || cleaned || swept

/-- A metadata or group update; its callback is registered before the request. -/
def updateSession (object : Nat) : Connector.Action Notify Unit := do
  Connector.registerNotify (.updated object)
  Connector.executeUpdateByQuery server fuel (context.indices.map (·.toList)) (env.query context)

end

/-- The attempts that are left compare the agent's checksum with the manager's; reading the
manager's may raise. -/
def compareChecksums (checksum : String) (managerChecksum : Nat → Option String) (attempt : Nat) :
    Nat → Status
  | 0 => .checksumMismatch
  | left + 1 =>
    match managerChecksum attempt with
    | none => .error
    | some manager =>
      if manager = checksum then .ok
      else compareChecksums checksum managerChecksum (attempt + 1) left

/-- The status a module check is answered with. -/
def moduleCheck (context : Context) (managerChecksum : Nat → Option String) : Status :=
  if context.checksumIndex.isEmpty then .error
  else compareChecksums context.checksum managerChecksum 0 5

/-- What the vulnerability scanner answers while a session is handled. -/
structure Scanner where
  isInitialized : Bool
  isFeedReady : Bool
  isFeedUpdateScanInProgress : Bool
  raises : Bool

/-- A session with a vulnerability detection option is scanned, unless the scanner is off, a full
scan covers it, or a first scan of the agent is under way. -/
def runsScanner (scanner : Scanner) (context : Context) (activeVDFirstScans : Finset String) :
    Bool :=
  context.option != .sync && scanner.isInitialized && scanner.isFeedReady &&
    !(scanner.isFeedUpdateScanInProgress && context.option == .vdSync) &&
    !(context.option == .vdFirst && decide (context.agentId ∈ activeVDFirstScans))

end GuardSarm.Inventory
