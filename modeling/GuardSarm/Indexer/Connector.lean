import GuardSarm.Lib.Table
import GuardSarm.Indexer.Response

/-! The synchronous indexer connector: the bulk buffer, the pending deletes and
the registered callbacks. A text is a list of bytes; each byte of the buffer also
carries the number of the operation it belongs to, which the code does not have
and which no branch reads. Every answer of the indexer comes from a `Server`,
which may choose it from everything exchanged before. -/
namespace GuardSarm.Indexer

abbrev Bytes := List Char

/-- Bytes of the buffer, with the number of the operation each belongs to. -/
abbrev Text := List (Char × Nat)

inductive Request
  | deleteByQuery (index : Bytes) (agentIds : List String)
  | deleteByQueryExceptIds (index : Bytes) (agentId : String) (keepIds : List Bytes)
  | bulk (body : Text)
  | updateByQuery (indexList : List Bytes) (query : String)

/-- What an HTTP request ends with: `onSuccess` or `onError`. -/
inductive Reply
  | success (response : Option Json)
  | error (error : String) (statusCode : Int)

inductive Event
  | getNext (available : Bool)
  | post (request : Request) (reply : Reply)

structure Server where
  available : List Event → Bool
  reply : List Event → Request → Reply

/-- The response of an indexer that reports no errors. -/
def Reply.accepted : Reply := .success (some (.object []))

/-- An indexer that is always there and accepts everything. -/
def Server.accepting : Server := { available := fun _ => true, reply := fun _ _ => .accepted }

/-- An exception of the connector or of the server selector. The last two are no exceptions: a
read past the buffer is undefined, and `retrying` is a request that is still being retried when
the bound on retries is used up. No run goes on from either. -/
inductive ConnectorError
  | connectorException (what : String)
  | noServer
  | outOfBounds
  | retrying
  deriving DecidableEq, Repr

structure DeleteByQuery where
  index : Bytes
  agentIds : List String
  deriving DecidableEq, Repr

structure StaleDelete where
  index : Bytes
  agentId : String
  keepIds : List Bytes
  deriving DecidableEq, Repr

/-- The connector with callbacks of type `κ`. `events` and `appended` record the exchange with the
indexer and the operations appended so far. -/
structure Connector (κ : Type) where
  bulkData : Text
  deleteByQuery : Table DeleteByQuery.index
  staleDeleteByQuery : List StaleDelete
  notify : List κ
  boundaries : List Nat
  shouldNotifyAfterBulk : Bool
  stopping : Bool
  events : List Event
  appended : List Text

def isSafeIndexName (idx : Bytes) : Bool :=
  !idx.isEmpty && idx.all fun c =>
    (decide ('a' ≤ c) && decide (c ≤ 'z')) || (decide ('A' ≤ c) && decide (c ≤ 'Z')) ||
      (decide ('0' ≤ c) && decide (c ≤ '9')) || c == '-' || c == '_' || c == '.' || c == '*'

def hexDigit (n : Nat) : Char := Nat.digitChar (n % 16)

/-- The entry of the escape table for a byte, or the byte itself. -/
def escapeByte (c : Char) : Bytes :=
  if c = '"' then ['\\', '"']
  else if c = '\\' then ['\\', '\\']
  else if c.toNat = 8 then ['\\', 'b']
  else if c.toNat = 12 then ['\\', 'f']
  else if c.toNat = 10 then ['\\', 'n']
  else if c.toNat = 13 then ['\\', 'r']
  else if c.toNat = 9 then ['\\', 't']
  else if c.toNat < 32 then ['\\', 'u', '0', '0', hexDigit (c.toNat / 16), hexDigit c.toNat]
  else [c]

/-- What `appendEscapedId` appends. -/
def escapedId (id : Bytes) : Bytes := id.flatMap escapeByte

/-- The text of an index operation up to its index name. -/
def indexHead (index : Bytes) : Bytes := "\x7b\"index\":\x7b\"_index\":\"".toList ++ index

def indexText (id index data version : Bytes) : Bytes :=
  indexHead index ++
  (if id.isEmpty then [] else "\",\"_id\":\"".toList ++ escapedId id) ++
  (if version.isEmpty then []
    else "\",\"version\":\"".toList ++ version ++ "\",\"version_type\":\"external_gte".toList) ++
  "\"\x7d\x7d".toList ++ ['\n'] ++ data ++ ['\n']

def deleteText (id index : Bytes) : Bytes :=
  "\x7b\"delete\":\x7b\"_index\":\"".toList ++ index ++ "\",\"_id\":\"".toList ++ escapedId id ++
    "\"\x7d\x7d".toList ++ ['\n']

/-- Fixed sizes the code counts for an operation: `FORMATTED_LENGTH`, `VERSION_SIZE` and
`DELETE_FORMATTED_LENGTH`. -/
def formattedLength : Nat := 20 + 8 + 2 + 2 + 1
def versionSize : Nat := 32
def deleteFormattedLength : Nat := 21 + 9 + 2 + 1

namespace Connector

variable {κ : Type}

def log (c : Connector κ) (e : Event) : Connector κ := { c with events := c.events ++ [e] }

abbrev Action (κ α : Type) := EStateM ConnectorError (Connector κ) α

def fail {α : Type} (what : String) : Action κ α := throw (.connectorException what)

def require (condition : Bool) (what : String) : Action κ Unit :=
  if condition then pure () else fail what

section

variable (server : Server)

/-- `m_selector->getNext()`. -/
def getNext : Action κ Unit := do
  let c : Connector κ ← get
  let available := server.available c.events
  modify (·.log (.getNext available))
  unless available do throw .noServer

def post (request : Request) : Action κ Reply := do
  let c : Connector κ ← get
  let reply := server.reply c.events request
  modify (·.log (.post request reply))
  return reply

/-- Both lists that describe the buffer are cleared. -/
def clearBulk : Action κ Unit := modify fun c => { c with bulkData := [], boundaries := [] }

/-- A delete-by-query request; 404, 409 and 429 are passed over. Any other error clears the bulk
data, and not the boundaries. -/
def postDelete (request : Request) : Action κ Unit := do
  match ← post server request with
  | .success _ => pure ()
  | .error error status =>
    if status = 404 ∨ status = 409 ∨ status = 429 then pure ()
    else
      modify fun c => { c with bulkData := [] }
      fail error

/-- The two halves of the buffer at a boundary. -/
def halves (position : Nat) : Action κ (Text × Text) := do
  let c : Connector κ ← get
  if c.bulkData.length < position then throw .outOfBounds
  else return (c.bulkData.take position, c.bulkData.drop position)

/-- The loop of `processBulkChunk`. A chunk that is split is split at positions of the whole
buffer, as the code does. -/
def chunkLoop : Nat → Text → List Nat → Action κ Unit
  | 0, _, _ => throw .retrying
  | fuel + 1, data, boundaries => do
    if (← get).stopping then
      return
    match ← post server (.bulk data) with
    | .success response =>
      unless validateBulkResponse response do
        fail "Bulk chunk operation had indexing failures"
    | .error error status =>
      if status = 413 then
        if 1 < boundaries.length then
          let midPoint := boundaries.length / 2
          let (firstHalf, secondHalf) ← halves (boundaries.getD (midPoint - 1) 0)
          getNext server
          chunkLoop fuel firstHalf (boundaries.take midPoint)
          getNext server
          chunkLoop fuel secondHalf (boundaries.drop midPoint)
        else fail "Single operation exceeds server limits"
      else if status = 409 then fail "Bulk version conflict at request level"
      else if status = 429 then chunkLoop fuel data boundaries
      else fail error

def processBulkChunk (fuel : Nat) (data : Text) (boundaries : List Nat) : Action κ Unit := do
  getNext server
  chunkLoop server fuel data boundaries

/-- A half of the buffer that holds an operation is sent as a chunk. -/
def processHalf (fuel : Nat) (data : Text) (boundaries : List Nat) : Action κ Unit :=
  if !data.isEmpty && !boundaries.isEmpty then processBulkChunk server fuel data boundaries
  else pure ()

def splitAndProcessBulk (fuel : Nat) : Action κ Unit := do
  let c : Connector κ ← get
  let totalOperations := c.boundaries.length
  require (1 < totalOperations) ("Cannot split bulk data with less than two operations. " ++
    "Consider increasing http.max_content_length in GuardSarm-Indexer settings.")
  let midPoint := totalOperations / 2
  let (firstHalf, secondHalf) ← halves (c.boundaries.getD (midPoint - 1) 0)
  processHalf server fuel firstHalf (c.boundaries.take midPoint)
  processHalf server fuel secondHalf (c.boundaries.drop midPoint)
  modify fun c => { c with shouldNotifyAfterBulk := true }
  clearBulk

/-- The callbacks of the bulk request: what `needToRetry` is after it. -/
def onBulkReply (fuel : Nat) (needToRetry : Bool) (reply : Reply) : Action κ Bool := do
  match reply with
  | .success response =>
    if validateBulkResponse response then
      modify fun c => { c with shouldNotifyAfterBulk := true }
      return false
    else
      clearBulk
      fail "Bulk operation had indexing failures"
  | .error error status =>
    if status = 413 then
      if (← get).boundaries.length ≤ 1 then
        clearBulk
        fail "Single operation exceeds server payload limits"
      else
        -- `needToRetry` keeps its value: after a 429 the loop posts the emptied buffer again.
        splitAndProcessBulk server fuel
        return needToRetry
    else if status = 409 then
      clearBulk
      fail "Bulk version conflict at request level"
    else if status = 429 then
      return true
    else
      clearBulk
      fail error

/-- The loop that posts the buffer; it answers whether a stop request ended it. -/
def bulkLoop : Nat → Bool → Action κ Bool
  | 0, _ => throw .retrying
  | fuel + 1, needToRetry => do
    if (← get).stopping then
      return true
    getNext server
    let reply ← post server (.bulk (← get).bulkData)
    if ← onBulkReply server fuel needToRetry reply then
      bulkLoop fuel true
    else
      return false

/-- The delete requests of `processBulk`, the per-index ones in the order of the map. -/
def deleteRequests (c : Connector κ) : List Request :=
  (c.deleteByQuery.rows.insertionSort (·.index ≤ ·.index)).map
      (fun d => .deleteByQuery d.index d.agentIds) ++
    c.staleDeleteByQuery.map fun d => .deleteByQueryExceptIds d.index d.agentId d.keepIds

def hasData (c : Connector κ) : Bool :=
  !c.bulkData.isEmpty || !c.deleteByQuery.rows.isEmpty || !c.staleDeleteByQuery.isEmpty

/-- The end of `processBulk`. -/
def finishBulk (hasDeleteByQuery : Bool) : Action κ Unit :=
  modify fun c =>
    { c with
      shouldNotifyAfterBulk :=
        c.shouldNotifyAfterBulk || (hasDeleteByQuery && c.bulkData.isEmpty)
      bulkData := []
      boundaries := []
      deleteByQuery := .empty
      staleDeleteByQuery := [] }

/-- The buffer is posted if it holds anything. -/
def postBulk (fuel : Nat) : Action κ Bool := do
  if (← get).bulkData.isEmpty then return false
  else bulkLoop server fuel false

def processBulk (fuel : Nat) : Action κ Unit := do
  let c : Connector κ ← get
  require c.hasData "No data to process"
  getNext server
  let requests := c.deleteRequests
  requests.forM (postDelete server)
  if ← postBulk server fuel then
    return
  else
    finishBulk !requests.isEmpty

def write (c : Connector κ) (text : Bytes) : Connector κ :=
  { c with bulkData := c.bulkData ++ text.map (·, c.appended.length) }

/-- The operation just written is complete: its end is a boundary. -/
def close (c : Connector κ) (text : Bytes) : Connector κ :=
  { c with
    boundaries := c.boundaries ++ [c.bulkData.length]
    appended := c.appended ++ [text.map (·, c.appended.length)] }

def appendOperation (text : Bytes) : Action κ Unit := modify fun c => (c.write text).close text

variable (maxBulkSize : Nat)

/-- An operation of the given size would make the buffer too large: it is sent first. -/
def processBulkIfFull (fuel size : Nat) : Action κ Unit := do
  if maxBulkSize < (← get).bulkData.length + size then processBulk server fuel
  else pure ()

def bulkDelete (fuel : Nat) (id index : Bytes) : Action κ Unit := do
  require (isSafeIndexName index) "Unsafe index name"
  processBulkIfFull server maxBulkSize fuel (deleteFormattedLength + index.length + id.length)
  appendOperation (deleteText id index)

/-- A version without an id is refused only after the head of the operation was written. -/
def bulkIndex (fuel : Nat) (id index data version : Bytes) : Action κ Unit := do
  require (isSafeIndexName index) "Unsafe index name"
  processBulkIfFull server maxBulkSize fuel
    (formattedLength + versionSize + index.length + id.length + data.length)
  if !version.isEmpty && id.isEmpty then
    modify (·.write (indexHead index))
    fail "Id must be provided if version value is provided"
  else
    appendOperation (indexText id index data version)

end

/-- The agent is added to the index's query. -/
def queueDelete (index : Bytes) (agentId : String) : Action κ Unit := do
  require (isSafeIndexName index) "Unsafe index name"
  modify fun c =>
    let deleteByQuery := match c.deleteByQuery.find index with
      | none => c.deleteByQuery.insert ⟨index, [agentId]⟩
      | some _ => c.deleteByQuery.updateWhere (fun d => d.index = index)
          (fun d => { d with agentIds := d.agentIds ++ [agentId] }) (fun _ => rfl)
    { c with deleteByQuery }

def deleteByQueryExceptIds (index : Bytes) (agentId : String) (keepIds : List Bytes) :
    Action κ Unit := do
  require (isSafeIndexName index) "Unsafe index name"
  modify fun c =>
    { c with staleDeleteByQuery := c.staleDeleteByQuery ++ [⟨index, agentId, keepIds⟩] }

/-- The loop of `executeUpdateByQuery`. An error and a stop request drop every callback. -/
def updateLoop (server : Server) (indexList : List Bytes) (query : String) :
    Nat → Action κ Unit
  | 0 => throw .retrying
  | fuel + 1 => do
    if (← get).stopping then
      modify fun c => { c with notify := [] }
      return
    getNext server
    match ← post server (.updateByQuery indexList query) with
    | .success _ => modify fun c => { c with shouldNotifyAfterBulk := true }
    | .error error status =>
      if status = 429 then updateLoop server indexList query fuel
      else
        modify fun c => { c with notify := [] }
        fail (if status = 409 then "Update by query version conflict" else error)

def executeUpdateByQuery (server : Server) (fuel : Nat) (indices : List Bytes) (query : String) :
    Action κ Unit := do
  let indexList := indices.filter isSafeIndexName
  if indexList.isEmpty then
    modify fun c => { c with shouldNotifyAfterBulk := true }
  else
    updateLoop server indexList query fuel

def registerNotify (callback : κ) : Action κ Unit :=
  modify fun c => { c with notify := c.notify ++ [callback] }

/-- The callbacks are handed out if the flag is set. -/
def takeCallbacks : Action κ (List κ) := do
  let c : Connector κ ← get
  if c.shouldNotifyAfterBulk then
    modify fun c => { c with notify := [], shouldNotifyAfterBulk := false }
    return c.notify
  else
    return []

/-- Whatever is pending is sent. -/
def processPending (server : Server) (fuel : Nat) : Action κ Unit := do
  if (← get).hasData then processBulk server fuel
  else pure ()

def flush (server : Server) (fuel : Nat) : Action κ (List κ) := do
  modify fun c => { c with shouldNotifyAfterBulk := false }
  processPending server fuel
  takeCallbacks

def invokePendingCallbacks : Action κ (List κ) := takeCallbacks

/-- One pass of the background thread, up to its catch blocks. -/
def timer (server : Server) (fuel : Nat) : Action κ (List κ) := do
  if (← get).hasData then
    processBulk server fuel
    takeCallbacks
  else
    return []

end Connector

end GuardSarm.Indexer
