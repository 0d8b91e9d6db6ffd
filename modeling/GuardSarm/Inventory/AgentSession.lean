import GuardSarm.Inventory.DataStore
import GuardSarm.Inventory.GapSet

/-! One data ingestion session. A handler works on the session and on what the
session holds references to: the store, the indexer queue and the response
dispatcher. An exception keeps what was done before it was raised. -/
namespace GuardSarm.Inventory

def isInventoryStateIndex (idx : String) : Bool :=
  "guardsarm-states-".toList.isPrefixOf idx.toList &&
    decide ("guardsarm-states-".utf8ByteSize < idx.utf8ByteSize)

/-- The modes that send no data messages. -/
def Mode.mayBeEmpty : Mode → Bool
  | .metadataDelta | .metadataCheck | .groupDelta | .groupCheck | .moduleCheck => true
  | .moduleFull | .moduleDelta => false

structure Context where
  mode : Mode
  option : SyncOption
  sessionId : Nat
  moduleName : String
  indices : List String
  agentId : String
  ownsAgentLock : Bool
  checksum : String
  checksumIndex : String
  dataCleanIndices : Finset String
  deriving DecidableEq

/-- A checksum that is present is taken; an index only if it names an inventory state index. -/
def Context.withChecksum (context : Context) (data : ChecksumModule) : Context :=
  { context with
    checksum := data.checksum.getD context.checksum
    checksumIndex := (data.index.filter isInventoryStateIndex).getD context.checksumIndex }

structure AgentSession where
  gapSet : GapSet
  context : Context
  endReceived : Bool
  endEnqueued : Bool
  declaredSize : Nat
  deriving DecidableEq

inductive ResponseStatus
  | ok
  | error
  deriving DecidableEq, Repr

/-- An element of the indexer queue. The context is shared with the session, so the element
names the session. -/
structure Response where
  status : ResponseStatus
  context : Nat
  deriving DecidableEq, Repr

namespace AgentSession

/-- Agent ids are stored with at least three digits. -/
def padAgentId (agentId : String) : String :=
  if agentId.utf8ByteSize < 3 then "".pushn '0' (3 - agentId.utf8ByteSize) ++ agentId
  else agentId

/-- The session that the constructor builds for a Start. -/
def ofStart (sessionId : Nat) (data : Start) : AgentSession where
  gapSet := .ofSize data.size.toNat
  context :=
    { mode := data.mode
      option := data.option
      sessionId
      moduleName := data.moduleName.getD ""
      indices := data.index.filter isInventoryStateIndex
      agentId := padAgentId (data.agentId.getD "")
      ownsAgentLock := false
      checksum := ""
      checksumIndex := ""
      dataCleanIndices := ∅ }
  endReceived := false
  endEnqueued := false
  declaredSize := data.size.toNat

/-- The constructor; its state is the list of answers sent. -/
def create (sessionId : Nat) (data : Option Start) :
    EStateM SessionError (List Answer) AgentSession := do
  let some data := data | throw (.agentSessionException "Invalid data")
  if data.size = 0 && !data.mode.mayBeEmpty then
    modify (· ++ [.startAck .error (data.agentId.getD "") sessionId (data.moduleName.getD "")])
    throw (.agentSessionException "Invalid size")
  let session := ofStart sessionId data
  modify (· ++ [.startAck .ok session.context.agentId sessionId session.context.moduleName])
  return session

end AgentSession

structure SessionState where
  session : AgentSession
  store : DataStore
  indexerQueue : List Response
  responses : List Answer

abbrev Handler := EStateM SessionError SessionState Unit

namespace AgentSession

def observe (seq : Nat) : Handler := do
  let s ← get
  match s.session.gapSet.observe seq with
  | .ok gapSet => set { s with session := { s.session with gapSet } }
  | .error e => throw e

def push : Handler :=
  modify fun s =>
    { s with
      indexerQueue := s.indexerQueue ++ [⟨.ok, s.session.context.sessionId⟩]
      session := { s.session with endEnqueued := true } }

/-- The end of each data handler. -/
def pushIfComplete : Handler := do
  let s ← get
  if s.session.endReceived && !s.session.endEnqueued then
    if s.session.gapSet.empty then
      push

def send (answer : Answer) : Handler :=
  modify fun s => { s with responses := s.responses ++ [answer] }

def handleData (data : Option DataValue) (dataRaw : Payload) : Handler := do
  let some data := data | throw (.agentSessionException "Invalid data on handleData")
  if (← get).session.declaredSize ≤ data.seq then
    throw (.outOfRange "Sequence number out of declared size bounds")
  modify fun s => { s with store := s.store.put (dataKey data.session data.seq) dataRaw }
  observe data.seq
  pushIfComplete

def handleChecksumModule (data : Option ChecksumModule) : Handler := do
  let some data := data | throw (.agentSessionException "Invalid data on handleChecksumModule")
  let s ← get
  if s.session.endEnqueued then
    return
  set { s with session := { s.session with context := s.session.context.withChecksum data } }

def handleDataContext (data : Option DataContext) (dataRaw : Payload) : Handler := do
  let some data := data | throw (.agentSessionException "Invalid data on handleDataContext")
  if (← get).session.declaredSize ≤ data.seq then
    throw (.outOfRange "Sequence number out of declared size bounds")
  modify fun s => { s with store := s.store.put (contextKey data.session data.seq) dataRaw }
  observe data.seq
  pushIfComplete

def handleDataClean (data : Option DataClean) : Handler := do
  let some data := data | throw (.agentSessionException "Invalid data on handleDataClean")
  -- The bound is only logged here: `observe` is what rejects the number.
  observe data.seq
  match data.index with
  | some index =>
    if isInventoryStateIndex index then
      modify fun s =>
        { s with session.context.dataCleanIndices :=
            insert index s.session.context.dataCleanIndices }
  | none => pure ()
  pushIfComplete

def handleEnd : Handler := do
  modify fun s => { s with session := { s.session with endReceived := true } }
  let s ← get
  let context := s.session.context
  if s.session.endEnqueued then
    send (.endAck .processing context.agentId context.sessionId context.moduleName)
  else if s.session.gapSet.empty then
    push
    send (.endAck .processing context.agentId context.sessionId context.moduleName)
  else
    send (.reqRet context.agentId context.sessionId context.moduleName s.session.gapSet.ranges)

end AgentSession

end GuardSarm.Inventory
