import GuardSarm.Inventory.Completion
import GuardSarm.Inventory.Indexing
import GuardSarm.Lib.Steps

/-! The manager's side of inventory synchronization. Workers handle messages, one
thread indexes the sessions that are complete, the connector's own thread flushes,
and a thread removes sessions that timed out. A step of the model is what a thread
does between two points where another may come in: a call on one session, or one
operation on the shared tables. A context is shared by its session, by the queue and
by callbacks, and may outlive the session; it is named by the number of its object. -/
namespace GuardSarm.Inventory

open Indexer (Server Connector ConnectorError)

/-- The threads that run a list of operations; `admission` is the worker that holds the session
table to open a session. -/
inductive Thread
  | indexer
  | timer
  | sessionTimeout
  | admission
  deriving DecidableEq, Repr

/-- An operation on the shared state, made for a session object or for the number of a session. -/
inductive Op
  | disown (object : Nat)
  | unlockAgent (object : Nat) (agentId : String)
  | unlockIfOwned (object : Nat) (agentId : String) (reset : Bool)
  | sendEndAck (status : Status) (object : Nat)
  | deleteByPrefix (session : Nat)
  | eraseSession (session : Nat)
  | createSession (sessionId : Nat) (start : Start)
  | releaseSessions
  deriving DecidableEq, Repr

/-- Where the indexer thread is in its action for a session object. From `scan` to `unlock` it
holds the connector; `pending` says that something was enqueued. -/
inductive Phase
  | idle
  | lock (object : Nat)
  | own (object : Nat)
  | flush (object : Nat)
  | wait (object : Nat)
  | handle (object : Nat)
  | scan (object : Nat) (pending : Bool)
  | finish (object : Nat) (pending : Bool)
  | unlock
  | invoke
  deriving DecidableEq, Repr

def Phase.holdsConnector : Phase → Bool
  | .scan _ _ | .finish _ _ | .unlock => true
  | _ => false

structure Live where
  id : Nat
  object : Nat
  deriving DecidableEq, Repr

/-- An answer, with the session object it was sent for. -/
structure Sent where
  object : Option Nat
  answer : Answer
  deriving DecidableEq, Repr

/-- A feed-update scan of an agent, with what `lockAgent` answered it. -/
structure FeedScan where
  agentId : String
  locked : Bool
  deriving DecidableEq, Repr

/-- `objects` holds every session object built so far, `allocated` of them. `admitting` are the
Starts that passed the lock and availability checks; `batches` are the rests of the batches that
workers are in. -/
structure Facade where
  maxSessions : Nat
  dataValueQuotaRemaining : Nat
  agentSessions : Table Live.id
  objects : Nat → AgentSession
  allocated : Nat
  dataStore : DataStore
  blockedAgents : Finset String
  allAgentsLocked : Bool
  activeVDFirstScans : Finset String
  indexerQueue : List Response
  indexerConnector : Connector Notify
  responses : List Sent
  admitting : List Start
  batches : List (List (Option DataValue))
  exclusive : Option Thread
  todo : Thread → List Op
  phase : Phase
  scans : List FeedScan

/-- Whatever a message to a session can be, apart from a Start and a batch. -/
inductive Message
  | dataValue (data : DataValue)
  | dataClean (data : DataClean)
  | dataContext (data : DataContext)
  | checksumModule (data : ChecksumModule)
  | endSession (session : Nat)
  deriving DecidableEq, Repr

def Message.session : Message → Nat
  | .dataValue data => data.session
  | .dataClean data => data.session
  | .dataContext data => data.session
  | .checksumModule data => data.session
  | .endSession session => session

def Message.call : Message → Call
  | .dataValue data => .handleData (some data) (.dataValue data)
  | .dataClean data => .handleDataClean (some data)
  | .dataContext data => .handleDataContext (some data) (.dataContext data)
  | .checksumModule data => .handleChecksumModule (some data)
  | .endSession _ => .handleEnd

/-- A value of a batch is stored as a message of its own, with absent fields empty. -/
def reserialize (data : DataValue) : DataValue :=
  { data with
    id := some (data.id.getD "")
    index := some (data.index.getD "")
    data := some (data.data.getD "") }

namespace Facade

def context (f : Facade) (object : Nat) : Context := (f.objects object).context

def find (f : Facade) (session : Nat) : Option Nat := (f.agentSessions.find session).map (·.object)

def send (f : Facade) (object : Option Nat) (answers : List Answer) : Facade :=
  { f with responses := f.responses ++ answers.map (⟨object, ·⟩) }

/-- A call on the live session with the given number; an exception is only logged. -/
def handle (f : Facade) (session : Nat) (call : Call) : Facade :=
  match f.find session with
  | none => f
  | some object =>
    let s := SessionState.after ⟨f.objects object, f.dataStore, [], []⟩ call
    { f with
      objects := Function.update f.objects object s.session
      dataStore := s.store
      indexerQueue := f.indexerQueue ++ s.indexerQueue.map ({ · with context := object })
      responses := f.responses ++ s.responses.map (⟨some object, ·⟩) }

def handleBatchItem (f : Facade) : Option DataValue → Facade
  | none => f
  | some data => f.handle data.session (.handleData (some data) (.dataValue (reserialize data)))

/-- The state with the lock taken, and whether the agent was free. An empty id is all agents. -/
def lockAgent (f : Facade) (agentId : String) : Bool × Facade :=
  if agentId.isEmpty then (!f.allAgentsLocked, { f with allAgentsLocked := true })
  else (decide (agentId ∉ f.blockedAgents),
    { f with blockedAgents := insert agentId f.blockedAgents })

def unlockAgent (f : Facade) (agentId : String) : Facade :=
  if agentId.isEmpty then { f with allAgentsLocked := false }
  else { f with blockedAgents := f.blockedAgents.erase agentId }

def isAgentLocked (f : Facade) (agentId : String) (allowVDGlobalExemption : Bool) : Bool :=
  decide (agentId ∈ f.blockedAgents) || (f.allAgentsLocked && !allowVDGlobalExemption)

def restoreQuota (f : Facade) (size : Nat) : Facade :=
  if 0 < size then
    { f with dataValueQuotaRemaining := (f.dataValueQuotaRemaining + size) % 2 ^ 64 }
  else f

def eraseSession (f : Facade) (session : Nat) : Facade :=
  match f.find session with
  | none => f
  | some object =>
    { f with agentSessions := f.agentSessions.deleteWhere (·.id = session) }.restoreQuota
      (f.objects object).declaredSize

/-- A Start is turned down. The session number sent is -1. -/
def reject (f : Facade) (status : Status) (start : Start) : Facade :=
  f.send none [.startAck status (start.agentId.getD "") (2 ^ 64 - 1) (start.moduleName.getD "")]

/-- A Start arrives: the checks made before the session table is taken. -/
def receiveStart (f : Facade) (start : Start) (isAvailable : Bool) : Facade :=
  let isVDModule := start.moduleName.getD "" == "syscollector_vd"
  if f.isAgentLocked (start.agentId.getD "") isVDModule then f.reject .error start
  else if !isAvailable then f.reject .offline start
  else { f with admitting := f.admitting ++ [start] }

/-- The live sessions whose context satisfies a condition. -/
def sessionsWhere (f : Facade) (p : Live → Context → Bool) : List Live :=
  f.agentSessions.select fun s => p s (f.context s.object)

/-- What `cleanupStaleSessionForAgentModule` does. The id compared and unlocked is the one of the
Start, not the padded one. -/
def cleanupStale (f : Facade) (agentId moduleName : String) : List Op :=
  (f.sessionsWhere fun _ c => c.agentId == agentId && c.moduleName == moduleName).flatMap fun s =>
    [.unlockIfOwned s.object agentId false, .deleteByPrefix s.id, .eraseSession s.id]

/-- What `cleanupZombieSessions` does. -/
def cleanupZombies (f : Facade) (agentId : String) (excludeSessionId : Nat) : List Op :=
  (f.sessionsWhere fun s c =>
    s.id != excludeSessionId && (agentId.isEmpty || c.agentId == agentId)).flatMap fun s =>
      [.deleteByPrefix s.id, .eraseSession s.id]

def getActiveSessionCount (f : Facade) (agentId : String) (excludeSessionId : Nat) : Nat :=
  if agentId.isEmpty then
    if excludeSessionId = 0 then f.agentSessions.rows.length
    else f.agentSessions.rows.length - if (f.find excludeSessionId).isSome then 1 else 0
  else (f.sessionsWhere fun s c => c.agentId == agentId && s.id != excludeSessionId).length

/-- The object that the constructor built becomes a live session. -/
def addSession (f : Facade) (sessionId : Nat) (session : AgentSession) : Facade :=
  { f with
    agentSessions := f.agentSessions.insert ⟨sessionId, f.allocated⟩
    objects := Function.update f.objects f.allocated session
    allocated := f.allocated + 1 }

/-- The session is built; an exception of its constructor gives the quota back. -/
def constructSession (f : Facade) (sessionId : Nat) (start : Start) : Facade :=
  match (AgentSession.create sessionId (some start)).run [] with
  | .ok session answers => (f.addSession sessionId session).send (some f.allocated) answers
  | .error _ answers => (f.restoreQuota start.size.toNat).send none answers

/-- The rest of a Start, after stale sessions were removed: the limits, and the new session. -/
def createSession (f : Facade) (sessionId : Nat) (start : Start) : Facade :=
  if f.maxSessions ≤ f.agentSessions.rows.length then f.reject .offline start
  else if f.dataValueQuotaRemaining < start.size.toNat then f.reject .offline start
  else
    let reserved := { f with
      dataValueQuotaRemaining := f.dataValueQuotaRemaining - start.size.toNat }
    if (f.find sessionId).isSome then reserved.restoreQuota start.size.toNat
    else reserved.constructSession sessionId start

def setOwnsAgentLock (f : Facade) (object : Nat) (owns : Bool) : Facade :=
  { f with
    objects := Function.update f.objects object
      { f.objects object with context := { f.context object with ownsAgentLock := owns } } }

def sendEndAck (f : Facade) (status : Status) (object : Nat) : Facade :=
  let context := f.context object
  f.send (some object) [.endAck status context.agentId context.sessionId context.moduleName]

def setTodo (f : Facade) (t : Thread) (ops : List Op) : Facade :=
  { f with todo := Function.update f.todo t ops }

/-- A thread may change the session map: it holds the map, or nobody does. -/
def mayErase (f : Facade) (t : Thread) : Bool :=
  f.exclusive == some t || (f.exclusive.isNone && f.batches.isEmpty)

/-- A lock that is owned is given back; the catch blocks also note that it is no longer owned. -/
def unlocking (object : Nat) (agentId : String) (reset : Bool) : List Op :=
  (if reset then [.disown object] else []) ++ [.unlockAgent object agentId]

/-- One operation of a thread, `rest` being what the thread does after it. -/
def perform (f : Facade) (t : Thread) (rest : List Op) : Op → Facade
  | .disown object => (f.setOwnsAgentLock object false).setTodo t rest
  | .unlockAgent _ agentId => (f.unlockAgent agentId).setTodo t rest
  | .unlockIfOwned object agentId reset =>
    f.setTodo t <|
      if (f.context object).ownsAgentLock then unlocking object agentId reset ++ rest else rest
  | .sendEndAck status object => (f.sendEndAck status object).setTodo t rest
  | .deleteByPrefix session =>
    { f with dataStore := f.dataStore.deleteByPrefix (decimal session) }.setTodo t rest
  | .eraseSession session => (f.eraseSession session).setTodo t rest
  | .createSession sessionId start => (f.createSession sessionId start).setTodo t rest
  | .releaseSessions => { f with exclusive := none }.setTodo t rest

end Facade

/-- What the rest of the system decides about a step of the indexer thread: the indexer's answers,
whether the wait for other sessions timed out, the checksums read, and the scanner. -/
structure Input where
  server : Server
  fuel : Nat
  timedOut : Bool
  managerChecksum : Nat → Option String
  scanner : Scanner

/-- What a call of the connector ends with. None if it is still retrying, or read past the
buffer: there is no step then. -/
def ended {α : Type} (result : EStateM.Result ConnectorError (Connector Notify) α) :
    Option (Option α × Connector Notify) :=
  match result with
  | .ok a c => some (some a, c)
  | .error .retrying _ | .error .outOfBounds _ => none
  | .error _ c => some (none, c)

/-- The modes that take the agent's lock. -/
def Mode.locksAgent : Mode → Bool
  | .metadataDelta | .metadataCheck | .groupDelta | .groupCheck => true
  | .moduleFull | .moduleDelta | .moduleCheck => false

namespace Facade

/-- The body of a callback. -/
def notifyOps (f : Facade) : Notify → List Op
  | .updated object =>
    [.disown object, .unlockAgent object (f.context object).agentId, .sendEndAck .ok object,
      .eraseSession (f.context object).sessionId]
  | .indexed object =>
    [.sendEndAck .ok object, .deleteByPrefix (f.context object).sessionId,
      .eraseSession (f.context object).sessionId]

/-- The answer to a session, and the removal of its data and of the session. -/
def conclude (f : Facade) (status : Status) (object : Nat) : List Op :=
  [.sendEndAck status object, .deleteByPrefix (f.context object).sessionId,
    .eraseSession (f.context object).sessionId]

/-- The catch blocks of the indexer thread. -/
def caught (f : Facade) (object : Nat) : Facade :=
  { f with phase := .invoke }.setTodo .indexer
    (.unlockIfOwned object (f.context object).agentId true :: f.conclude .error object)

/-- The next session of the queue; it is passed over if it is no longer live. -/
def takeResponse (f : Facade) : Option Facade :=
  match f.indexerQueue with
  | [] => none
  | response :: rest =>
    let object := response.context
    let taken := { f with indexerQueue := rest }
    some <| match f.find (f.context object).sessionId with
      | none => taken
      | some _ =>
        { taken with
          phase := if (f.context object).mode.locksAgent then .lock object else .handle object }

def flushPending (f : Facade) (input : Input) (object : Nat) : Option Facade :=
  (ended ((Connector.flush input.server input.fuel).run f.indexerConnector)).map
    fun (callbacks, c) =>
      let flushed := { f with indexerConnector := c }
      match callbacks with
      | some callbacks => { flushed with phase := .wait object }.setTodo .indexer
          (callbacks.flatMap f.notifyOps)
      | none => flushed.caught object

/-- The other sessions of the agent have ended, or the wait for them timed out. -/
def waitForAgentSessions (f : Facade) (input : Input) (object : Nat) : Option Facade :=
  let context := f.context object
  if f.getActiveSessionCount context.agentId context.sessionId = 0 then
    some { f with phase := .handle object }
  else if input.timedOut && f.batches.isEmpty then
    some ({ f with phase := .handle object, exclusive := some .indexer }.setTodo .indexer
      (f.cleanupZombies context.agentId context.sessionId ++ [Op.releaseSessions]))
  else none

/-- The branch for the session's mode, under the connector's mutex. -/
def handleSession (env : Environment) (f : Facade) (input : Input) (object : Nat) :
    Option Facade :=
  let context := f.context object
  if context.mode.locksAgent then
    (ended ((updateSession env input.server input.fuel context object).run
      f.indexerConnector)).map fun (returned, c) =>
        let updated := { f with indexerConnector := c }
        match returned with
        | some _ => { updated with phase := .unlock }
        | none => updated.caught object
  else if context.mode = .moduleCheck then
    some ({ f with phase := .unlock }.setTodo .indexer
      [.sendEndAck (moduleCheck context input.managerChecksum) object,
        .eraseSession context.sessionId])
  else
    (ended ((indexSession env input.server input.fuel context
      (f.dataStore.seek (decimal context.sessionId ++ ['_']))).run f.indexerConnector)).map
        fun (pending, c) =>
          let indexed := { f with indexerConnector := c }
          match pending with
          | some pending => { indexed with phase := .scan object pending }
          | none => indexed.caught object

/-- The vulnerability scan. An exception is answered and ends the session, and the thread goes
on as if there had been none. An agent is entered in `activeVDFirstScans` before its first scan
and taken out after it, however the scan ends. -/
def scanSession (f : Facade) (input : Input) (object : Nat) (pending : Bool) : Facade :=
  let scanned := { f with phase := .finish object pending }
  if runsScanner input.scanner (f.context object) f.activeVDFirstScans && input.scanner.raises then
    scanned.setTodo .indexer (f.conclude .error object)
  else scanned

/-- A session that enqueued something is answered by a callback, any other at once. -/
def finishSession (f : Facade) (object : Nat) (pending : Bool) : Facade :=
  if pending then
    { f with
      phase := .unlock
      indexerConnector := { f.indexerConnector with
        notify := f.indexerConnector.notify ++ [.indexed object] } }
  else { f with phase := .unlock }.setTodo .indexer (f.conclude .ok object)

def invokePendingCallbacks (f : Facade) : Option Facade :=
  (ended (Connector.invokePendingCallbacks.run f.indexerConnector)).map fun (callbacks, c) =>
    { f with phase := .idle, indexerConnector := c }.setTodo .indexer
      ((callbacks.getD []).flatMap f.notifyOps)

/-- The indexer thread's next step when it has no operations left. -/
def index (env : Environment) (f : Facade) (input : Input) : Option Facade :=
  match f.phase with
  | .idle => if f.exclusive.isNone then f.takeResponse else none
  | .lock object => some { (f.lockAgent (f.context object).agentId).2 with phase := .own object }
  | .own object => some { f.setOwnsAgentLock object true with phase := .flush object }
  | .flush object => f.flushPending input object
  | .wait object => if f.exclusive.isNone then f.waitForAgentSessions input object else none
  | .handle object => f.handleSession env input object
  | .scan object pending => some (f.scanSession input object pending)
  | .finish object pending => some (f.finishSession object pending)
  | .unlock => some { f with phase := .invoke }
  | .invoke => f.invokePendingCallbacks

/-- One pass of the connector's thread; an exception is only logged. -/
def timer (f : Facade) (server : Server) (fuel : Nat) : Option Facade :=
  (ended ((Connector.timer server fuel).run f.indexerConnector)).map fun (callbacks, c) =>
    { f with indexerConnector := c }.setTodo .timer ((callbacks.getD []).flatMap f.notifyOps)

def timeOut (f : Facade) (session object : Nat) : Facade :=
  { f with exclusive := some .sessionTimeout }.setTodo .sessionTimeout
    [.unlockIfOwned object (f.context object).agentId false, .deleteByPrefix session,
      .eraseSession session, .releaseSessions]

/-- The worker takes the session table for a Start that passed the checks. -/
def openSession (f : Facade) (start : Start) (sessionId : Nat) : Facade :=
  { f with
    admitting := f.admitting.erase start
    exclusive := some .admission }.setTodo .admission
      (f.cleanupStale (start.agentId.getD "") (start.moduleName.getD "") ++
        [Op.createSession sessionId start, Op.releaseSessions])

/-- The command that removes an agent's data from the indexer. -/
def deleteAgent (f : Facade) (agentId : String) (isAvailable : Bool) : Facade :=
  if agentId.isEmpty || !isAvailable then f
  else
    match (Connector.queueDelete "guardsarm-states-*".toList agentId).run f.indexerConnector with
    | .ok _ c | .error _ c => { f with indexerConnector := c }

end Facade

/-- A step of the manager. -/
inductive Act
  | message (message : Message)
  | dataBatch (values : List (Option DataValue))
  | batchItem (batch : Nat)
  | start (start : Start) (isAvailable : Bool)
  | openSession (start : Start) (sessionId : UInt64)
  | deleteAgent (agentId : String) (isAvailable : Bool)
  | perform (thread : Thread)
  | index (input : Input)
  | timer (server : Server) (fuel : Nat)
  | timeOut (session : Nat)
  | lockScan (agentId : String)
  | unlockScan (scan : FeedScan)
  | stop

namespace Facade

def initial (maxSessions quota : Nat) : Facade where
  maxSessions
  dataValueQuotaRemaining := quota
  agentSessions := .empty
  objects := fun _ => .ofStart 0 ⟨none, .moduleFull, 0, [], .sync, none⟩
  allocated := 0
  dataStore := .empty
  blockedAgents := ∅
  allAgentsLocked := false
  activeVDFirstScans := ∅
  indexerQueue := []
  indexerConnector :=
    { bulkData := [], deleteByQuery := .empty, staleDeleteByQuery := [], notify := []
      boundaries := [], shouldNotifyAfterBulk := false, stopping := false, events := []
      appended := [] }
  responses := []
  admitting := []
  batches := []
  exclusive := none
  todo := fun _ => []
  phase := .idle
  scans := []

/-- The worker that is in the given batch handles its next value. -/
def batchItem (f : Facade) (batch : Nat) : Option Facade :=
  match f.batches[batch]? with
  | none => none
  | some [] => some { f with batches := f.batches.eraseIdx batch }
  | some (value :: values) =>
    some ({ f with batches := f.batches.set batch values }.handleBatchItem value)

/-- The next operation of a thread. -/
def performNext (f : Facade) (t : Thread) : Option Facade :=
  match f.todo t with
  | [] => none
  | .eraseSession session :: rest =>
    if f.mayErase t then some (f.perform t rest (.eraseSession session)) else none
  | op :: rest => some (f.perform t rest op)

/-- The state an action leads to, if it can be taken. The guards are the mutexes: a worker shares
the session map, an admission or a time-out excludes everyone else from it, and the connector is
held by one thread at a time. -/
def step (env : Environment) (f : Facade) : Act → Option Facade
  | .message message =>
    if f.exclusive.isNone then some (f.handle message.session message.call) else none
  | .dataBatch values =>
    if f.exclusive.isNone then some { f with batches := f.batches ++ [values] } else none
  | .batchItem batch => f.batchItem batch
  | .start start isAvailable => some (f.receiveStart start isAvailable)
  | .openSession start sessionId =>
    if start ∈ f.admitting ∧ f.exclusive = none ∧ f.batches = [] then
      some (f.openSession start sessionId.toNat)
    else none
  | .deleteAgent agentId isAvailable =>
    if f.phase.holdsConnector then none else some (f.deleteAgent agentId isAvailable)
  | .perform thread => f.performNext thread
  | .index input => if f.todo .indexer = [] then f.index env input else none
  | .timer server fuel =>
    if f.todo .timer = [] ∧ f.phase.holdsConnector = false then f.timer server fuel else none
  | .timeOut session =>
    if f.exclusive = none ∧ f.batches = [] then (f.find session).map (f.timeOut session) else none
  | .lockScan agentId =>
    let (locked, f) := f.lockAgent agentId
    some { f with scans := f.scans ++ [⟨agentId, locked⟩] }
  | .unlockScan scan =>
    if scan ∈ f.scans then
      let f := { f with scans := f.scans.erase scan }
      some (if scan.locked then f.unlockAgent scan.agentId else f)
    else none
  | .stop => some (f.lockAgent "").2

end Facade

end GuardSarm.Inventory
