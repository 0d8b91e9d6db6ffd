import Mathlib

/-! The messages of the inventory synchronization schema. A flatbuffer is taken
as the table it was built from; a string or vector that may be absent is an
`Option`. -/
namespace GuardSarm.Inventory

inductive Mode
  | moduleFull
  | moduleDelta
  | moduleCheck
  | metadataDelta
  | metadataCheck
  | groupDelta
  | groupCheck
  deriving DecidableEq, Repr

inductive Operation
  | upsert
  | delete
  deriving DecidableEq, Repr

inductive Status
  | ok
  | error
  | offline
  | checksumMismatch
  | processing
  deriving DecidableEq, Repr

/-- The schema's `Option`. -/
inductive SyncOption
  | sync
  | vdFirst
  | vdSync
  deriving DecidableEq, Repr

structure DataValue where
  seq : Nat
  session : Nat
  operation : Operation
  id : Option String
  index : Option String
  version : Nat
  data : Option String
  deriving DecidableEq, Repr

structure DataContext where
  seq : Nat
  session : Nat
  id : Option String
  index : Option String
  data : Option String
  deriving DecidableEq, Repr

structure DataClean where
  seq : Nat
  session : Nat
  index : Option String
  deriving DecidableEq, Repr

structure ChecksumModule where
  session : Nat
  index : Option String
  checksum : Option String
  deriving DecidableEq, Repr

/-- The fields of a Start that decide how its session is admitted and handled. The size is the
schema's 64-bit integer. -/
structure Start where
  moduleName : Option String
  mode : Mode
  size : UInt64
  index : List String
  option : SyncOption
  agentId : Option String
  deriving DecidableEq, Repr

/-- What the manager sends to an agent; every message names the agent and the module. -/
inductive Answer
  | startAck (status : Status) (agentId : String) (session : Nat) (moduleName : String)
  | endAck (status : Status) (agentId : String) (session : Nat) (moduleName : String)
  | reqRet (agentId : String) (session : Nat) (moduleName : String) (seq : List (Nat × Nat))
  deriving DecidableEq, Repr

end GuardSarm.Inventory
