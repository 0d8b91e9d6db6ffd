import GuardSarm.Lib.Block

/-!
# Binary queue

A circular buffer in a block that grows with the data and may shrink when it
empties. Pointers are offsets in the block; NULL is offset 0 in no block. The
calls are those without `BQUEUE_WAIT`. A result `none` is a copy outside the
block, a `memcpy` of overlapping ranges or a division by a length of 0.
-/

namespace GuardSarm.Bqueue

open Block

/-- `bqueue_t`; `shrinks` is the flag `BQUEUE_SHRINK`. -/
structure Queue (α : Type) where
  memory : List α
  head : Nat
  tail : Nat
  length : Nat
  maxLength : Nat
  shrinks : Bool
  deriving DecidableEq

variable {α : Type}

/-- `bqueue_init`. -/
def bqueueInit (maxLength : Nat) (shrinks : Bool) : Option (Queue α) :=
  if maxLength ≤ 1 then none else some ⟨[], 0, 0, 0, maxLength, shrinks⟩

namespace Queue

/-- `_bqueue_used`. -/
def used (q : Queue α) : Nat :=
  if 0 < q.length then (q.tail + q.length - q.head) % q.length else 0

/-- `_bqueue_empty`. -/
def empty (q : Queue α) : Bool := q.head == q.tail

/-- `_bqueue_trim`. -/
def trim (q : Queue α) : Queue α := { q with memory := [], head := 0, tail := 0, length := 0 }

/-- `_bqueue_expand`. -/
def expand (q : Queue α) (newLength : Nat) (fresh : Nat → α) : Option (Queue α) :=
  let memory := realloc q.memory newLength fresh
  if q.tail < q.head then
    let tailLen := q.tail
    let growth := newLength - q.length
    if tailLen ≤ growth then do
      let memory ← memcpy memory q.length 0 tailLen
      return { q with memory, tail := (q.length + tailLen) % newLength, length := newLength }
    else do
      let memory ← memcpy memory q.length 0 growth
      let memory ← memmove memory 0 growth (tailLen - growth)
      return { q with memory, tail := q.tail - growth, length := newLength }
  else some { q with memory, length := newLength }

/-- `_bqueue_shrink` up to the reallocation. -/
def gather (q : Queue α) (newLength : Nat) : Option (Queue α) :=
  if q.empty then some { q with head := 0, tail := 0 }
  else
    let headLen := q.head
    let tailLen := q.tail
    if headLen < tailLen then
      if newLength ≤ headLen then do
        let memory ← memcpy q.memory 0 q.head (q.tail - q.head)
        return { q with memory, head := 0, tail := q.tail - headLen }
      else if newLength ≤ tailLen then do
        let chunkLen := tailLen - newLength
        let memory ← memcpy q.memory 0 (q.tail - chunkLen) chunkLen
        return { q with memory, tail := chunkLen }
      else some q
    else
      let newHead := q.head - (q.length - newLength)
      let moved :=
        if headLen < newLength then memmove q.memory newHead q.head (q.length - headLen)
        else memcpy q.memory newHead q.head (q.length - headLen)
      do
        let memory ← moved
        return { q with memory, head := newHead }

/-- The reallocation of `_bqueue_shrink`. -/
def cut (q : Queue α) (newLength : Nat) : Queue α :=
  { q with memory := q.memory.take newLength, length := newLength }

/-- `_bqueue_shrink`. -/
def shrink (q : Queue α) (newLength : Nat) : Option (Queue α) := do
  let q ← q.gather newLength
  return q.cut newLength

/-- `_bqueue_insert`. -/
def insert (q : Queue α) (data : List α) : Option (Queue α) := do
  let tailLen := q.tail
  let memory ←
    if tailLen + data.length ≤ q.length then copyIn q.memory q.tail data
    else do
      let chunkLen := q.length - tailLen
      let memory ← copyIn q.memory q.tail (data.take chunkLen)
      copyIn memory 0 (data.drop chunkLen)
  if q.length = 0 then none
  else return { q with memory, tail := (tailLen + data.length) % q.length }

/-- `_bqueue_extract`: the bytes that are written to the buffer. -/
def extract (q : Queue α) (bufferLen : Nat) : Option (List α) :=
  if q.tail < q.head then
    let headLen := q.length - q.head
    if bufferLen < headLen then copyOut q.memory q.head bufferLen
    else do
      let first ← copyOut q.memory q.head headLen
      let second ← copyOut q.memory 0 (min (bufferLen - headLen) q.tail)
      return first ++ second
  else copyOut q.memory q.head (min bufferLen (q.tail - q.head))

/-- What `bqueue_pop` and `bqueue_drop` do to the queue. -/
def advance (q : Queue α) (n : Nat) : Option (Queue α) :=
  if q.length = 0 then none
  else
    let q := { q with head := (q.head + n) % q.length }
    if q.empty then some q.trim
    else if q.shrinks ∧ q.used < q.length / 2 then q.shrink (q.length / 2)
    else some q

/-- `bqueue_push`. -/
def push (q : Queue α) (data : List α) (fresh : Nat → α) : Option (Int × Queue α) :=
  if q.maxLength ≤ data.length then some (-1, q)
  else if q.maxLength ≤ data.length + q.used then some (-1, q)
  else do
    let grown ←
      if q.length ≤ data.length + q.used then q.expand (data.length + q.used + 1) fresh
      else some q
    let after ← grown.insert data
    return (0, after)

/-- `bqueue_pop`. -/
def pop (q : Queue α) (length : Nat) : Option (List α × Queue α) :=
  if q.empty then some ([], q)
  else do
    let written ← q.extract length
    let after ← q.advance written.length
    return (written, after)

/-- `bqueue_peek`. -/
def peek (q : Queue α) (length : Nat) : Option (List α) :=
  if q.empty then some [] else q.extract length

/-- `bqueue_drop`. -/
def drop (q : Queue α) (length : Nat) : Option (Int × Queue α) :=
  if length ≤ q.used then do
    let after ← q.advance length
    return (0, after)
  else some (-1, q)

/-- `bqueue_clear`. -/
def clear (q : Queue α) : Queue α := q.trim

end Queue

/-! ## Sequences of calls -/

/-- The calls; a push comes with what the allocator returns if the block grows. -/
inductive Call (α : Type) where
  | push (data : List α) (fresh : Nat → α)
  | pop (length : Nat)
  | peek (length : Nat)
  | drop (length : Nat)
  | clear

/-- A returned number, or the bytes in the buffer. -/
inductive Answer (α : Type) where
  | code (result : Int)
  | bytes (written : List α)
  | done
  deriving DecidableEq

def perform (q : Queue α) : Call α → Option (Answer α × Queue α)
  | .push data fresh => (q.push data fresh).map fun r => (.code r.1, r.2)
  | .pop length => (q.pop length).map fun r => (.bytes r.1, r.2)
  | .peek length => (q.peek length).map fun written => (.bytes written, q)
  | .drop length => (q.drop length).map fun r => (.code r.1, r.2)
  | .clear => some (.done, q.clear)

def run : Queue α → List (Call α) → Option (List (Answer α) × Queue α)
  | q, [] => some ([], q)
  | q, call :: calls => do
    let (answer, q) ← perform q call
    let (answers, q) ← run q calls
    return (answer :: answers, q)

/-! The same calls on a byte string that may have fewer than `maxLength` bytes. -/

def Spec.perform (maxLength : Nat) (s : List α) : Call α → Answer α × List α
  | .push data _ =>
    if s.length + data.length ≤ maxLength - 1 then (.code 0, s ++ data) else (.code (-1), s)
  | .pop length => (.bytes (s.take length), s.drop length)
  | .peek length => (.bytes (s.take length), s)
  | .drop length => if length ≤ s.length then (.code 0, s.drop length) else (.code (-1), s)
  | .clear => (.done, [])

def Spec.run (maxLength : Nat) : List α → List (Call α) → List (Answer α) × List α
  | s, [] => ([], s)
  | s, call :: calls =>
    ((Spec.perform maxLength s call).1 :: (run maxLength (Spec.perform maxLength s call).2 calls).1,
      (run maxLength (Spec.perform maxLength s call).2 calls).2)

end GuardSarm.Bqueue
