import GuardSarm.Lib.Steps
import GuardSarm.Shared.BatchRing

/-!
# Batch queue

Producers put items into the queues of agents, one consumer drains the agents of
the ring in turn, and agents can be dropped. A step is what a thread does from the
first mutex it takes to the last one it releases: a thread that takes the mutex of
a queue under `ring_mu` and then releases `ring_mu` still holds the queue that it
touches. The atomic counter is read and changed in steps of its own. The agent
index is the list of its slots; a slot is at an address that the allocator chose
among those not in use. A step that is not enabled changes nothing, and a step
`none` follows a dangling pointer or never ends.

Items carry the number of their push. The state records the items pushed, whose
enqueues return 0, those consumed and those disposed of by drops, and which agents
were drained and dropped.
-/

namespace GuardSarm.BatchQueue

/-- An item, with the number of its push among all pushes. -/
structure Item (Key Data : Type) where
  seq : Nat
  key : Key
  data : Data
  deriving DecidableEq

/-- `w_rr_agent_slot_t` without the fields of the ring. -/
structure Slot (Key Data : Type) where
  addr : Nat
  key : Key
  queue : List (Item Key Data)
  deriving DecidableEq

/-- Calls of `batch_queue_enqueue_ex` in progress: counted and within the limit,
about to take its count back, or between its push and its ring update. -/
inductive Enqueue (Key Data : Type) where
  | counted (key : Key) (data : Data)
  | refused (data : Data)
  | pushed (key : Key) (slot : Nat)
  deriving DecidableEq

/-- The detached chain of the consumer and the number of items consumed from it. -/
structure Drain (Key Data : Type) where
  chain : List (Item Key Data)
  drained : Nat
  deriving DecidableEq

/-- Calls of `batch_queue_drop_agent` that have taken their slot out of ring and
index, with what is left to dispose of and to subtract. -/
structure Drop (Key Data : Type) where
  slot : Nat
  chain : List (Item Key Data)
  count : Option Nat
  deriving DecidableEq

structure Limits where
  maxItemsGlobal : Nat
  maxItemsPerAgent : Nat

structure State (Key Data : Type) where
  ring : Ring
  index : List (Slot Key Data)
  itemsGlobal : Nat
  enqueues : List (Enqueue Key Data)
  drain : Option (Drain Key Data)
  drops : List (Drop Key Data)
  accepted : List (Item Key Data)
  consumed : List (Item Key Data)
  disposed : List (Item Key Data)
  drained : List Key
  dropped : List Key

def State.init (Key Data : Type) : State Key Data :=
  ⟨.empty, [], 0, [], none, [], [], [], [], [], []⟩

inductive Act (Key Data : Type) where
  | enqueue (key : Key) (data : Data)
  /-- The `i`-th call pushes; a new slot would be at `addr`. -/
  | push (i addr : Nat)
  | refuse (i : Nat)
  | ringUpdate (i : Nat)
  | drainNext
  | consume
  | drainEnd
  | dropAgent (key : Key)
  | dispose (j : Nat)
  | uncount (j : Nat)
  | freeSlot (j : Nat)

variable {Key Data : Type}

/-- The queue of the slot at an address is replaced. -/
def setQueue (index : List (Slot Key Data)) (addr : Nat) (queue : List (Item Key Data)) :
    List (Slot Key Data) :=
  index.map fun slot => if slot.addr = addr then { slot with queue } else slot

/-- The addresses that the allocator cannot return. -/
def State.inUse (s : State Key Data) : List Nat :=
  s.index.map (·.addr) ++ s.drops.map (·.slot)

/-- Step 4 of `batch_queue_enqueue_ex`: reject, or push and go on to the ring update if
the queue was empty. -/
def pushItem (limits : Limits) (s : State Key Data) (i : Nat) (slot : Slot Key Data) (data : Data) :
    State Key Data :=
  if limits.maxItemsPerAgent ≠ 0 ∧ limits.maxItemsPerAgent ≤ slot.queue.length then
    { s with enqueues := s.enqueues.set i (.refused data) }
  else
    let item := ⟨s.accepted.length, slot.key, data⟩
    { s with
      index := setQueue s.index slot.addr (slot.queue ++ [item])
      accepted := s.accepted ++ [item]
      enqueues :=
        if slot.queue.length = 0 then s.enqueues.set i (.pushed slot.key slot.addr)
        else s.enqueues.eraseIdx i }

/-- `make_slot` and `hm_put`. -/
def makeSlot (s : State Key Data) (addr : Nat) (key : Key) : State Key Data :=
  { s with
    index := s.index ++ [⟨addr, key, []⟩]
    ring := { s.ring with
      next := Function.update s.ring.next addr none
      inRing := Function.update s.ring.inRing addr false } }

/-- `batch_queue_drop_agent` once the slot is out of the ring. -/
def dropSlot (s : State Key Data) (ring : Ring) (slot : Slot Key Data) : State Key Data :=
  { s with
    ring
    index := s.index.eraseP fun other => decide (other.addr = slot.addr)
    drops := s.drops ++ [⟨slot.addr, slot.queue, some slot.queue.length⟩]
    dropped := s.dropped ++ [slot.key] }

section Steps

variable [DecidableEq Key]

def hmGet (index : List (Slot Key Data)) (key : Key) : Option (Slot Key Data) :=
  index.find? fun slot => decide (slot.key = key)

def step (limits : Limits) (s : State Key Data) : Act Key Data → Option (State Key Data)
  | .enqueue key data =>
    let full := limits.maxItemsGlobal ≠ 0 ∧ limits.maxItemsGlobal < s.itemsGlobal + 1
    some { s with
      itemsGlobal := s.itemsGlobal + 1
      enqueues := s.enqueues ++ [if full then .refused data else .counted key data] }
  | .push i addr =>
    match s.enqueues[i]? with
    | some (.counted key data) =>
      match hmGet s.index key with
      | some slot => some (pushItem limits s i slot data)
      | none =>
        if addr ∈ s.inUse then some s
        else some (pushItem limits (makeSlot s addr key) i ⟨addr, key, []⟩ data)
    | _ => some s
  | .refuse i =>
    match s.enqueues[i]? with
    | some (.refused _) => some { s with
        itemsGlobal := s.itemsGlobal - 1, enqueues := s.enqueues.eraseIdx i }
    | _ => some s
  | .ringUpdate i =>
    match s.enqueues[i]? with
    | some (.pushed key addr) =>
      let s := { s with enqueues := s.enqueues.eraseIdx i }
      match hmGet s.index key with
      | some slot =>
        if slot.addr = addr ∧ s.ring.inRing addr = false then do
          let ring ← s.ring.ringAppend addr
          return { s with ring }
        else some s
      | none => some s
    | _ => some s
  | .drainNext =>
    match s.drain, s.ring.cursor with
    | none, some addr =>
      match s.index.find? fun slot => decide (slot.addr = addr) with
      | none => none
      | some slot => some { s with
          ring := s.ring.drainRing addr
          index := setQueue s.index addr []
          drain := some ⟨slot.queue, 0⟩
          drained := s.drained ++ [slot.key] }
    | _, _ => some s
  | .consume =>
    match s.drain with
    | some ⟨item :: chain, drained⟩ => some { s with
        consumed := s.consumed ++ [item], drain := some ⟨chain, drained + 1⟩ }
    | _ => some s
  | .drainEnd =>
    match s.drain with
    | some ⟨[], drained⟩ => some { s with itemsGlobal := s.itemsGlobal - drained, drain := none }
    | _ => some s
  | .dropAgent key =>
    match hmGet s.index key with
    | none => some s
    | some slot =>
      if s.ring.inRing slot.addr then
        match s.ring.ringFindPrev slot.addr with
        | none => none
        | some none => some s
        | some (some prev) => some (dropSlot s (s.ring.ringRemoveNode slot.addr (some prev)) slot)
      else some (dropSlot s s.ring slot)
  | .dispose j =>
    match s.drops[j]? with
    | some ⟨slot, item :: chain, count⟩ => some { s with
        disposed := s.disposed ++ [item], drops := s.drops.set j ⟨slot, chain, count⟩ }
    | _ => some s
  | .uncount j =>
    match s.drops[j]? with
    | some ⟨slot, [], some count⟩ => some { s with
        itemsGlobal := s.itemsGlobal - count, drops := s.drops.set j ⟨slot, [], none⟩ }
    | _ => some s
  | .freeSlot j =>
    match s.drops[j]? with
    | some ⟨_, [], none⟩ => some { s with drops := s.drops.eraseIdx j }
    | _ => some s

/-- The new slot of an agent is not put at an address that an enqueue of that agent between its
push and its ring update still compares with. -/
def Fresh (s : State Key Data) : Act Key Data → Prop
  | .push i addr =>
    match s.enqueues[i]? with
    | some (.counted key _) => hmGet s.index key = none → .pushed key addr ∉ s.enqueues
    | _ => True
  | _ => True

end Steps

/-! ## What the batch queue should keep -/

/-- The agent and the slot of an enqueue between its push and its ring update. -/
def Enqueue.target? : Enqueue Key Data → Option (Key × Nat)
  | .pushed key slot => some (key, slot)
  | _ => none

/-- An enqueue whose item is counted and not queued. -/
def Enqueue.isCounted : Enqueue Key Data → Bool
  | .pushed _ _ => false
  | _ => true

def State.queued (s : State Key Data) : List (Item Key Data) := s.index.flatMap (·.queue)

/-- The items that the consumer has detached. -/
def State.transit (s : State Key Data) : List (Item Key Data) := (s.drain.map (·.chain)).getD []

/-- The items of dropped agents that are not disposed of yet. -/
def State.dropping (s : State Key Data) : List (Item Key Data) := s.drops.flatMap (·.chain)

/-- The number of items in flight: counted by an enqueue before its push or its
refusal, detached by the consumer or by a drop and not yet subtracted. -/
def State.inFlight (s : State Key Data) : Nat :=
  s.enqueues.countP Enqueue.isCounted +
    ((s.drain.map fun drain => drain.chain.length + drain.drained).getD 0) +
    (s.drops.map fun drop => drop.count.getD 0).sum

/-- Every item stands in one place: consumed, on its way to the consumer, disposed of,
on its way there, or queued. -/
def State.everywhere (s : State Key Data) : List (Item Key Data) :=
  s.consumed ++ s.transit ++ s.disposed ++ s.dropping ++ s.queued

/-- No enqueue is between its push and its ring update. -/
def State.Updated (s : State Key Data) : Prop := ∀ e ∈ s.enqueues, e.target? = none

/-- What the batch queue keeps at every moment. -/
structure Delivers [DecidableEq Key] (s : State Key Data) : Prop where
  numbered : s.accepted.map (·.seq) = List.range s.accepted.length
  /-- Each accepted item is in one place, once. -/
  once : s.everywhere.Perm s.accepted
  /-- When all is drained, it was consumed or disposed of. -/
  settled : s.Updated → s.ring.toList = [] → s.drain = none → s.drops = [] →
    (s.consumed ++ s.disposed).Perm s.accepted
  /-- Within an agent, what was consumed, what is on its way to the consumer and what is
  queued follow each other in the order of the pushes. -/
  inOrder : ∀ key, (((s.consumed ++ s.transit ++ s.queued).filter
    fun item => decide (item.key = key)).map (·.seq)).Pairwise (· < ·)
  count : s.itemsGlobal = s.queued.length + s.inFlight
  /-- Between ring updates, the agents of the ring are those with items. -/
  ready : s.Updated → ∀ slot ∈ s.index, slot.addr ∈ s.ring.toList ↔ slot.queue ≠ []
  agents : ∀ a ∈ s.ring.toList, ∃ slot ∈ s.index, slot.addr = a
  distinct : s.ring.toList.Nodup
  cursor : s.ring.cursor = s.ring.head ∧ s.ring.head = s.ring.toList.head?
  prevCursor : ∀ a, s.ring.cursor = some a →
    ∃ p ∈ s.ring.toList, s.ring.prevCursor = some p ∧ s.ring.next p = some a

/-- In every continuation of a run, an agent in the ring that is not dropped and not drained
sees at most as many drains as there were agents before it. -/
def NoStarvation (s t : State Key Data) : Prop :=
  ∀ slot ∈ s.index, slot.addr ∈ s.ring.toList →
    slot.key ∉ t.dropped.drop s.dropped.length → slot.key ∉ t.drained.drop s.drained.length →
    (t.drained.drop s.drained.length).length ≤ s.ring.toList.idxOf slot.addr

end GuardSarm.BatchQueue
