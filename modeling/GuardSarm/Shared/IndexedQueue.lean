import GuardSarm.Lib.Steps

/-!
# Indexed queue

A linked list of data with a tree that finds the node of a key. The list is the
sequence of its nodes, first to last, each with its address; the tree is the
sequence of its entries in the order of the keys. Threads run the `_ex`
operations: what one of them does between taking the mutex and releasing it, at
the end of the call or in a condition wait, is one step. A wait may end at any
time, as POSIX allows, and the loops of the code look again.
-/

namespace GuardSarm.IndexedQueue

open List

/-- `w_linked_queue_node_t`, with its address. -/
structure Node (Data : Type*) where
  address : Nat
  data : Data
  deriving DecidableEq

/-- `w_indexed_queue_entry_t`; the key stands beside it in the tree. -/
structure Entry (Data : Type*) where
  data : Data
  queueNode : Nat
  deriving DecidableEq

/-- `w_indexed_queue_t`; `fresh` is the address of the next node. -/
structure Queue (Key Data : Type*) where
  queue : List (Node Data)
  index : List (Key × Entry Data)
  maxSize : Nat
  currentSize : Nat
  fresh : Nat
  deriving DecidableEq

/-! ## The tree -/

section Tree

variable {Key Data : Type*} {index : List (Key × Entry Data)} {key : Key} {entry : Entry Data}

def rbtreeKeys (index : List (Key × Entry Data)) : List Key := index.map Prod.fst

theorem entry_unique (keys : (rbtreeKeys index).Nodup) {other : Entry Data}
    (first : (key, entry) ∈ index) (second : (key, other) ∈ index) : entry = other :=
  congrArg Prod.snd (List.inj_on_of_nodup_map keys first second rfl)

variable [LinearOrder Key]

def rbtreeGet (index : List (Key × Entry Data)) (key : Key) : Option (Entry Data) :=
  (index.find? fun pair => decide (pair.1 = key)).map Prod.snd

def rbtreeInsert (index : List (Key × Entry Data)) (key : Key) (entry : Entry Data) :
    Option (List (Key × Entry Data)) :=
  if (rbtreeGet index key).isSome then none
  else some (index.orderedInsert (fun a b => a.1 ≤ b.1) (key, entry))

def rbtreeDelete (index : List (Key × Entry Data)) (key : Key) : List (Key × Entry Data) :=
  index.eraseP fun pair => decide (pair.1 = key)

theorem mem_of_rbtreeGet (found : rbtreeGet index key = some entry) : (key, entry) ∈ index := by
  obtain ⟨pair, first, rfl⟩ := Option.map_eq_some_iff.1 found
  obtain rfl : pair.1 = key := by simpa using find?_some first
  exact mem_of_find?_eq_some first

theorem rbtreeGet_eq_none_iff : rbtreeGet index key = none ↔ key ∉ rbtreeKeys index := by
  simp only [rbtreeGet, Option.map_eq_none_iff, find?_eq_none, decide_eq_true_eq, rbtreeKeys,
    mem_map, not_exists, not_and]

theorem rbtreeGet_of_mem (keys : (rbtreeKeys index).Nodup) (inside : (key, entry) ∈ index) :
    rbtreeGet index key = some entry := by
  cases found : rbtreeGet index key with
  | none =>
    have missing := rbtreeGet_eq_none_iff.1 found
    exact absurd (mem_map_of_mem inside) missing
  | some other => rw [entry_unique keys inside (mem_of_rbtreeGet found)]

theorem rbtreeDelete_split (inside : (key, entry) ∈ index) (keys : (rbtreeKeys index).Nodup) :
    ∃ before after, index = before ++ (key, entry) :: after ∧
      rbtreeDelete index key = before ++ after := by
  obtain ⟨pair, before, after, -, same, rfl, deleted⟩ :=
    exists_of_eraseP (p := fun pair => decide (pair.1 = key)) inside (by simp)
  obtain rfl : pair.1 = key := by simpa using same
  have : pair.2 = entry := entry_unique keys (by simp) inside
  exact ⟨before, after, by rw [← this], deleted⟩

end Tree

/-! ## The operations without the mutex -/

variable {Key Data : Type*}

section Operations

variable [LinearOrder Key]

namespace Queue

/-- `indexed_queue_init`. -/
def init (maxSize : Nat) : Queue Key Data := ⟨[], [], maxSize, 0, 0⟩

def empty (q : Queue Key Data) : Bool := q.currentSize == 0

/-- `indexed_queue_full`; a maximum of 0 is none. -/
def full (q : Queue Key Data) : Bool := q.maxSize != 0 && decide (q.maxSize ≤ q.currentSize)

/-- `indexed_queue_push`. -/
def push (q : Queue Key Data) (key : Key) (data : Data) : Int × Queue Key Data :=
  if q.full then (-1, q)
  else if (rbtreeGet q.index key).isSome then (-1, q)
  else
    let queue := q.queue ++ [⟨q.fresh, data⟩]
    match rbtreeInsert q.index key ⟨data, q.fresh⟩ with
    | none => (-1, { q with queue := queue.tail, fresh := q.fresh + 1 })
    | some index =>
      (0, { q with queue, index, currentSize := q.currentSize + 1, fresh := q.fresh + 1 })

/-- The update of `indexed_queue_upsert_ex`: the entry and its node get the data. -/
def update (q : Queue Key Data) (key : Key) (data : Data) (entry : Entry Data) :
    Queue Key Data :=
  { q with
    index := q.index.map fun pair => if pair.1 = key then (pair.1, { pair.2 with data }) else pair
    queue := q.queue.map fun node =>
      if node.address = entry.queueNode then { node with data } else node }

/-- `indexed_queue_get`. -/
def get (q : Queue Key Data) (key : Key) : Option Data := (rbtreeGet q.index key).map (·.data)

/-- The entry that `indexed_queue_pop` deletes: the one the callback names, or
without a callback the first one with the data. -/
def keyOfPopped [DecidableEq Data] (getKey : Option (Data → Option Key)) (q : Queue Key Data)
    (data : Data) : Option Key :=
  match getKey with
  | some getKey => getKey data
  | none => (rbtreeKeys q.index).find? fun key => q.get key == some data

/-- `indexed_queue_pop`. -/
def pop [DecidableEq Data] (getKey : Option (Data → Option Key)) (q : Queue Key Data) :
    Option Data × Queue Key Data :=
  if q.empty then (none, q)
  else
    match q.queue with
    | [] => (none, q)
    | node :: queue =>
      let index := match keyOfPopped getKey q node.data with
        | some key => rbtreeDelete q.index key
        | none => q.index
      (some node.data, { q with queue, index, currentSize := q.currentSize - 1 })

/-- `indexed_queue_delete`. -/
def delete (q : Queue Key Data) (key : Key) : Int × Queue Key Data :=
  match rbtreeGet q.index key with
  | none => (0, q)
  | some entry =>
    (1, { q with
      queue := q.queue.eraseP fun node => decide (node.address = entry.queueNode)
      index := rbtreeDelete q.index key
      currentSize := q.currentSize - 1 })

end Queue

/-! ## Threads -/

/-- The calls of the threads, with arguments that are not NULL. -/
inductive Call (Key Data : Type*) where
  | upsertEx (key : Key) (data : Data)
  | popEx
  | deleteEx (key : Key)
  | getEx (key : Key)
  deriving DecidableEq

inductive Result (Data : Type*) where
  | code (result : Int)
  | data (result : Option Data)
  deriving DecidableEq

/-- The queue, the calls that wait on a condition variable (by thread), and the
call that the last step completed. -/
structure State (Key Data : Type*) where
  queue : Queue Key Data
  waiting : Nat → Option (Call Key Data)
  completed : Option (Call Key Data × Result Data)

def State.init (maxSize : Nat) : State Key Data := ⟨.init maxSize, fun _ => none, none⟩

inductive Act (Key Data : Type*) where
  | call (thread : Nat) (call : Call Key Data)
  | wake (thread : Nat)

/-- What a thread does from the loop of its call on: it waits (`none`) or completes. -/
def proceed [DecidableEq Data] (getKey : Option (Data → Option Key)) (q : Queue Key Data) :
    Call Key Data → Option (Result Data × Queue Key Data)
  | .upsertEx key data =>
    if q.full then none else some ((.code (q.push key data).1), (q.push key data).2)
  | .popEx => if q.empty then none else some ((.data (q.pop getKey).1), (q.pop getKey).2)
  | .deleteEx key => some ((.code (q.delete key).1), (q.delete key).2)
  | .getEx key => some (.data (q.get key), q)

/-- What a thread does from its lock of the mutex on. -/
def enter [DecidableEq Data] (getKey : Option (Data → Option Key)) (q : Queue Key Data)
    (call : Call Key Data) : Option (Result Data × Queue Key Data) :=
  match call with
  | .upsertEx key data =>
    match rbtreeGet q.index key with
    | some entry => some (.code 1, q.update key data entry)
    | none => proceed getKey q call
  | _ => proceed getKey q call

/-- The state after a thread has released the mutex. -/
def State.released (s : State Key Data) (thread : Nat) (call : Call Key Data) :
    Option (Result Data × Queue Key Data) → State Key Data
  | none => { s with waiting := Function.update s.waiting thread (some call), completed := none }
  | some (result, queue) => ⟨queue, Function.update s.waiting thread none, some (call, result)⟩

def step [DecidableEq Data] (getKey : Option (Data → Option Key)) (s : State Key Data) :
    Act Key Data → Option (State Key Data)
  | .call thread call =>
    match s.waiting thread with
    | some _ => none
    | none => some (s.released thread call (enter getKey s.queue call))
  | .wake thread =>
    match s.waiting thread with
    | none => none
    | some call => some (s.released thread call (proceed getKey s.queue call))

end Operations

/-! ## What holds while the mutex is free -/

/-- A pair of the tree and a node of the list with its key, in one form. -/
def ofEntry (pair : Key × Entry Data) : Option Key × Node Data :=
  (some pair.1, ⟨pair.2.queueNode, pair.2.data⟩)

def ofNode (getKey : Data → Option Key) (node : Node Data) : Option Key × Node Data :=
  (getKey node.data, node)

/-- The list and the tree hold the same pairs, each key once, and the size is
their number and within the maximum. -/
structure Consistent (getKey : Data → Option Key) (q : Queue Key Data) : Prop where
  pairs : (q.index.map ofEntry).Perm (q.queue.map (ofNode getKey))
  keys : (rbtreeKeys q.index).Nodup
  addresses : (q.queue.map (·.address)).Nodup
  old : ∀ node ∈ q.queue, node.address < q.fresh
  size : q.currentSize = q.queue.length
  bounded : q.maxSize ≠ 0 → q.currentSize ≤ q.maxSize

/-- A completed upsert has returned 0 or 1 and mapped its key to its data. -/
def TookEffect [LinearOrder Key] (s : State Key Data) : Prop :=
  ∀ key data result, s.completed = some (.upsertEx key data, result) →
    (result = .code 0 ∨ result = .code 1) ∧ s.queue.get key = some data

/-- The callback returns the key that data is stored under. -/
def Keyed (getKey : Data → Option Key) : Call Key Data → Prop
  | .upsertEx key data => getKey data = some key
  | _ => True

def Act.Keyed (getKey : Data → Option Key) : Act Key Data → Prop
  | .call _ request => IndexedQueue.Keyed getKey request
  | .wake _ => True

instance [DecidableEq Key] (getKey : Data → Option Key) (call : Call Key Data) :
    Decidable (Keyed getKey call) := by
  unfold Keyed; split <;> infer_instance

instance [DecidableEq Key] (getKey : Data → Option Key) (a : Act Key Data) :
    Decidable (a.Keyed getKey) := by
  unfold Act.Keyed; split <;> infer_instance

/-- No upsert goes on after a wait for space while its key is in the tree. -/
def Undisturbed [LinearOrder Key] (s : State Key Data) : Act Key Data → Prop
  | .call _ _ => True
  | .wake thread =>
    match s.waiting thread with
    | some (.upsertEx key _) => s.queue.full = true ∨ (rbtreeGet s.queue.index key).isNone = true
    | _ => True

instance [LinearOrder Key] (s : State Key Data) (a : Act Key Data) :
    Decidable (Undisturbed s a) := by
  unfold Undisturbed; split <;> (try split) <;> infer_instance

/-! ## The operations keep the pairs together -/

namespace Consistent

variable {getKey : Data → Option Key} {q : Queue Key Data} {key : Key} {entry : Entry Data}

theorem node_unique (consistent : Consistent getKey q) {node other : Node Data}
    (first : node ∈ q.queue) (second : other ∈ q.queue) (same : node.address = other.address) :
    node = other :=
  List.inj_on_of_nodup_map consistent.addresses first second same

theorem mem_index_iff (consistent : Consistent getKey q) : (key, entry) ∈ q.index ↔
      ⟨entry.queueNode, entry.data⟩ ∈ q.queue ∧ getKey entry.data = some key := by
  have same := consistent.pairs.mem_iff (a := ofEntry (key, entry))
  have left : ofEntry (key, entry) ∈ q.index.map ofEntry ↔ (key, entry) ∈ q.index := by
    refine mem_map_of_injective ?_
    rintro ⟨k, e⟩ ⟨k', e'⟩ equal
    cases e
    cases e'
    simp_all [ofEntry]
  have right : ofEntry (key, entry) ∈ q.queue.map (ofNode getKey) ↔
      ⟨entry.queueNode, entry.data⟩ ∈ q.queue ∧ getKey entry.data = some key := by
    simp [ofEntry, ofNode]
  rw [← left, same, right]

variable {node : Node Data}

/-- Every node of the list has a key, with its entry in the tree. -/
theorem entry_of_node (consistent : Consistent getKey q) (inside : node ∈ q.queue) :
    ∃ key, getKey node.data = some key ∧ (key, ⟨node.data, node.address⟩) ∈ q.index := by
  have paired := consistent.pairs.symm.subset (mem_map_of_mem inside)
  obtain ⟨⟨key, entry⟩, member, same⟩ := mem_map.1 paired
  have keyed : getKey node.data = some key := (congrArg Prod.fst same).symm
  exact ⟨key, keyed, consistent.mem_index_iff.2 ⟨inside, keyed⟩⟩

/-- The node of a key is the one that its entry points to. -/
theorem address_iff (consistent : Consistent getKey q) (inside : (key, entry) ∈ q.index)
    (member : node ∈ q.queue) : node.address = entry.queueNode ↔ getKey node.data = some key := by
  obtain ⟨own, keyed⟩ := consistent.mem_index_iff.1 inside
  constructor
  · intro same
    rw [consistent.node_unique member own same]
    exact keyed
  · intro same
    have mine : (key, (⟨node.data, node.address⟩ : Entry Data)) ∈ q.index :=
      consistent.mem_index_iff.2 ⟨member, same⟩
    rw [entry_unique consistent.keys inside mine]

theorem init (getKey : Data → Option Key) (maxSize : Nat) :
    Consistent getKey (Queue.init maxSize) where
  pairs := .nil
  keys := .nil
  addresses := .nil
  old := by simp [Queue.init]
  size := rfl
  bounded := by simp [Queue.init]

theorem removed (consistent : Consistent getKey q)
    {before after : List (Key × Entry Data)} {front back : List (Node Data)}
    (index : q.index = before ++ (key, ⟨node.data, node.address⟩) :: after)
    (queue : q.queue = front ++ node :: back) (keyed : getKey node.data = some key) :
    Consistent getKey { q with
      queue := front ++ back, index := before ++ after, currentSize := q.currentSize - 1 } where
  pairs := by
    have pairs := consistent.pairs
    rw [index, queue, map_append, map_append, map_cons, map_cons] at pairs
    have moved := (perm_middle.symm.trans pairs).trans perm_middle
    have same : ofEntry (key, (⟨node.data, node.address⟩ : Entry Data)) = ofNode getKey node := by
      rw [ofEntry, ofNode, keyed]
    rw [same] at moved
    simpa using moved.cons_inv
  keys := by
    have keys := consistent.keys
    rw [index] at keys
    refine keys.sublist (List.Sublist.map _ ?_)
    simp
  addresses := by
    have addresses := consistent.addresses
    rw [queue] at addresses
    refine addresses.sublist (List.Sublist.map _ ?_)
    simp
  old := by
    intro other inside
    refine consistent.old other ?_
    rw [queue, mem_append, mem_cons]
    exact (mem_append.1 inside).imp_right .inr
  size := by
    have size := consistent.size
    rw [queue] at size
    simp only [length_append, length_cons] at size ⊢
    omega
  bounded := by
    intro limited
    have bounded := consistent.bounded limited
    simp only
    omega

variable [LinearOrder Key]

theorem pushed (consistent : Consistent getKey q) {data : Data} (keyed : getKey data = some key)
    (space : q.full = false) (absent : rbtreeGet q.index key = none) :
    (q.push key data).1 = 0 ∧ Consistent getKey (q.push key data).2 ∧
      (q.push key data).2.get key = some data := by
  have inserted : (q.index.orderedInsert (fun a b => a.1 ≤ b.1) (key, ⟨data, q.fresh⟩)).Perm
      ((key, ⟨data, q.fresh⟩) :: q.index) := perm_orderedInsert _ _ _
  have keys : (rbtreeKeys (q.index.orderedInsert (fun a b => a.1 ≤ b.1)
      (key, ⟨data, q.fresh⟩))).Nodup := by
    rw [rbtreeKeys, (inserted.map _).nodup_iff, map_cons, nodup_cons]
    exact ⟨rbtreeGet_eq_none_iff.1 absent, consistent.keys⟩
  rw [Queue.push, if_neg (by simp [space]), if_neg (by simp [absent]), rbtreeInsert,
    if_neg (by simp [absent])]
  refine ⟨rfl, ⟨?_, keys, ?_, ?_, ?_, ?_⟩, ?_⟩
  · have last : ofNode getKey ⟨q.fresh, data⟩ = ofEntry (key, ⟨data, q.fresh⟩) := by
      rw [ofNode, keyed]
      rfl
    rw [map_append, map_singleton, last]
    refine (inserted.map ofEntry).trans ?_
    exact (consistent.pairs.cons _).trans (perm_append_singleton _ _).symm
  · rw [map_append, map_singleton, nodup_append]
    refine ⟨consistent.addresses, nodup_singleton _, ?_⟩
    intro address used other same
    obtain ⟨node, inside, rfl⟩ := mem_map.1 used
    have older := consistent.old node inside
    rw [mem_singleton.1 same]
    exact older.ne
  · intro node inside
    simp only [mem_append, mem_singleton] at inside
    obtain inside | rfl := inside
    · exact (consistent.old node inside).trans (Nat.lt_succ_self _)
    · exact Nat.lt_succ_self _
  · simp [consistent.size]
  · intro limited
    have size : ¬ (q.maxSize ≤ q.currentSize) := by
      simpa [Queue.full, show q.maxSize ≠ 0 from limited] using space
    simp only
    omega
  · rw [Queue.get, rbtreeGet_of_mem keys (inserted.mem_iff.2 mem_cons_self)]
    rfl

theorem updated (consistent : Consistent getKey q) {data : Data} (keyed : getKey data = some key)
    (found : rbtreeGet q.index key = some entry) : Consistent getKey (q.update key data entry) ∧
      (q.update key data entry).get key = some data := by
  have inside := mem_of_rbtreeGet found
  have keys : (rbtreeKeys (q.update key data entry).index).Nodup := by
    have same : rbtreeKeys (q.update key data entry).index = rbtreeKeys q.index := by
      rw [rbtreeKeys, rbtreeKeys, Queue.update, map_map]
      refine map_congr_left ?_
      intro pair _
      simp only [Function.comp_apply]
      split <;> rfl
    rw [same]
    exact consistent.keys
  refine ⟨⟨?_, keys, ?_, ?_, ?_, consistent.bounded⟩, ?_⟩
  · -- both sides change in the pair of the key, and only there
    let change : Option Key × Node Data → Option Key × Node Data :=
      fun pair => if pair.1 = some key then (pair.1, { pair.2 with data }) else pair
    have entries : (q.update key data entry).index.map ofEntry =
        (q.index.map ofEntry).map change := by
      rw [Queue.update, map_map, map_map]
      refine map_congr_left ?_
      intro pair _
      simp only [Function.comp_apply, change, ofEntry, Option.some.injEq]
      split <;> rfl
    have nodes : (q.update key data entry).queue.map (ofNode getKey) =
        (q.queue.map (ofNode getKey)).map change := by
      rw [Queue.update, map_map, map_map]
      refine map_congr_left ?_
      intro node member
      have own := consistent.address_iff inside member
      by_cases same : getKey node.data = some key
      · simp [change, ofNode, own.2 same, same, keyed]
      · simp [change, ofNode, mt own.1 same, same]
    rw [entries, nodes]
    exact consistent.pairs.map change
  · have same : (q.update key data entry).queue.map (·.address) = q.queue.map (·.address) := by
      rw [Queue.update, map_map]
      refine map_congr_left ?_
      intro node _
      simp only [Function.comp_apply]
      split <;> rfl
    rw [same]
    exact consistent.addresses
  · intro node member
    obtain ⟨before, earlier, rfl⟩ := mem_map.1 member
    have older := consistent.old before earlier
    split <;> exact older
  · simp [Queue.update, consistent.size]
  · have member : (key, ({ entry with data } : Entry Data)) ∈ (q.update key data entry).index :=
      mem_map.2 ⟨(key, entry), inside, by simp⟩
    rw [Queue.get, rbtreeGet_of_mem keys member]
    rfl

theorem deleted (consistent : Consistent getKey q) (key : Key) :
    Consistent getKey (q.delete key).2 := by
  unfold Queue.delete
  cases found : rbtreeGet q.index key with
  | none => exact consistent
  | some entry =>
    have inside := mem_of_rbtreeGet found
    obtain ⟨member, keyed⟩ := consistent.mem_index_iff.1 inside
    obtain ⟨before, after, index, erased⟩ := rbtreeDelete_split inside consistent.keys
    obtain ⟨node, front, back, -, same, queue, unlinked⟩ :=
      exists_of_eraseP (p := fun node => decide (node.address = entry.queueNode)) member
        (by simp)
    obtain rfl : node = ⟨entry.queueNode, entry.data⟩ :=
      consistent.node_unique (by simp [queue]) member (by simpa using same)
    simp only [unlinked, erased]
    exact consistent.removed index queue keyed

theorem popped [DecidableEq Data] (consistent : Consistent getKey q) :
    Consistent getKey (q.pop (some getKey)).2 := by
  unfold Queue.pop
  split
  · exact consistent
  · split
    · exact consistent
    next node back queue =>
      have member : node ∈ q.queue := by simp [queue]
      obtain ⟨key, keyed, inside⟩ := consistent.entry_of_node member
      obtain ⟨before, after, index, erased⟩ := rbtreeDelete_split inside consistent.keys
      simp only [Queue.keyOfPopped, keyed, erased]
      have first : q.queue = [] ++ node :: back := queue
      exact consistent.removed index first keyed

end Consistent

/-! ## Steps and runs -/

section Runs

variable {getKey : Data → Option Key} {q : Queue Key Data}

/-- The waiting calls were made with data whose key the callback knows. -/
structure Kept (getKey : Data → Option Key) (s : State Key Data) : Prop where
  consistent : Consistent getKey s.queue
  keyed : ∀ thread call, s.waiting thread = some call → Keyed getKey call

variable {call : Call Key Data}

theorem kept_released {s : State Key Data} (kept : Kept getKey s) {thread : Nat}
    (keyed : Keyed getKey call) {outcome : Option (Result Data × Queue Key Data)}
    (consistent : ∀ done ∈ outcome, Consistent getKey done.2) :
    Kept getKey (s.released thread call outcome) := by
  have waiting (now : Option (Call Key Data)) (fits : ∀ request ∈ now, Keyed getKey request)
      (other : Nat) (request : Call Key Data)
      (waits : Function.update s.waiting thread now other = some request) :
      Keyed getKey request := by
    by_cases same : other = thread
    · subst same
      exact fits request (by simpa using waits)
    · rw [Function.update_of_ne same] at waits
      exact kept.keyed other request waits
  cases outcome with
  | none => exact ⟨kept.consistent, waiting (some call) (by simpa using keyed)⟩
  | some done => exact ⟨consistent done rfl, waiting none nofun⟩

variable [LinearOrder Key]

/-- A call that completes has taken effect: an upsert has mapped its key. -/
def Effect (q : Queue Key Data) : Call Key Data → Result Data → Prop
  | .upsertEx key data, result => (result = .code 0 ∨ result = .code 1) ∧ q.get key = some data
  | _, _ => True

theorem tookEffect_released {s : State Key Data} {thread : Nat}
    {outcome : Option (Result Data × Queue Key Data)} :
    TookEffect (s.released thread call outcome) ↔ ∀ done ∈ outcome, Effect done.2 call done.1 := by
  cases outcome with
  | none => simp [TookEffect, State.released]
  | some done => cases call <;> simp [TookEffect, State.released, Effect]

theorem push_spec (consistent : Consistent getKey q) {key : Key} {data : Data}
    (keyed : getKey data = some key) (space : q.full = false) :
    Consistent getKey (q.push key data).2 ∧
      (Effect (q.push key data).2 (.upsertEx key data) (.code (q.push key data).1) ↔
        rbtreeGet q.index key = none) := by
  cases found : rbtreeGet q.index key with
  | none =>
    obtain ⟨inserted, kept, mapped⟩ := consistent.pushed keyed space found
    exact ⟨kept, iff_of_true ⟨.inl (by rw [inserted]), mapped⟩ rfl⟩
  | some entry =>
    have refused : q.push key data = (-1, q) := by simp [Queue.push, space, found]
    rw [refused]
    exact ⟨consistent, by simp [Effect]⟩

variable [DecidableEq Data]

theorem proceed_consistent (consistent : Consistent getKey q) (keyed : Keyed getKey call) :
    ∀ done ∈ proceed (some getKey) q call, Consistent getKey done.2 := by
  fun_cases proceed (some getKey) q call with
  | case1 | case3 => nofun
  | case2 key data space =>
    rintro _ ⟨⟩
    exact (push_spec consistent keyed (by simpa using space)).1
  | case4 =>
    rintro _ ⟨⟩
    exact consistent.popped
  | case5 key =>
    rintro _ ⟨⟩
    exact consistent.deleted key
  | case6 =>
    rintro _ ⟨⟩
    exact consistent

/-- An upsert that goes on from its loop takes effect if its key is not in the tree. -/
theorem proceed_effect_iff (consistent : Consistent getKey q) (keyed : Keyed getKey call) :
    (∀ done ∈ proceed (some getKey) q call, Effect done.2 call done.1) ↔
      ∀ key data, call = .upsertEx key data → q.full = true ∨ rbtreeGet q.index key = none := by
  cases call with
  | upsertEx key data =>
    cases space : q.full with
    | true => simp [proceed, space]
    | false => simp [proceed, space, (push_spec consistent keyed space).2]
  | popEx | deleteEx key | getEx key => simp [Effect]

theorem enter_spec (consistent : Consistent getKey q) (keyed : Keyed getKey call) :
    ∀ done ∈ enter (some getKey) q call, Consistent getKey done.2 ∧ Effect done.2 call done.1 := by
  have absent (none_ : ∀ key data, call = .upsertEx key data → rbtreeGet q.index key = none) :
      ∀ done ∈ proceed (some getKey) q call, Consistent getKey done.2 ∧ Effect done.2 call done.1 :=
    fun done member => ⟨proceed_consistent consistent keyed done member,
      (proceed_effect_iff consistent keyed).mpr (fun key data same => .inr (none_ key data same))
        done member⟩
  cases call with
  | upsertEx key data =>
    simp only [enter]
    split
    next entry found =>
      rintro _ ⟨⟩
      obtain ⟨kept, mapped⟩ := consistent.updated keyed found
      exact ⟨kept, .inr rfl, mapped⟩
    next found =>
      apply absent
      rintro _ _ ⟨⟩
      exact found
  | popEx | deleteEx key | getEx key => exact absent nofun

/-- What a step does: the pairs stay together whatever the threads do, and the
call that it completes has taken effect unless a waiting upsert was disturbed. -/
theorem step_spec {s t : State Key Data} {a : Act Key Data} (kept : Kept getKey s)
    (keyed : a.Keyed getKey) (moved : step (some getKey) s a = some t) :
    Kept getKey t ∧ (TookEffect t ↔ Undisturbed s a) := by
  cases a with
  | call thread call =>
    simp only [step] at moved
    split at moved
    · cases moved
    · cases moved
      have entered := enter_spec kept.consistent keyed
      refine ⟨kept_released kept keyed fun done member => (entered done member).1, ?_⟩
      rw [tookEffect_released]
      exact iff_of_true (fun done member => (entered done member).2) trivial
  | wake thread =>
    simp only [step] at moved
    cases waits : s.waiting thread with
    | none => simp [waits] at moved
    | some call =>
      simp only [waits, Option.some.injEq] at moved
      subst moved
      have waiting := kept.keyed thread call waits
      refine ⟨kept_released kept waiting (proceed_consistent kept.consistent waiting), ?_⟩
      rw [tookEffect_released, proceed_effect_iff kept.consistent waiting]
      simp only [Undisturbed, waits]
      cases call with
      | upsertEx key data => simp
      | popEx | deleteEx key | getEx key => simp

/-- **Upserts take effect.** In every run of the threads from an empty queue in
which no upsert goes on after a wait for space while its key is in the tree, list
and tree hold the same pairs whenever the mutex is free, and every completed
upsert has returned 0 or 1 and mapped its key to its data. -/
theorem upsert_takes_effect (getKey : Data → Option Key) (maxSize : Nat)
    (as : List (Act Key Data)) (s : State Key Data)
    (run : Steps (Meeting (fun s a => a.Keyed getKey ∧ Undisturbed s a)
      (fun s a t => step (some getKey) s a = some t)) (State.init maxSize) as s) :
    Consistent getKey s.queue ∧ TookEffect s := by
  have all : Kept getKey s ∧ TookEffect s := by
    refine run.invariant (P := fun s => Kept getKey s ∧ TookEffect s) ?_ ?_
    · intro t a u moved before
      obtain ⟨⟨keyed, undisturbed⟩, moved⟩ := moved
      obtain ⟨kept, effect⟩ := step_spec before.1 keyed moved
      exact ⟨kept, effect.2 undisturbed⟩
    · refine ⟨⟨Consistent.init getKey maxSize, ?_⟩, ?_⟩
      · simp [State.init]
      · simp [TookEffect, State.init]
  exact ⟨all.1.consistent, all.2⟩

theorem upsert_takes_effect_after_wait :
    ∃ s : State Nat Nat, s.completed = some (.upsertEx 2 2, .code 0) ∧
      s.queue.queue = [⟨1, 2⟩] ∧ Consistent some s.queue ∧ TookEffect s := by
  have run : Steps (Meeting (fun s a => a.Keyed some ∧ Undisturbed s a)
      (fun s a t => step (some some) s a = some t)) (State.init 1)
      [.call 0 (.upsertEx 1 1), .call 1 (.upsertEx 2 2), .call 0 .popEx, .wake 1] _ :=
    Steps.of_executeChecked (fun met => of_decide_eq_true met) rfl
  exact ⟨_, rfl, rfl, upsert_takes_effect some 1 _ _ run⟩

/-- Two upserts of one key wait for space; after two pops the first one inserts
the key and the second one is refused. -/
theorem waiting_upserts_collide : ∃ s : State Nat Nat,
      execute (step (some fun data => some (data / 10))) (State.init 2)
        [.call 0 (.upsertEx 1 10), .call 0 (.upsertEx 2 20), .call 1 (.upsertEx 3 30),
          .call 2 (.upsertEx 3 31), .call 0 .popEx, .call 0 .popEx, .wake 1, .wake 2] = some s ∧
      s.completed = some (.upsertEx 3 31, .code (-1)) ∧ s.queue.get 3 = some 30 ∧
      ¬ TookEffect s := by
  refine ⟨_, rfl, rfl, by decide, ?_⟩
  intro took
  obtain ⟨-, mapped⟩ := took 3 31 _ rfl
  revert mapped
  decide

end Runs

end GuardSarm.IndexedQueue
