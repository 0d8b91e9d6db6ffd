import GuardSarm.Lib.Probing

/-!
# Hash map with open addressing

`hm_put`, `hm_del` and `hm_get` search a table whose capacity is a power of two,
for any hash function in the place of `fnv1a64`. A loop that has gone round the
table once without an end never ends, and is `none`.
-/

namespace GuardSarm.Hm

open Probing

/-- `HM_LOAD_NUM`, `HM_LOAD_DEN` and `HM_MIN_CAP`. -/
def hmLoadNum : Nat := 3
def hmLoadDen : Nat := 4
def hmMinCap : Nat := 16

structure Hashmap (Key Value : Type) where
  entries : List (Slot Key Value)
  capacity : Nat
  size : Nat
  tombstones : Nat

/-- The loop of `next_pow2`. -/
def nextPow2From (p x : Nat) : Nat :=
  if 0 < p ∧ p < x then nextPow2From (p <<< 1) x else p
termination_by x - p
decreasing_by
  rw [Nat.shiftLeft_eq]
  omega

def nextPow2 (x : Nat) : Nat := nextPow2From hmMinCap x

variable {Key Value : Type}

/-- `hm_init`. -/
def hmInit (initialCapacity : Nat) : Hashmap Key Value :=
  let cap := nextPow2 (if initialCapacity ≠ 0 then initialCapacity else hmMinCap)
  ⟨List.replicate cap .empty, cap, 0, 0⟩

/-- `(size_t)(h & m)` and `(idx + 1) & m`. -/
def home (hash : Key → Nat) (capacity : Nat) (key : Key) : Nat := hash key &&& (capacity - 1)
def next (capacity idx : Nat) : Nat := (idx + 1) &&& (capacity - 1)

/-- One visit of the loop of `hm_rehash` that looks for an empty slot. -/
def free (slots : List (Slot Key Value)) (idx : Nat) : Option Nat :=
  match slots[idx]? with
  | some .empty => some idx
  | _ => none

/-- Puts one entry of the old table into the new one. -/
def reinsert (hash : Key → Nat) (neu : Hashmap Key Value) (key : Key) (value : Value) :
    Option (Hashmap Key Value) := do
  let idx ← scan (free neu.entries) (next neu.capacity) neu.capacity (home hash neu.capacity key)
  return { neu with entries := neu.entries.set idx (.occupied key value), size := neu.size + 1 }

/-- `hm_rehash`. -/
def hmRehash (hash : Key → Nat) (hm : Hashmap Key Value) (newCap : Nat) :
    Option (Hashmap Key Value) :=
  hm.entries.foldlM
    (fun neu slot =>
      match slot with
      | .occupied key value => reinsert hash neu key value
      | _ => some neu)
    ⟨List.replicate newCap .empty, newCap, 0, 0⟩

/-- `hm_maybe_grow`. -/
def hmMaybeGrow (hash : Key → Nat) (hm : Hashmap Key Value) : Option (Hashmap Key Value) :=
  if hm.capacity * hmLoadNum ≤ (hm.size + hm.tombstones) * hmLoadDen then
    hmRehash hash hm (hm.capacity <<< 1)
  else some hm

section Calls

variable [DecidableEq Key] (hash : Key → Nat)

/-- The loop of `hm_get` and `hm_del`. -/
def find (hm : Hashmap Key Value) (key : Key) : Option (Option Nat) :=
  scan (look hm.entries key) (next hm.capacity) hm.capacity (home hash hm.capacity key)

/-- `hm_get`: the returned number and `*out_value`. -/
def hmGet (hm : Hashmap Key Value) (key : Key) : Option (Nat × Option Value) :=
  if hm.capacity = 0 then some (0, none)
  else do
    match ← find hash hm key with
    | none => return (0, none)
    | some idx => return (1, (hm.entries[idx]?.bind Slot.pair?).map Prod.snd)

/-- Where the loop of `hm_put` ends. -/
inductive Place where
  | update (idx : Nat)
  | insert (idx : Nat) (reused : Bool)
  deriving DecidableEq

/-- The loop of `hm_put`, with the first deleted slot that was met. -/
def putLoop (slots : List (Slot Key Value)) (key : Key) (next : Nat → Nat) :
    Nat → Option Nat → Nat → Option Place
  | 0, _, _ => none
  | fuel + 1, firstTomb, idx =>
    match slots[idx]? with
    | some .deleted => putLoop slots key next fuel (some (firstTomb.getD idx)) (next idx)
    | some (.occupied k _) =>
      if k = key then some (.update idx) else putLoop slots key next fuel firstTomb (next idx)
    | _ =>
      match firstTomb with
      | some target => some (.insert target true)
      | none => some (.insert idx false)

/-- `hm_put`. -/
def hmPut (hm : Hashmap Key Value) (key : Key) (value : Value) :
    Option (Nat × Hashmap Key Value) := do
  let hm ← hmMaybeGrow hash hm
  match ← putLoop hm.entries key (next hm.capacity) hm.capacity none
      (home hash hm.capacity key) with
  | .update idx => return (1, { hm with entries := hm.entries.set idx (.occupied key value) })
  | .insert target reused =>
    return (0, { hm with
      entries := hm.entries.set target (.occupied key value)
      size := hm.size + 1
      tombstones := if reused ∧ 0 < hm.tombstones then hm.tombstones - 1 else hm.tombstones })

/-- `hm_del`. -/
def hmDel (hm : Hashmap Key Value) (key : Key) : Option (Nat × Hashmap Key Value) :=
  if hm.size = 0 then some (0, hm)
  else do
    match ← find hash hm key with
    | none => return (0, hm)
    | some idx =>
      return (1, { hm with
        entries := hm.entries.set idx .deleted
        size := hm.size - 1
        tombstones := hm.tombstones + 1 })

end Calls

/-- The loop of `hm_iter_next`, over the slots that are left. -/
def iterLoop (hm : Hashmap Key Value) : Nat → Nat → Option (Key × Value) × Nat
  | 0, idx => (none, idx)
  | left + 1, idx =>
    match hm.entries[idx]? with
    | some (.occupied key value) => (some (key, value), idx + 1)
    | _ => iterLoop hm left (idx + 1)

/-- `hm_iter_next`: the entry, if one is produced, and the new `it->idx`. -/
def hmIterNext (hm : Hashmap Key Value) (idx : Nat) : Option (Key × Value) × Nat :=
  if hm.capacity < idx then (none, idx) else iterLoop hm (hm.capacity - idx) idx

/-- Calls `hm_iter_next` until it returns 0, at most `calls` times. -/
def traverse (hm : Hashmap Key Value) : Nat → Nat → List (Key × Value)
  | 0, _ => []
  | calls + 1, idx =>
    match hmIterNext hm idx with
    | (none, _) => []
    | (some pair, idx) => pair :: traverse hm calls idx

/-! ## Sequences of calls -/

inductive Call (Key Value : Type) where
  | put (key : Key) (value : Value)
  | del (key : Key)
  | get (key : Key)

/-- The returned number and, for `hm_get`, the value. -/
abbrev Answer (Value : Type) := Nat × Option Value

section Runs

variable [DecidableEq Key] (hash : Key → Nat)

def perform (hm : Hashmap Key Value) : Call Key Value → Option (Hashmap Key Value × Answer Value)
  | .put key value => (hmPut hash hm key value).map fun done => (done.2, done.1, none)
  | .del key => (hmDel hash hm key).map fun done => (done.2, done.1, none)
  | .get key => (hmGet hash hm key).map fun answer => (hm, answer)

def run : Hashmap Key Value → List (Call Key Value) →
    Option (Hashmap Key Value × List (Answer Value))
  | hm, [] => some (hm, [])
  | hm, call :: calls => do
    let (hm, answer) ← perform hash hm call
    let (hm, answers) ← run hm calls
    return (hm, answer :: answers)

/-- The calls on a finite map: a new key is put with 0, a present one with 1. -/
def Spec.perform (m : Key → Option Value) : Call Key Value → (Key → Option Value) × Answer Value
  | .put key value => (Function.update m key (some value), if (m key).isSome then 1 else 0, none)
  | .del key => (Function.update m key none, if (m key).isSome then 1 else 0, none)
  | .get key => (m, if (m key).isSome then 1 else 0, m key)

def Spec.run : (Key → Option Value) → List (Call Key Value) →
    (Key → Option Value) × List (Answer Value)
  | m, [] => (m, [])
  | m, call :: calls =>
    ((run (Spec.perform m call).1 calls).1,
      (Spec.perform m call).2 :: (run (Spec.perform m call).1 calls).2)

end Runs

/-- What holds of a table between the calls. -/
structure WellFormed (hash : Key → Nat) (hm : Hashmap Key Value) : Prop where
  length : hm.entries.length = hm.capacity
  power : ∃ n, 4 ≤ n ∧ hm.capacity = 2 ^ n
  size : hm.size = hm.entries.countP Slot.isOccupied
  tombstones : hm.tombstones = hm.entries.countP Slot.isDeleted
  load : hm.size + hm.tombstones < hm.capacity
  chained : Chained (home hash hm.capacity) hm.entries
  distinct : Distinct hm.entries

/-- The finite map that a table stands for. -/
def Represents (hm : Hashmap Key Value) (m : Key → Option Value) : Prop :=
  ∀ key value, m key = some value ↔ .occupied key value ∈ hm.entries

end GuardSarm.Hm
