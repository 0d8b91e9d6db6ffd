import GuardSarm.Lib.Steps
import GuardSarm.Lib.Text

/-!
# The indexes of the key store

`OS_AddKey` and `OS_DeleteKey` of a raw-mode key store, with the entries as
objects that the array and the two trees point to. The tree of addresses keeps
one entry for an address, and a deletion takes the address of its entry out,
whichever entry is kept there.

* `step_indexed`: a step keeps both trees in line with the array if the address
  of a deleted entry is its own.
-/

namespace GuardSarm.KeyIndex

open List

/-- The fields of `keyentry` that the indexes use; `ip` is the text in `ip->ip`. -/
structure Entry where
  id : Text
  ip : Text
  keyid : Nat
  deriving DecidableEq

/-- `keystore`. Pointers are numbers, that of the sender entry is 0. -/
structure Keystore where
  keyentries : List Nat
  keysize : Nat
  heap : Nat → Entry
  keytreeId : Text → Option Nat
  keytreeIp : Text → Option Nat
  allocated : Nat

def Keystore.init (sender : Entry) : Keystore := ⟨[0], 0, fun _ => sender, fun _ => none, fun _ => none, 1⟩

/-- `rbtree_insert` leaves a key that is there as it is. -/
def rbtreeInsert (tree : Text → Option Nat) (key : Text) (value : Nat) : Text → Option Nat :=
  if (tree key).isSome then tree else Function.update tree key (some value)

/-- `OS_AddKey`, with the text of the address as `OS_IsValidIP` and the cut at the slash leave it. -/
def addKey (keys : Keystore) (id ip : Text) : Keystore :=
  let entry := keys.allocated
  { keyentries := keys.keyentries.take keys.keysize ++ [entry, keys.keyentries.getD keys.keysize 0]
    keysize := keys.keysize + 1
    heap := Function.update keys.heap entry ⟨id, ip, keys.keysize⟩
    keytreeId := rbtreeInsert keys.keytreeId id entry
    keytreeIp := rbtreeInsert keys.keytreeIp ip entry
    allocated := keys.allocated + 1 }

/-- `OS_IsAllowedID` and `OS_IsAllowedIP`; `none` is -1. -/
def isAllowed (keys : Keystore) (tree : Text → Option Nat) (key : Text) : Option Nat :=
  (tree key).map fun entry => (keys.heap entry).keyid

def isAllowedID (keys : Keystore) (id : Text) : Option Nat := isAllowed keys keys.keytreeId id

def isAllowedIP (keys : Keystore) (srcip : Text) : Option Nat := isAllowed keys keys.keytreeIp srcip

def deleteKey (keys : Keystore) (id : Text) : Keystore :=
  match isAllowedID keys id with
  | none => keys
  | some i =>
    let at' (k : Nat) := keys.keyentries.getD k 0
    let keysize := keys.keysize - 1
    { keys with
      keyentries := (if i < keysize then keys.keyentries.set i (at' keysize)
        else keys.keyentries).set keysize (at' (keysize + 1))
      keysize
      heap := if i < keysize then
          Function.update keys.heap (at' keysize) { keys.heap (at' keysize) with keyid := i }
        else keys.heap
      keytreeId := Function.update keys.keytreeId id none
      keytreeIp := Function.update keys.keytreeIp (keys.heap (at' i)).ip none }

inductive Act where
  | add (id ip : Text)
  | delete (id : Text)

def step (keys : Keystore) : Act → Option Keystore
  | .add id ip => some (addKey keys id ip)
  | .delete id => some (deleteKey keys id)

def Keystore.live (keys : Keystore) : List Nat := keys.keyentries.take keys.keysize

/-- An id is added once, and the address of a deleted entry is not that of another one. -/
def OwnAddress (keys : Keystore) : Act → Prop
  | .add id _ => ∀ p ∈ keys.live, (keys.heap p).id ≠ id
  | .delete id => ∀ p ∈ keys.live, ∀ q ∈ keys.live, (keys.heap p).id = id →
      (keys.heap q).ip = (keys.heap p).ip → q = p

instance (keys : Keystore) (act : Act) : Decidable (OwnAddress keys act) := by
  cases act with
  | add id ip | delete id => exact List.decidableBAll _ _

/-- What the lookups and the array should say. -/
structure Consistent (keys : Keystore) : Prop where
  ids : ∀ id i, isAllowedID keys id = some i ↔ ∃ p, keys.live[i]? = some p ∧ (keys.heap p).id = id
  ips : ∀ ip i, isAllowedIP keys ip = some i → ∃ p, keys.live[i]? = some p ∧ (keys.heap p).ip = ip
  found : ∀ p ∈ keys.live, isAllowedIP keys (keys.heap p).ip ≠ none
  positions : keys.live.length = keys.keysize ∧
    ∀ i p, keys.live[i]? = some p → (keys.heap p).keyid = i
  sender : keys.keyentries[keys.keysize]? = some 0

/-- Array and trees, for the list of the live entries. -/
structure Indexed (keys : Keystore) (live : List Nat) : Prop where
  array : ∃ stale, keys.keyentries = live ++ 0 :: stale
  size : keys.keysize = live.length
  distinct : live.Nodup
  known : ∀ p ∈ live, p < keys.allocated
  positions : ∀ i p, live[i]? = some p → (keys.heap p).keyid = i
  ids : ∀ id p, keys.keytreeId id = some p ↔ p ∈ live ∧ (keys.heap p).id = id
  ips : ∀ ip p, keys.keytreeIp ip = some p → p ∈ live ∧ (keys.heap p).ip = ip
  found : ∀ p ∈ live, keys.keytreeIp (keys.heap p).ip ≠ none

variable {keys : Keystore} {live : List Nat}

theorem Indexed.live_eq (indexed : Indexed keys live) : keys.live = live := by
  obtain ⟨stale, array⟩ := indexed.array
  rw [Keystore.live, array, indexed.size, take_left]

theorem Indexed.consistent (indexed : Indexed keys live) : Consistent keys := by
  have position {p : Nat} (member : p ∈ live) : live[(keys.heap p).keyid]? = some p := by
    obtain ⟨i, bound, rfl⟩ := getElem_of_mem member
    rw [indexed.positions i _ (getElem?_eq_getElem bound), getElem?_eq_getElem bound]
  have allowed {tree : Text → Option Nat} {key : Text} {i : Nat}
      (some_ : isAllowed keys tree key = some i) : ∃ p, tree key = some p ∧ (keys.heap p).keyid = i := by
    simpa [isAllowed] using some_
  obtain ⟨stale, array⟩ := indexed.array
  refine ⟨?_, ?_, ?_, ?_, ?_⟩
  · intro id i
    rw [indexed.live_eq]
    constructor
    · intro answered
      obtain ⟨p, kept, rfl⟩ := allowed answered
      obtain ⟨member, same⟩ := (indexed.ids id p).mp kept
      exact ⟨p, position member, same⟩
    · rintro ⟨p, there, same⟩
      have kept := (indexed.ids id p).mpr ⟨mem_of_getElem? there, same⟩
      simp [isAllowedID, isAllowed, kept, indexed.positions i p there]
  · intro ip i answered
    rw [indexed.live_eq]
    obtain ⟨p, kept, rfl⟩ := allowed answered
    obtain ⟨member, same⟩ := indexed.ips ip p kept
    exact ⟨p, position member, same⟩
  · intro p member
    rw [indexed.live_eq] at member
    simpa [isAllowedIP, isAllowed] using indexed.found p member
  · rw [indexed.live_eq, indexed.size]
    exact ⟨rfl, indexed.positions⟩
  · simp [array, indexed.size]

theorem Indexed.add (indexed : Indexed keys live) {id ip : Text}
    (fresh : ∀ p ∈ live, (keys.heap p).id ≠ id) :
    Indexed (addKey keys id ip) (live ++ [keys.allocated]) := by
  obtain ⟨stale, array⟩ := indexed.array
  have unused : keys.allocated ∉ live := fun member => lt_irrefl _ (indexed.known _ member)
  have missing : keys.keytreeId id = none := by
    cases kept : keys.keytreeId id with
    | none => rfl
    | some p => exact absurd ((indexed.ids id p).mp kept).2 (fresh p ((indexed.ids id p).mp kept).1)
  refine ⟨⟨[], ?_⟩, by simp [addKey, indexed.size], ?_, ?_, ?_, ?_, ?_, ?_⟩
  · simp [addKey, array, indexed.size]
  · exact List.Nodup.append indexed.distinct (nodup_singleton _) (by simpa using unused)
  · intro p member
    have := indexed.known p
    simp [addKey] at member ⊢
    grind
  · intro i p there
    have := indexed.positions i p
    simp only [addKey, indexed.size]
    grind
  · intro id' p
    have := indexed.ids id' p
    simp only [addKey, rbtreeInsert, missing]
    grind
  · intro ip' p
    have := indexed.ips ip' p
    simp only [addKey, rbtreeInsert]
    grind
  · intro p member
    have := indexed.found p
    simp only [addKey, rbtreeInsert]
    grind

theorem mem_moved {front : List Nat} {q p i : Nat} (distinct : (front ++ [q]).Nodup)
    (there : (front ++ [q])[i]? = some p) :
    (front.set i q).Nodup ∧ (∀ r, r ∈ front.set i q ↔ r ∈ front ++ [q] ∧ r ≠ p) ∧
      ∀ j r, (front.set i q)[j]? = some r → (r = q ∧ j = i ∧ i < front.length) ∨
        (r ≠ q ∧ (front ++ [q])[j]? = some r) := by
  obtain ⟨once, -, apart⟩ := nodup_append.mp distinct
  have new : q ∉ front := fun member => apart q member q mem_cons_self rfl
  by_cases inside : i < front.length
  · rw [List.getElem?_append_left inside] at there
    obtain ⟨before, behind, rfl, rfl⟩ :
        ∃ before behind, front = before ++ p :: behind ∧ before.length = i := by
      obtain ⟨bound, rfl⟩ := List.getElem?_eq_some_iff.mp there
      exact ⟨front.take i, front.drop (i + 1), by simp, by simp; omega⟩
    clear apart distinct there
    rw [set_append_right _ _ le_rfl, Nat.sub_self, set_cons_zero]
    refine ⟨?_, ?_, ?_⟩
    · simp only [nodup_append, nodup_cons, mem_cons]
      grind
    · grind
    · grind
  · have last : i = front.length := by grind
    grind

theorem Indexed.delete (indexed : Indexed keys live) {id : Text}
    (own : OwnAddress keys (.delete id)) : ∃ live', Indexed (deleteKey keys id) live' := by
  obtain ⟨stale, array⟩ := indexed.array
  rw [deleteKey]
  cases answer : isAllowedID keys id with
  | none => exact ⟨live, indexed⟩
  | some i =>
    obtain ⟨p, there, same⟩ := (indexed.consistent.ids id i).mp answer
    rw [OwnAddress, indexed.live_eq] at own
    rw [indexed.live_eq] at there
    have member := mem_of_getElem? there
    have kept := (indexed.ids id p).mpr ⟨member, same⟩
    have alone := fun q inside => own p member q inside same
    -- the last entry moves to the freed position
    obtain rfl | ⟨front, q, rfl⟩ := live.eq_nil_or_concat'
    · cases member
    have size := indexed.size
    rw [length_append, length_singleton] at size
    have last : keys.keyentries.getD front.length 0 = q := by simp [array]
    have behind : keys.keyentries.getD (front.length + 1) 0 = 0 := by simp [array]
    have here : keys.keyentries.getD i 0 = p := by
      rw [getD_eq_getElem?_getD, array, List.getElem?_append_left, there]
      · rfl
      · exact (List.getElem?_eq_some_iff.mp there).1
    simp only [size, Nat.add_sub_cancel, last, behind, here]
    obtain ⟨distinct, members, places⟩ := mem_moved indexed.distinct there
    refine ⟨front.set i q, ⟨0 :: stale, ?_⟩, by simp, distinct, ?_, ?_, ?_, ?_, ?_⟩
    · rw [array, append_assoc]
      split
      · next inside => simp [set_append_left _ _ inside]
      · next outside => simp [set_eq_of_length_le (Nat.le_of_not_lt outside)]
    · exact fun r inside => indexed.known r ((members r).mp inside).1
    · intro j r found
      have := indexed.positions j r
      have := places j r found
      grind
    · intro id' r
      have := indexed.ids id' r
      have := members r
      grind
    · intro ip' r
      have := indexed.ips ip' r
      have := members r
      grind
    · intro r inside
      have := indexed.found r
      have := members r
      grind

theorem step_indexed {keys' : Keystore} {act : Act} (indexed : Indexed keys live)
    (met : OwnAddress keys act) (moved : step keys act = some keys') :
    ∃ live', Indexed keys' live' := by
  cases act with
  | add id ip =>
    cases moved
    rw [OwnAddress, indexed.live_eq] at met
    exact ⟨_, indexed.add met⟩
  | delete id =>
    cases moved
    exact indexed.delete met

/-- **The lookups agree with the array** in every run in which each id is added once and no entry
is deleted that shares its address with another live one. -/
theorem key_store_consistent (sender : Entry) {acts : List Act}
    (run : Steps (Meeting OwnAddress fun keys act keys' => step keys act = some keys')
      (.init sender) acts keys) : Consistent keys := by
  have start : Indexed (.init sender) [] :=
    ⟨⟨[], rfl⟩, rfl, .nil, nofun, nofun, fun _ _ => by simp [Keystore.init], nofun, nofun⟩
  have kept : ∃ live, Indexed keys live := by
    induction run with
    | nil => exact ⟨[], start⟩
    | snoc _ last ih =>
      obtain ⟨live, indexed⟩ := ih
      exact step_indexed indexed last.1 last.2
  obtain ⟨live, indexed⟩ := kept
  exact indexed.consistent

theorem key_store_consistent_moved : ∃ keys, Steps
    (Meeting OwnAddress fun keys act keys' => step keys act = some keys')
    (.init ⟨[], [], 0⟩) [.add ['1'] ['a'], .add ['2'] ['a'], .add ['3'] ['b'], .delete ['3'],
      .add ['4'] ['c'], .add ['5'] ['d'], .delete ['4']] keys ∧ Consistent keys ∧
    isAllowedID keys ['5'] = some 2 ∧ isAllowedIP keys ['a'] = some 0 := by
  have run : Steps (Meeting OwnAddress fun keys act keys' => step keys act = some keys')
      (.init ⟨[], [], 0⟩) [.add ['1'] ['a'], .add ['2'] ['a'], .add ['3'] ['b'], .delete ['3'],
        .add ['4'] ['c'], .add ['5'] ['d'], .delete ['4']] _ :=
    Steps.of_executeChecked (fun met => of_decide_eq_true met) rfl
  exact ⟨_, run, key_store_consistent _ run, rfl, rfl⟩

/-- Agents 1 and 2 have one address and agent 2 is deleted: agent 1 is live and its address is not
found. -/
theorem shared_address_lost : ∃ keys,
    execute step (.init ⟨[], [], 0⟩) [.add ['1'] ['a'], .add ['2'] ['a'], .delete ['2']] = some keys ∧
      isAllowedID keys ['1'] = some 0 ∧ isAllowedIP keys ['a'] = none ∧ ¬ Consistent keys := by
  refine ⟨_, rfl, rfl, rfl, fun consistent => ?_⟩
  exact consistent.found 1 (mem_singleton_self 1) rfl

end GuardSarm.KeyIndex
