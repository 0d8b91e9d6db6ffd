import GuardSarm.Lib.Table
import GuardSarm.Inventory.Message

/-! The key-value store that holds the data of every session until it is indexed.
A key is the session's number and the sequence number in decimal. -/
namespace GuardSarm.Inventory

abbrev Key := List Char

/-- `std::format("{}", n)`. -/
def decimal (n : Nat) : List Char := Nat.toDigits 10 n

def dataKey (session seq : Nat) : Key := decimal session ++ '_' :: decimal seq

def contextKey (session seq : Nat) : Key := dataKey session seq ++ "_context".toList

/-- A stored message. -/
inductive Payload
  | dataValue (data : DataValue)
  | dataContext (data : DataContext)
  deriving DecidableEq, Repr

structure Entry where
  key : Key
  value : Payload
  deriving DecidableEq, Repr

abbrev DataStore := Table Entry.key

namespace DataStore

def get (store : DataStore) (key : Key) : Option Payload := (store.find key).map (·.value)

def put (store : DataStore) (key : Key) (value : Payload) : DataStore :=
  (store.deleteWhere fun e => e.key = key).insert ⟨key, value⟩

/-- `DeleteRange` over `[first, last)` in the order of the bytes. -/
def deleteRange (store : DataStore) (first last : Key) : DataStore :=
  store.deleteWhere fun e => decide (first ≤ e.key ∧ e.key < last)

def deleteByPrefix (store : DataStore) (keyStart : Key) : DataStore :=
  store.deleteRange keyStart (keyStart ++ ['\xff'])

/-- The entries whose key starts with the given text, in the order of their keys. -/
def seek (store : DataStore) (keyStart : Key) : List Entry :=
  (store.select fun e => keyStart.isPrefixOf e.key).insertionSort (·.key ≤ ·.key)

theorem get_put (store : DataStore) (key : Key) (value : Payload) (k : Key) :
    (store.put key value).get k = if k = key then some value else store.get k := by
  have fresh : (store.deleteWhere fun e => e.key = key).find (Entry.key ⟨key, value⟩) = none := by
    rw [Table.find_deleteWhere]
    change Option.filter _ (store.find key) = none
    cases found : store.find key with
    | none => rfl
    | some e => simp [Option.filter_some, Table.find_key found]
  simp only [get, put]
  rw [Table.find_insert fresh]
  split
  · rfl
  · rename_i other
    rw [Table.find_deleteWhere]
    cases found : store.find k with
    | none => rfl
    | some e => simp [Option.filter_some, Table.find_key found, other]

end DataStore

end GuardSarm.Inventory
