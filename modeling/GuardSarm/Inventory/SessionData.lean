import GuardSarm.Inventory.DataStore
import GuardSarm.Lib.PrefixRange

/-! The keys of a session in the store. Seeking the session's number with the
underscore behind it visits exactly its keys. Deleting by the number alone also
reaches the keys of every session whose number starts with the same digits. -/
namespace GuardSarm.Inventory

open List

theorem decimal_inj {m n : Nat} : decimal m = decimal n ↔ m = n := by
  refine ⟨fun same => ?_, congrArg decimal⟩
  have back := congrArg (Nat.ofDigitChars 10 · 0) same
  simpa only [decimal, Nat.ofDigitChars_ten_toDigits] using back

theorem underscore_notMem_decimal (n : Nat) : '_' ∉ decimal n := Nat.underscore_not_in_toDigits

theorem lt_top_of_mem_decimal {n : Nat} {c : Char} (member : c ∈ decimal n) : c < '\xff' := by
  have digit := Nat.isDigit_of_mem_toDigits (by decide) (by decide) member
  simp only [Char.isDigit, Bool.and_eq_true, decide_eq_true_eq] at digit
  exact lt_of_le_of_lt digit.2 (by decide)

/-- The key belongs to the session, as one of its values or contexts. -/
def KeyOf (session : Nat) (key : Key) : Prop :=
  ∃ seq, key = dataKey session seq ∨ key = contextKey session seq

namespace KeyOf

variable {session : Nat} {key : Key}

theorem shape (own : KeyOf session key) : ∃ rest, key = decimal session ++ '_' :: rest := by
  obtain ⟨seq, rfl | rfl⟩ := own
  · exact ⟨decimal seq, rfl⟩
  · exact ⟨decimal seq ++ "_context".toList, by simp [contextKey, dataKey]⟩

theorem lt_top (own : KeyOf session key) : ∀ c ∈ key, c < '\xff' := by
  have suffix : ∀ c ∈ "_context".toList, c < '\xff' := by simp
  have data : ∀ seq, ∀ c ∈ dataKey session seq, c < '\xff' := by
    intro seq c member
    rw [dataKey, mem_append, mem_cons] at member
    rcases member with digit | rfl | digit
    · exact lt_top_of_mem_decimal digit
    · decide
    · exact lt_top_of_mem_decimal digit
  obtain ⟨seq, rfl | rfl⟩ := own
  · exact data seq
  · intro c member
    rcases mem_append.mp member with first | last
    · exact data seq c first
    · exact suffix c last

theorem starts_iff (own : KeyOf session key) (other : Nat) :
    decimal other <+: key ↔ decimal other <+: decimal session := by
  obtain ⟨rest, rfl⟩ := own.shape
  exact prefix_separated_iff (underscore_notMem_decimal other)

theorem sought_iff (own : KeyOf session key) (other : Nat) :
    decimal other ++ ['_'] <+: key ↔ other = session := by
  obtain ⟨rest, rfl⟩ := own.shape
  rw [separated_prefix_iff (underscore_notMem_decimal other) (underscore_notMem_decimal session),
    decimal_inj]

theorem unique {other : Nat} (own : KeyOf session key) (own' : KeyOf other key) : session = other :=
  (own'.sought_iff session).mp ((own.sought_iff session).mpr rfl)

end KeyOf

namespace DataStore

variable {store : DataStore} {session : Nat} {key : Key}

def Keyed (store : DataStore) : Prop := ∀ e ∈ store.rows, ∃ session, KeyOf session e.key

def Holds (store : DataStore) (session : Nat) : Prop :=
  ∃ key, KeyOf session key ∧ store.get key ≠ none

theorem get_deleteByPrefix (store : DataStore) (own : KeyOf session key) (other : Nat) :
    (store.deleteByPrefix (decimal other)).get key =
      if decimal other <+: decimal session then none else store.get key := by
  have range : (decide (decimal other ≤ key ∧ key < decimal other ++ ['\xff'])) =
      decide (decimal other <+: decimal session) := by
    rw [decide_eq_decide, ← own.starts_iff, ← mem_prefix_range_iff own.lt_top, not_lt]
  rw [get, deleteByPrefix, deleteRange, Table.find_deleteWhere]
  cases found : store.find key with
  | none => simp [get, found]
  | some e =>
    have same : e.key = key := Table.find_key found
    simp only [Option.filter_some, same, range, get, found]
    split
    · rename_i kept
      have apart : ¬decimal other <+: decimal session := by simpa using kept
      rw [if_neg apart]
    · rename_i dropped
      have reached : decimal other <+: decimal session := by simpa using dropped
      rw [if_pos reached]
      rfl

theorem not_holds_deleteByPrefix (store : DataStore) (session : Nat) :
    ¬(store.deleteByPrefix (decimal session)).Holds session := by
  rintro ⟨key, own, stored⟩
  rw [get_deleteByPrefix store own, if_pos prefix_rfl] at stored
  exact stored rfl

theorem holds_of_deleteByPrefix {other : Nat}
    (holds : (store.deleteByPrefix (decimal other)).Holds session) : store.Holds session := by
  obtain ⟨key, own, stored⟩ := holds
  refine ⟨key, own, ?_⟩
  rw [get_deleteByPrefix store own] at stored
  split at stored
  · exact absurd rfl stored
  · exact stored

theorem holds_put {other : Nat} {value : Payload} (own : KeyOf other key)
    (holds : (store.put key value).Holds session) : session = other ∨ store.Holds session := by
  obtain ⟨k, own', stored⟩ := holds
  rw [get_put] at stored
  split at stored
  · rename_i same
    subst same
    exact .inl (own'.unique own)
  · exact .inr ⟨k, own', stored⟩

theorem Keyed.put (keyed : store.Keyed) (own : KeyOf session key) (value : Payload) :
    (store.put key value).Keyed := by
  intro e member
  have found := (Table.mem_rows_iff _ e).mp member
  have got : (store.put key value).get e.key = some e.value := by rw [get, found]; rfl
  rw [get_put] at got
  split at got
  · rename_i same
    exact ⟨session, same ▸ own⟩
  · obtain ⟨e', found', _⟩ := Option.map_eq_some_iff.mp got
    obtain ⟨member', same⟩ := (Table.find_some_iff _ _ _).mp found'
    exact same ▸ keyed e' member'

theorem Keyed.deleteByPrefix (keyed : store.Keyed) (start : Key) :
    (store.deleteByPrefix start).Keyed := by
  intro e member
  exact keyed e ((Table.mem_deleteWhere_iff _ _ _).mp member).1

theorem mem_seek_iff (store : DataStore) (start : Key) (e : Entry) :
    e ∈ store.seek start ↔ e ∈ store.rows ∧ start <+: e.key := by
  rw [seek, (perm_insertionSort _ _).mem_iff, Table.select, mem_filter,
    isPrefixOf_iff_prefix]

theorem nodup_seek (store : DataStore) (start : Key) : ((store.seek start).map (·.key)).Nodup := by
  have kept : ((store.select fun e => start.isPrefixOf e.key).map (·.key)).Nodup :=
    store.unique.sublist (filter_sublist.map _)
  exact ((perm_insertionSort _ _).map _).nodup_iff.mpr kept

/-- Seeking a session's number with the underscore visits exactly its keys. -/
theorem Keyed.mem_seek_iff (keyed : store.Keyed) (session : Nat) (e : Entry) :
    e ∈ store.seek (decimal session ++ ['_']) ↔ e ∈ store.rows ∧ KeyOf session e.key := by
  rw [DataStore.mem_seek_iff]
  refine and_congr_right fun member => ?_
  obtain ⟨other, own⟩ := keyed e member
  rw [own.sought_iff]
  constructor
  · rintro rfl
    exact own
  · intro own'
    exact own'.unique own

end DataStore

end GuardSarm.Inventory
