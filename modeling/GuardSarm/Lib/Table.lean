import Mathlib

/-! A table with a primary key, its rows in insertion order. The key's
uniqueness is a field, so every operation below keeps it; `find` after each
operation is stated once, and a proof about one row then never looks at the
list of rows. -/
namespace GuardSarm

open List

variable {Row Key : Type*} [DecidableEq Key]

structure Table (key : Row → Key) where
  rows : List Row
  unique : (rows.map key).Nodup

namespace Table

variable {key : Row → Key}

def empty : Table key := ⟨[], List.nodup_nil⟩

def find (t : Table key) (k : Key) : Option Row := t.rows.find? fun r => key r = k

/-- The rows that satisfy a condition, in insertion order. -/
def select (t : Table key) (p : Row → Bool) : List Row := t.rows.filter p

theorem find_some_iff (t : Table key) (k : Key) (r : Row) :
    t.find k = some r ↔ r ∈ t.rows ∧ key r = k := by
  constructor
  · intro h
    exact ⟨mem_of_find?_eq_some h, by simpa using find?_some h⟩
  · rintro ⟨member, rfl⟩
    obtain ⟨rows, unique⟩ := t
    simp only [find] at member ⊢
    induction rows with
    | nil => cases member
    | cons x xs ih =>
      simp only [map_cons, nodup_cons] at unique
      rcases mem_cons.mp member with rfl | tail
      · simp
      · have other : key x ≠ key r := fun same =>
          unique.1 (same ▸ mem_map_of_mem (f := key) tail)
        simpa [find?_cons, other] using ih unique.2 tail

theorem find_none_iff (t : Table key) (k : Key) : t.find k = none ↔ ∀ r ∈ t.rows, key r ≠ k := by
  simp [find]

variable {t : Table key}

theorem find_key {k : Key} {r : Row} (h : t.find k = some r) : key r = k :=
  ((t.find_some_iff k r).mp h).2

theorem mem_rows_iff (t : Table key) (r : Row) : r ∈ t.rows ↔ t.find (key r) = some r := by
  simp [find_some_iff]

theorem mem_select_iff (t : Table key) (p : Row → Bool) (r : Row) :
    r ∈ t.select p ↔ t.find (key r) = some r ∧ p r = true := by
  rw [select, mem_filter, mem_rows_iff]

theorem rows_eq_nil_of_find (h : ∀ k, t.find k = none) : t.rows = [] := by
  apply eq_nil_iff_forall_not_mem.mpr
  intro r member
  exact (t.find_none_iff (key r)).mp (h _) r member rfl

@[simp] theorem find_empty (k : Key) : (empty : Table key).find k = none := rfl

/-- Append a row; a row whose key is present is refused. -/
def insert (t : Table key) (r : Row) : Table key :=
  if h : t.find (key r) = none then
    ⟨t.rows ++ [r], by
      rw [List.map_append, List.nodup_append]
      refine ⟨t.unique, List.nodup_singleton _, ?_⟩
      simp only [List.map_cons, List.map_nil, List.mem_singleton, List.mem_map]
      rintro _ ⟨x, member, rfl⟩ _ rfl
      exact (t.find_none_iff (key r)).mp h x member⟩
  else t

theorem find_insert {r : Row} (fresh : t.find (key r) = none) (k : Key) :
    (t.insert r).find k = if k = key r then some r else t.find k := by
  unfold insert
  rw [dif_pos fresh]
  simp only [find, find?_append]
  split
  · rename_i same
    subst same
    have none := fresh
    simp only [find] at none
    simp [none]
  · rename_i other
    have other' : key r ≠ k := fun same => other same.symm
    simp [other']

/-- Rewrite the rows that satisfy a condition; the key may not change. -/
def updateWhere (t : Table key) (p : Row → Bool) (f : Row → Row)
    (keep : ∀ r, key (f r) = key r) : Table key :=
  ⟨t.rows.map fun r => if p r then f r else r, by
    have same : (t.rows.map fun r => if p r then f r else r).map key = t.rows.map key := by
      rw [List.map_map]
      apply List.map_congr_left
      intro r _
      simp only [Function.comp]
      split
      · exact keep r
      · rfl
    rw [same]; exact t.unique⟩

theorem find_updateWhere (t : Table key) (p : Row → Bool) (f : Row → Row)
    (keep : ∀ r, key (f r) = key r) (k : Key) :
    (t.updateWhere p f keep).find k = (t.find k).map fun r => if p r then f r else r := by
  have keyOf : ∀ r, key (if p r then f r else r) = key r := by
    intro r
    split
    · exact keep r
    · rfl
  simp only [find, updateWhere, find?_map]
  congr 1
  apply congrArg (List.find? · t.rows)
  funext r
  simp [keyOf]

/-- Delete the rows that satisfy a condition. -/
def deleteWhere (t : Table key) (p : Row → Bool) : Table key :=
  ⟨t.rows.filter fun r => !p r, t.unique.sublist (List.filter_sublist.map key)⟩

theorem find_deleteWhere (t : Table key) (p : Row → Bool) (k : Key) :
    (t.deleteWhere p).find k = (t.find k).filter fun r => !p r := by
  cases found : t.find k with
  | none =>
    rw [find_none_iff] at found
    rw [Option.filter_none, find_none_iff]
    intro r member
    exact found r (mem_filter.mp member).1
  | some r =>
    obtain ⟨member, atKey⟩ := (t.find_some_iff k r).mp found
    cases hit : p r with
    | false =>
      simp only [Option.filter_some, hit, Bool.not_false, ↓reduceIte]
      exact (find_some_iff _ k r).mpr ⟨mem_filter.mpr ⟨member, by simp [hit]⟩, atKey⟩
    | true =>
      simp only [Option.filter_some, hit, Bool.not_true, Bool.false_eq_true, ↓reduceIte]
      rw [find_none_iff]
      intro x hx same
      obtain ⟨hx, keep⟩ := mem_filter.mp hx
      have : t.find k = some x := (t.find_some_iff k x).mpr ⟨hx, same⟩
      rw [found] at this
      cases this
      simp [hit] at keep

theorem rows_insert {r : Row} (fresh : t.find (key r) = none) :
    (t.insert r).rows = t.rows ++ [r] := by
  rw [insert, dif_pos fresh]

theorem mem_deleteWhere_iff (t : Table key) (p : Row → Bool) (r : Row) :
    r ∈ (t.deleteWhere p).rows ↔ r ∈ t.rows ∧ p r = false := by
  simp [deleteWhere, mem_filter]

/-- Deleting the row with a key takes its share out of a sum over the rows. -/
theorem sum_deleteWhere {k : Key} {r : Row} (found : t.find k = some r) (weight : Row → Nat) :
    ((t.deleteWhere fun x => key x = k).rows.map weight).sum + weight r =
      (t.rows.map weight).sum := by
  obtain ⟨rows, unique⟩ := t
  obtain ⟨member, rfl⟩ := (find_some_iff _ _ _).mp found
  clear found
  simp only [deleteWhere] at member ⊢
  induction rows with
  | nil => cases member
  | cons x xs ih =>
    simp only [map_cons, nodup_cons] at unique
    rcases mem_cons.mp member with rfl | tail
    · have others : xs.filter (fun x => !decide (key x = key r)) = xs := by
        apply filter_eq_self.mpr
        intro y hy
        have other : key y ≠ key r := fun same => unique.1 (same ▸ mem_map_of_mem hy)
        simp [other]
      simp [others, Nat.add_comm]
    · have other : key x ≠ key r := fun same => unique.1 (same ▸ mem_map_of_mem tail)
      have rest := ih unique.2 tail
      simp only [filter_cons, other, decide_false, Bool.not_false, if_true, map_cons,
        sum_cons]
      omega

end Table

end GuardSarm
