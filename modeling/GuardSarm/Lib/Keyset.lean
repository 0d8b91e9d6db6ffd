import Mathlib

/-!
# Pages of a sorted list

A sorted list is read page by page: each page holds the first elements that
are strictly greater than the last one of the page before. Elements equal to
that last one which did not fit on its page are never read.
-/

namespace GuardSarm.Keyset

open List

variable {α : Type} [LinearOrder α] {size : Nat}

def beyond (bound : α) (docs : List α) : List α := docs.filter (bound < ·)

theorem beyond_sublist (bound : α) (docs : List α) : (beyond bound docs).Sublist docs :=
  List.filter_sublist

theorem mem_beyond {bound d : α} {docs : List α} : d ∈ beyond bound docs ↔ d ∈ docs ∧ bound < d := by
  rw [beyond, mem_filter, decide_eq_true_iff]

theorem beyond_beyond {bound higher : α} (less : bound < higher) (docs : List α) :
    beyond higher (beyond bound docs) = beyond higher docs := by
  rw [beyond, beyond, beyond, filter_filter]
  refine filter_congr fun d _ => ?_
  rw [Bool.and_eq_left_iff_imp]
  exact fun greater => decide_eq_true (less.trans (of_decide_eq_true greater))

/-- What is read from a list on, page by page. -/
def collected (size : Nat) (rest : List α) : List α :=
  if full : 0 < size ∧ size ≤ rest.length then
    rest.take size ++ collected size (beyond (rest.get ⟨size - 1, by omega⟩) (rest.drop size))
  else rest
termination_by rest.length
decreasing_by
  have shorter := (beyond_sublist (rest.get ⟨size - 1, by omega⟩) (rest.drop size)).length_le
  rw [List.length_drop] at shorter
  omega

def Aligned (size : Nat) (rest : List α) : Prop :=
  ∀ k y, rest[size * k + (size - 1)]? = some y → rest[size * (k + 1)]? ≠ some y

theorem collected_sublist (size : Nat) (rest : List α) : (collected size rest).Sublist rest := by
  fun_induction collected size rest with
  | case1 rest full ih =>
    have whole := (List.Sublist.refl (rest.take size)).append (ih.trans (beyond_sublist _ _))
    rwa [take_append_drop] at whole
  | case2 rest => exact .refl _

/-- In a sorted list, only elements equal to the bound are left out. -/
theorem beyond_eq_self_iff {bound : α} {docs : List α} (sorted : docs.Pairwise (· ≤ ·))
    (above : ∀ d ∈ docs, bound ≤ d) : beyond bound docs = docs ↔ docs.head? ≠ some bound := by
  rw [beyond, filter_eq_self]
  cases docs with
  | nil => simp
  | cons d docs =>
    have first := above d mem_cons_self
    constructor
    · intro all same
      have less := of_decide_eq_true (all d mem_cons_self)
      exact less.ne (Option.some.inj same).symm
    · intro differ e member
      have lower : d ≤ e := by
        cases mem_cons.mp member with
        | inl same => exact same.ge
        | inr later => exact (pairwise_cons.mp sorted).1 e later
      have strict : bound < d := lt_of_le_of_ne first fun same => differ (congrArg some same.symm)
      exact decide_eq_true (strict.trans_le lower)

/-- Behind the last element of a full page, nothing of the page is left. -/
theorem beyond_drop {rest : List α} (sorted : rest.Pairwise (· ≤ ·)) {last : α}
    (found : rest[size - 1]? = some last) : beyond last rest = beyond last (rest.drop size) := by
  obtain ⟨inside, rfl⟩ := List.getElem?_eq_some_iff.mp found
  have none : beyond rest[size - 1] (rest.take size) = [] := by
    rw [beyond, filter_eq_nil_iff]
    intro d member
    obtain ⟨i, bound, rfl⟩ := mem_iff_getElem.mp member
    rw [length_take] at bound
    rw [getElem_take, decide_eq_true_iff, not_lt]
    rcases Nat.lt_or_eq_of_le (show i ≤ size - 1 by omega) with less | rfl
    · exact pairwise_iff_getElem.mp sorted _ _ _ _ less
    · exact le_rfl
  calc beyond rest[size - 1] rest
      = beyond rest[size - 1] (rest.take size ++ rest.drop size) := by rw [take_append_drop]
    _ = beyond rest[size - 1] (rest.drop size) := by
      rw [beyond, filter_append, ← beyond, none, nil_append, beyond]

omit [LinearOrder α] in
/-- The pages of a list: where the first one ends, and the others. -/
theorem aligned_iff (positive : 0 < size) {rest : List α} (full : size ≤ rest.length) :
    Aligned size rest ↔
      rest[size]? ≠ some (rest.get ⟨size - 1, by omega⟩) ∧ Aligned size (rest.drop size) := by
  have shift (k : Nat) : size * (k + 1) = size + size * k := by ring
  constructor
  · intro aligned
    refine ⟨?_, fun k y found => ?_⟩
    · have first := aligned 0 (rest.get ⟨size - 1, by omega⟩)
      simp only [Nat.mul_zero, Nat.zero_add, Nat.mul_one] at first
      exact first (getElem?_eq_getElem _)
    · rw [getElem?_drop] at found ⊢
      have later := aligned (k + 1) y
      rw [shift, Nat.add_assoc] at later
      rw [← shift]
      exact later found
  · intro ⟨first, later⟩ k y found
    cases k with
    | zero =>
      simp only [Nat.mul_zero, Nat.zero_add, Nat.mul_one] at found ⊢
      rw [getElem?_eq_getElem (by omega)] at found
      exact Option.some.inj found ▸ first
    | succ k =>
      have here := later k y
      rw [getElem?_drop, getElem?_drop, ← Nat.add_assoc, ← shift, ← shift] at here
      exact here found

/-- **Everything is read exactly if no page ends between equal elements.** -/
theorem collected_eq_iff (positive : 0 < size) {rest : List α} (sorted : rest.Pairwise (· ≤ ·)) :
    collected size rest = rest ↔ Aligned size rest := by
  fun_induction collected size rest with
  | case1 rest full ih =>
    have sortedRest := sorted.sublist (drop_sublist size rest)
    have above : ∀ d ∈ rest.drop size, rest.get ⟨size - 1, by omega⟩ ≤ d := by
      intro d member
      obtain ⟨i, bound, rfl⟩ := mem_iff_getElem.mp member
      rw [getElem_drop]
      exact pairwise_iff_getElem.mp sorted _ _ _ _ (by omega)
    have same := beyond_eq_self_iff sortedRest above
    rw [head?_drop] at same
    rw [aligned_iff positive full.2, ← same]
    constructor
    · intro whole
      have read : collected size (beyond (rest.get ⟨size - 1, by omega⟩) (rest.drop size)) =
          rest.drop size :=
        append_cancel_left (whole.trans (take_append_drop size rest).symm)
      -- what is read is part of what is beyond the bound
      have kept : beyond (rest.get ⟨size - 1, by omega⟩) (rest.drop size) = rest.drop size := by
        have part := collected_sublist size (beyond (rest.get ⟨size - 1, by omega⟩) (rest.drop size))
        rw [read] at part
        exact (beyond_sublist _ _).antisymm part
      rw [kept] at ih read
      exact ⟨kept, (ih sortedRest).mp read⟩
    · intro ⟨kept, later⟩
      rw [kept] at ih ⊢
      rw [(ih sortedRest).mpr later, take_append_drop]
  | case2 rest short =>
    refine ⟨fun _ k y found => ?_, fun _ => rfl⟩
    have inside := (List.getElem?_eq_some_iff.mp found).1
    have last : size - 1 < rest.length := Nat.lt_of_le_of_lt (Nat.le_add_left _ _) inside
    exact absurd ⟨positive, by omega⟩ short

end GuardSarm.Keyset
