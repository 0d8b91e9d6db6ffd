import Mathlib

/-!
# Comparing lists that end with an element of their own

Two lists are compared position by position, the shorter one continued with a
padding element. An element below the padding makes a longer list smaller, an
element above it makes it greater, and one that compares equal to it makes no
difference.

* `comparePadded_transCmp`: a total preorder, if the elements have one;
* `comparePadded_eq_iff`: equal lists are equal at every position.
-/

namespace GuardSarm

open Std

variable {α : Type} (cmp : α → α → Ordering) (pad : α)

/-- The padding against a list. -/
def comparePadding : List α → Ordering
  | [] => .eq
  | y :: ys => (cmp pad y).then (comparePadding ys)

def comparePadded : List α → List α → Ordering
  | [], ys => comparePadding cmp pad ys
  | x :: xs, ys => (cmp x (ys.headD pad)).then (comparePadded xs ys.tail)

variable {cmp pad}

/-- The first positions decide, or what follows them; also for lists that have ended. -/
theorem comparePadded_step [ReflCmp cmp] (xs ys : List α) : comparePadded cmp pad xs ys =
      (cmp (xs.headD pad) (ys.headD pad)).then (comparePadded cmp pad xs.tail ys.tail) := by
  cases xs with
  | nil =>
    cases ys with
    | nil => simp [comparePadded, comparePadding, ReflCmp.compare_self]
    | cons y ys => rfl
  | cons x xs => rfl

theorem then_swap (first second : Ordering) :
    (first.then second).swap = first.swap.then second.swap := by
  cases first <;> rfl

theorem compare_then {difference : Int} (differ : difference ≠ 0) (next : Ordering) :
    (compare difference 0).then next = compare difference 0 := by
  cases sign : compare difference 0 with
  | eq => exact absurd (Std.compare_eq_iff_eq.mp sign) differ
  | lt => rfl
  | gt => rfl

theorem transCmp_map {β : Type} (cmp : α → α → Ordering) [TransCmp cmp] (f : β → α) :
    TransCmp fun x y => cmp (f x) (f y) where
  eq_swap := OrientedCmp.eq_swap
  isLE_trans := TransCmp.isLE_trans

/-- Lexicographic comparison is transitive where its two parts are. -/
theorem isLE_then_trans [TransCmp cmp] {x y z : α} {first second third : Ordering}
    (rest : first.isLE = true → second.isLE = true → third.isLE = true)
    (low : ((cmp x y).then first).isLE = true) (high : ((cmp y z).then second).isLE = true) :
    ((cmp x z).then third).isLE = true := by
  cases left : cmp x y with
  | gt => simp [left] at low
  | lt =>
    have less : cmp x z = .lt := by
      cases right : cmp y z with
      | gt => simp [right] at high
      | lt => exact TransCmp.lt_trans left right
      | eq => exact TransCmp.lt_of_lt_of_eq left right
    rw [less]
    rfl
  | eq =>
    rw [TransCmp.congr_left left]
    cases right : cmp y z with
    | gt => simp [right] at high
    | lt => rfl
    | eq =>
      rw [left] at low
      rw [right] at high
      exact rest low high

/-- Induction over lists that are walked through together: their tails come first, also where one of
them has ended. -/
theorem tails_induction {P : List α → List α → List α → Prop} (ended : P [] [] [])
    (step : ∀ xs ys zs, P xs.tail ys.tail zs.tail → P xs ys zs) (xs ys zs : List α) :
    P xs ys zs := by
  have bounded (bound : Nat) (xs ys zs : List α)
      (long : xs.length ≤ bound ∧ ys.length ≤ bound ∧ zs.length ≤ bound) : P xs ys zs := by
    induction bound generalizing xs ys zs with
    | zero =>
      obtain ⟨emptyX, emptyY, emptyZ⟩ := long
      rw [Nat.le_zero, List.length_eq_zero_iff] at emptyX emptyY emptyZ
      subst emptyX emptyY emptyZ
      exact ended
    | succ bound ih =>
      apply step
      apply ih
      simp only [List.length_tail]
      omega
  exact bounded (max xs.length (max ys.length zs.length)) xs ys zs (by omega)

theorem comparePadded_swap [OrientedCmp cmp] (xs ys : List α) :
    comparePadded cmp pad xs ys = (comparePadded cmp pad ys xs).swap := by
  induction xs, ys, ([] : List α) using tails_induction with
  | ended => rfl
  | step xs ys _ ih =>
    rw [comparePadded_step xs, comparePadded_step ys, then_swap, ← OrientedCmp.eq_swap, ← ih]

instance comparePadded_oriented [OrientedCmp cmp] : OrientedCmp (comparePadded cmp pad) where
  eq_swap := comparePadded_swap _ _

instance comparePadded_transCmp [TransCmp cmp] : TransCmp (comparePadded cmp pad) where
  isLE_trans {xs ys zs} := by
    induction xs, ys, zs using tails_induction with
    | ended => exact fun _ _ => rfl
    | step xs ys zs ih =>
      rw [comparePadded_step xs, comparePadded_step ys zs, comparePadded_step xs zs]
      exact isLE_then_trans ih

theorem comparePadded_eq_iff [ReflCmp cmp] (xs ys : List α) :
    comparePadded cmp pad xs ys = .eq ↔ ∀ i, cmp (xs.getD i pad) (ys.getD i pad) = .eq := by
  have later (zs : List α) (i : Nat) : zs.getD (i + 1) pad = zs.tail.getD i pad := by
    cases zs <;> rfl
  have first (zs : List α) : zs.getD 0 pad = zs.headD pad := by
    cases zs <;> rfl
  induction xs, ys, ([] : List α) using tails_induction with
  | ended => simp [comparePadded, comparePadding, ReflCmp.compare_self]
  | step xs ys _ ih =>
    rw [comparePadded_step, Ordering.then_eq_eq]
    refine (and_congr_right' ih).trans ?_
    constructor
    · rintro ⟨head, tail⟩ i
      cases i with
      | zero => rw [first, first, head]
      | succ i => rw [later, later, tail i]
    · intro every
      refine ⟨?_, fun i => ?_⟩
      · rw [← first, ← first, every 0]
      · rw [← later, ← later, every (i + 1)]

end GuardSarm
