import Mathlib

/-!
# Sorting dictionaries

`sort_array` for a list of dictionaries. `sorted` raises a `TypeError` where a
missing value would have to be compared with another one. What is done then
takes out the dictionaries that have one of the sort fields, not those that
lack one, and sorts the rest, which are all alike. So the dictionaries that
can be ordered keep the places they have.
-/

namespace GuardSarm

open List

/-- The arguments of `sort_array`, with what `get` and `lower` do. A value that is no string is
its own lower case, and none is `None`. -/
structure Sorting (Dict Field Value : Type) where
  get : Dict → Field → Option Value
  lower : Value → Value
  sortBy : List Field
  sortAscending : Bool
  allowedSortFields : List Field

inductive SortError (Field : Type)
  | notAllowed (incorrectFields : List Field)
  | typeError

/-- Two tuples can be compared unless just one has a value where they first differ. -/
def comparable {Value : Type} [DecidableEq Value] : List (WithBot Value) → List (WithBot Value) → Bool
  | x :: xs, y :: ys => if x = y then comparable xs ys else x != ⊥ && y != ⊥
  | _, _ => true

namespace Sorting

variable {Dict Field Value : Type} [DecidableEq Dict] [DecidableEq Field] [LinearOrder Value]
  (s : Sorting Dict Field Value)

/-- The tuple that is compared, with `⊥` for `None`. -/
def key (o : Dict) : List (WithBot Value) := s.sortBy.map fun a => (s.get o a).map s.lower

/-- The first may stand before the second. -/
def Before (x y : Dict) : Prop := if s.sortAscending then s.key x ≤ s.key y else s.key y ≤ s.key x

instance : DecidableRel s.Before := fun _ _ => by
  unfold Before
  infer_instance

def Comparable (array : List Dict) : Prop :=
  ∀ x ∈ array, ∀ y ∈ array, comparable (s.key x) (s.key y) = true

instance (array : List Dict) : Decidable (s.Comparable array) :=
  inferInstanceAs (Decidable (∀ x ∈ array, _))

/-- `sorted`: a stable sort, which has to compare any two neighbours in the order. -/
def sorted (array : List Dict) : Except (SortError Field) (List Dict) :=
  if s.Comparable array then .ok (array.insertionSort s.Before) else .error .typeError

def hasField (item : Dict) : Bool := s.sortBy.any fun a => (s.get item a).isSome

/-- One pass of the loop over `array`: what is taken out, and what is left of the copy. -/
def moveItem (lists : List Dict × List Dict) (item : Dict) : List Dict × List Dict :=
  if s.hasField item then (lists.1 ++ [item], lists.2.erase item) else lists

def sortMissing (array : List Dict) : Except (SortError Field) (List Dict) := do
  let (itemsWithMissingKeys, copyArray) := array.foldl s.moveItem ([], array)
  let sortedArray ← s.sorted copyArray
  return if s.sortAscending then sortedArray ++ itemsWithMissingKeys
    else itemsWithMissingKeys ++ sortedArray

/-- The fields that are not allowed: the first dictionary says which are if nothing else does. -/
def incorrectFields (first : Dict) : List Field :=
  s.sortBy.filter fun a =>
    if s.allowedSortFields = [] then (s.get first a).isNone else a ∉ s.allowedSortFields

def sortArray : List Dict → Except (SortError Field) (List Dict)
  | [] => .ok []
  | first :: rest =>
    if s.incorrectFields first ≠ [] then .error (.notAllowed (s.incorrectFields first))
    else if s.sortBy = [] then .ok (first :: rest)
    else
      match s.sorted (first :: rest) with
      | .error .typeError => s.sortMissing (first :: rest)
      | result => result

def Complete (o : Dict) : Prop := ∀ a ∈ s.sortBy, (s.get o a).isSome = true

instance : DecidablePred s.Complete := fun _ => inferInstanceAs (Decidable (∀ a ∈ s.sortBy, _))

/-- The dictionaries that stand at the back: the complete ones or the others. -/
def Last (behind : Bool) (o : Dict) : Prop := s.Complete o ↔ behind = true

/-- What the sorted list should be. -/
structure Arranged (array result : List Dict) : Prop where
  perm : result.Perm array
  ordered : (result.filter s.Complete).Pairwise s.Before
  together : ∃ behind, result.Pairwise fun x y => s.Last behind x → s.Last behind y

/-- The complete dictionaries belong on one side of the others. -/
def Apart (array : List Dict) : Prop :=
  ∃ behind, ∀ x ∈ array, ∀ y ∈ array, s.Last behind x → ¬s.Last behind y → ¬s.Before x y

def taken (array : List Dict) : List Dict := array.filter s.hasField

def left (array : List Dict) : List Dict := array.filter fun o => !s.hasField o

/-- The complete dictionaries are in order as they stand, and at one end of those that have a sort
field; at the end where those without are put only if there are none or no complete ones. -/
structure InPlace (array : List Dict) : Prop where
  ordered : (array.filter s.Complete).Pairwise s.Before
  together : ∃ behind, (s.taken array).Pairwise (fun x y => s.Last behind x → s.Last behind y) ∧
    (behind = s.sortAscending ∨ ∀ x ∈ s.left array, ∀ y ∈ s.taken array, ¬s.Complete y)

variable {s} {array : List Dict}

/-- In a sorted list the places of those with a property say where they belong. -/
theorem pairwise_imp_iff {le : Dict → Dict → Prop} {C : Dict → Prop}
    (apart : ∀ x y, C x → ¬C y → ¬(le x y ∧ le y x)) (sorted : array.Pairwise le) :
    (array.Pairwise fun x y => C x → C y) ↔
      ∀ x ∈ array, ∀ y ∈ array, C x → ¬C y → ¬le x y := by
  constructor
  · intro pairs
    have both := pairs.and sorted
    refine List.Pairwise.forall_of_forall_of_flip (fun x _ holds other => absurd holds other)
      (both.imp ?_) (both.imp ?_)
    · rintro x y ⟨ranked, -⟩ holds other
      exact absurd (ranked holds) other
    · rintro x y ⟨-, order⟩ holds other back
      exact apart y x holds other ⟨back, order⟩
  · intro belongs
    refine sorted.imp_of_mem fun {x y} first second order holds => ?_
    by_contra other
    exact belongs x first y second holds other order

theorem comparable_self (k : List (WithBot Value)) : comparable k k = true := by
  induction k with
  | nil => rfl
  | cons x xs ih => rw [comparable, if_pos rfl, ih]

instance : Std.Total s.Before where
  total x y := by
    unfold Before
    split <;> exact le_total _ _

instance : IsTrans Dict s.Before where
  trans x y z := by
    unfold Before
    split
    · exact le_trans
    · exact fun first second => le_trans second first

theorem Complete.of_key {x y : Dict} (same : s.key x = s.key y) (complete : s.Complete x) :
    s.Complete y := by
  intro a member
  have value := map_inj_left.mp same a member
  have given := complete a member
  cases missing : s.get y a with
  | some v => rfl
  | none =>
    rw [missing] at value
    rw [Option.map_eq_none_iff.mp value] at given
    cases given

/-- A complete dictionary and one that lacks a field have different keys. -/
theorem not_before_both (behind : Bool) (x y : Dict) (here : s.Last behind x)
    (there : ¬s.Last behind y) : ¬(s.Before x y ∧ s.Before y x) := by
  intro both
  have same : s.key x = s.key y := by
    unfold Before at both
    split at both
    · exact le_antisymm both.1 both.2
    · exact le_antisymm both.2 both.1
  exact there (Iff.trans ⟨.of_key same.symm, .of_key same⟩ here)

theorem foldl_moveItem (done rest : List Dict) :
    rest.foldl s.moveItem (s.taken done, s.left done ++ rest) =
      (s.taken (done ++ rest), s.left (done ++ rest)) := by
  induction rest generalizing done with
  | nil => simp
  | cons item rest ih =>
    have step : s.moveItem (s.taken done, s.left done ++ item :: rest) item =
        (s.taken (done ++ [item]), s.left (done ++ [item]) ++ rest) := by
      cases has : s.hasField item with
      | true =>
        have absent : item ∉ s.left done := by simp [left, has]
        rw [moveItem, if_pos has, erase_append_right _ absent]
        simp [taken, left, has]
      | false => simp [moveItem, taken, left, has]
    rw [foldl_cons, step, ih, append_assoc, singleton_append]

/-- What has no sort field is all alike. -/
theorem sorted_left (array : List Dict) : s.sorted (s.left array) = .ok (s.left array) := by
  have bottom (x : Dict) (member : x ∈ s.left array) : s.key x = s.sortBy.map fun _ => ⊥ := by
    refine map_congr_left fun a field => ?_
    have missing : s.get x a = none := by
      simp only [left, mem_filter, hasField, Bool.not_eq_true', any_eq_false] at member
      simpa using member.2 a field
    rw [missing]
    rfl
  have equal (x : Dict) (first : x ∈ s.left array) (y : Dict) (second : y ∈ s.left array) :
      s.key x = s.key y := (bottom x first).trans (bottom y second).symm
  have comparable : s.Comparable (s.left array) := by
    intro x first y second
    rw [equal x first y second, comparable_self]
  rw [sorted, if_pos comparable]
  refine congrArg _ (List.Pairwise.insertionSort_eq (pairwise_of_forall_mem_list ?_))
  intro x first y second
  rw [Before, equal x first y second, ite_self]

theorem sortMissing_eq (array : List Dict) : s.sortMissing array =
    .ok (if s.sortAscending then s.left array ++ s.taken array else s.taken array ++ s.left array) := by
  have moved : array.foldl s.moveItem ([], array) = (s.taken array, s.left array) :=
    foldl_moveItem [] array
  simp only [sortMissing, moved, sorted_left]
  rfl

theorem arranged_insertionSort_iff :
    s.Arranged array (array.insertionSort s.Before) ↔ s.Apart array := by
  have sorted := pairwise_insertionSort s.Before array
  have ranked (behind : Bool) := pairwise_imp_iff (not_before_both behind) sorted
  simp only [mem_insertionSort] at ranked
  constructor
  · rintro ⟨-, -, behind, together⟩
    exact ⟨behind, (ranked behind).mp together⟩
  · rintro ⟨behind, apart⟩
    exact ⟨perm_insertionSort _ _, sorted.filter _, behind, (ranked behind).mpr apart⟩

theorem hasField_of_complete (some : s.sortBy ≠ []) {o : Dict} (complete : s.Complete o) :
    s.hasField o = true := by
  obtain ⟨a, member⟩ := exists_mem_of_ne_nil s.sortBy some
  exact any_eq_true.mpr ⟨a, member, complete a member⟩

theorem not_complete_of_left (some : s.sortBy ≠ []) (array : List Dict) :
    ∀ o ∈ s.left array, ¬s.Complete o := by
  intro o member complete
  simp [left, hasField_of_complete some complete] at member

theorem filter_complete_taken (some : s.sortBy ≠ []) :
    (s.taken array).filter s.Complete = array.filter s.Complete := by
  rw [taken, filter_filter]
  refine filter_congr fun o _ => ?_
  by_cases complete : s.Complete o
  · simp [complete, hasField_of_complete some complete]
  · simp [complete]

theorem filter_complete_left (some : s.sortBy ≠ []) : (s.left array).filter s.Complete = [] := by
  simpa using not_complete_of_left some array

/-- Those without a sort field go to the end where the incomplete ones belong, or there is no
choice. -/
theorem pairwise_last_iff (some : s.sortBy ≠ []) (behind : Bool) :
    ((if s.sortAscending then s.left array ++ s.taken array else s.taken array ++ s.left array).Pairwise
      fun x y => s.Last behind x → s.Last behind y) ↔
      (s.taken array).Pairwise (fun x y => s.Last behind x → s.Last behind y) ∧
        (behind = s.sortAscending ∨ ∀ x ∈ s.left array, ∀ y ∈ s.taken array, ¬s.Complete y) := by
  have lacks := not_complete_of_left some array
  have alike : (s.left array).Pairwise fun x y => s.Last behind x → s.Last behind y := by
    refine pairwise_of_forall_mem_list fun x first y second => ?_
    simp [Last, lacks x first, lacks y second]
  cases s.sortAscending <;> cases behind <;>
    simp only [Bool.false_eq_true, if_false, if_true, pairwise_append, alike] <;> grind [Last]

theorem arranged_sortMissing_iff (some : s.sortBy ≠ []) :
    s.Arranged array (if s.sortAscending then s.left array ++ s.taken array
      else s.taken array ++ s.left array) ↔ s.InPlace array := by
  have perm : (s.taken array ++ s.left array).Perm array := filter_append_perm _ _
  have complete : (if s.sortAscending then s.left array ++ s.taken array
      else s.taken array ++ s.left array).filter s.Complete = array.filter s.Complete := by
    split <;> simp [filter_complete_taken some, filter_complete_left some]
  constructor
  · rintro ⟨-, ordered, behind, together⟩
    exact ⟨complete ▸ ordered, behind, (pairwise_last_iff some behind).mp together⟩
  · rintro ⟨ordered, behind, together⟩
    refine ⟨?_, complete ▸ ordered, behind, (pairwise_last_iff some behind).mpr together⟩
    split
    · exact perm_append_comm.trans perm
    · exact perm

/-- **When the list is arranged.** Where all can be compared, the complete dictionaries have to
belong together; where `sorted` raises, they have to be in their places before. -/
theorem sort_array_arranges_iff (s : Sorting Dict Field Value) (array : List Dict)
    (allowed : ∀ first ∈ array.head?, s.incorrectFields first = []) :
    (∃ result, s.sortArray array = .ok result ∧ s.Arranged array result) ↔
      if s.Comparable array then s.Apart array else s.InPlace array := by
  cases array with
  | nil =>
    have comparable : s.Comparable [] := by simp [Comparable]
    rw [if_pos comparable, ← arranged_insertionSort_iff]
    simp [sortArray]
  | cons first rest =>
    have valid : ¬s.incorrectFields first ≠ [] := not_not.mpr (allowed first rfl)
    rw [sortArray, if_neg valid]
    by_cases none : s.sortBy = []
    · have key (o : Dict) : s.key o = [] := by
        rw [key, none]
        rfl
      have comparable : s.Comparable (first :: rest) := by simp [Comparable, key, comparable]
      have before (x y : Dict) : s.Before x y := by simp [Before, key]
      rw [if_pos none, if_pos comparable, ← arranged_insertionSort_iff]
      rw [List.Pairwise.insertionSort_eq (pairwise_of_forall before)]
      simp
    · rw [if_neg none, sorted]
      by_cases comparable : s.Comparable (first :: rest)
      · simp only [if_pos comparable, ← arranged_insertionSort_iff]
        simp
      · simp [comparable, sortMissing_eq, arranged_sortMissing_iff none]

/-- Dictionaries with at most the one field that they are sorted by. -/
def byOne : Sorting (Option Nat) Unit Nat := ⟨fun o _ => o, id, [()], true, [()]⟩

theorem arranges_in_place : byOne.incorrectFields (some 1) = [] ∧
    ((∃ result, byOne.sortArray [some 1, none, some 2] = .ok result ∧
      byOne.Arranged [some 1, none, some 2] result) ↔
        if byOne.Comparable [some 1, none, some 2] then byOne.Apart [some 1, none, some 2]
        else byOne.InPlace [some 1, none, some 2]) :=
  ⟨by decide, sort_array_arranges_iff byOne _ (by decide)⟩

/-- Two dictionaries stay out of order because a third one lacks the field. -/
theorem not_arranged_with_missing : byOne.incorrectFields (some 2) = [] ∧
    ¬∃ result, byOne.sortArray [some 2, some 1, none] = .ok result ∧
      byOne.Arranged [some 2, some 1, none] result := by
  refine ⟨by decide, ?_⟩
  rintro ⟨result, computed, -, ordered, -⟩
  have stays : byOne.sortArray [some 2, some 1, none] = .ok [none, some 2, some 1] := by rfl
  obtain rfl := Except.ok.inj (stays.symm.trans computed)
  exact absurd ordered (by decide)

end Sorting

end GuardSarm
