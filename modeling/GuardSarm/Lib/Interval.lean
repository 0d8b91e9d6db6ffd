import Mathlib

/-! Sets of natural numbers stored as closed intervals in increasing order, with
at least one number missing between two of them. A set has one such list. -/
namespace GuardSarm

open List

/-- The numbers from `start` to `last`. -/
structure Interval where
  start : Nat
  last : Nat
  deriving DecidableEq, Repr

namespace Interval

def contains (i : Interval) (n : Nat) : Bool := decide (i.start ≤ n) && decide (n ≤ i.last)

@[simp] theorem contains_iff (i : Interval) (n : Nat) :
    i.contains n = true ↔ i.start ≤ n ∧ n ≤ i.last := by
  simp [contains]

/-- Some interval of the list holds the number. -/
def Covered (is : List Interval) (n : Nat) : Prop := ∃ i ∈ is, i.start ≤ n ∧ n ≤ i.last

@[simp] theorem covered_nil (n : Nat) : ¬Covered [] n := by simp [Covered]

@[simp] theorem covered_cons (i : Interval) (is : List Interval) (n : Nat) :
    Covered (i :: is) n ↔ (i.start ≤ n ∧ n ≤ i.last) ∨ Covered is n := by
  simp [Covered]

@[simp] theorem covered_append (is js : List Interval) (n : Nat) :
    Covered (is ++ js) n ↔ Covered is n ∨ Covered js n := by
  simp [Covered, or_and_right, exists_or]

/-- Non-empty intervals, each ending at least two below the start of every later one. -/
structure Separated (is : List Interval) : Prop where
  nonempty : ∀ i ∈ is, i.start ≤ i.last
  apart : is.Pairwise fun i j => i.last + 1 < j.start

namespace Separated

variable {is js : List Interval} {i : Interval}

theorem nil : Separated [] := ⟨by simp, List.Pairwise.nil⟩

theorem cons_iff : Separated (i :: is) ↔
    i.start ≤ i.last ∧ (∀ j ∈ is, i.last + 1 < j.start) ∧ Separated is := by
  constructor
  · rintro ⟨nonempty, apart⟩
    obtain ⟨next, rest⟩ := pairwise_cons.mp apart
    exact ⟨nonempty i (by simp), next, fun j member => nonempty j (by simp [member]), rest⟩
  · rintro ⟨here, next, rest⟩
    refine ⟨?_, pairwise_cons.mpr ⟨next, rest.apart⟩⟩
    intro j member
    rcases mem_cons.mp member with rfl | tail
    · exact here
    · exact rest.nonempty j tail

theorem append_iff : Separated (is ++ js) ↔
    Separated is ∧ Separated js ∧ ∀ i ∈ is, ∀ j ∈ js, i.last + 1 < j.start := by
  constructor
  · rintro ⟨nonempty, apart⟩
    obtain ⟨left, right, across⟩ := pairwise_append.mp apart
    exact ⟨⟨fun i member => nonempty i (by simp [member]), left⟩,
      ⟨fun j member => nonempty j (by simp [member]), right⟩, across⟩
  · rintro ⟨left, right, across⟩
    refine ⟨?_, pairwise_append.mpr ⟨left.apart, right.apart, across⟩⟩
    intro i member
    rcases mem_append.mp member with member | member
    · exact left.nonempty i member
    · exact right.nonempty i member

/-- A separated list that covers exactly the numbers up to `last` is that one interval. -/
theorem eq_singleton {last : Nat} (separated : Separated is)
    (all : ∀ n, Covered is n ↔ n ≤ last) : is = [⟨0, last⟩] := by
  cases is with
  | nil => exact absurd ((all 0).mpr (by omega)) (covered_nil 0)
  | cons i is =>
    obtain ⟨here, next, rest⟩ := cons_iff.mp separated
    have later : ∀ n, Covered is n → i.last + 1 < n := by
      rintro n ⟨j, member, low, _⟩
      have := next j member
      omega
    have starts : i.start = 0 := by
      rcases (covered_cons i is 0).mp ((all 0).mpr (by omega)) with ⟨low, _⟩ | tail
      · omega
      · have := later 0 tail; omega
    have within : i.last ≤ last := (all i.last).mp ((covered_cons ..).mpr (.inl ⟨here, by omega⟩))
    have ends : i.last = last := by
      by_contra other
      rcases (covered_cons ..).mp ((all (i.last + 1)).mpr (by omega)) with ⟨_, high⟩ | tail
      · omega
      · have := later _ tail; omega
    have alone : is = [] := by
      apply eq_nil_iff_forall_not_mem.mpr
      intro j member
      have nonempty := rest.nonempty j member
      have beyond : j.last ≤ last :=
        (all j.last).mp ((covered_cons ..).mpr (.inr ⟨j, member, nonempty, by omega⟩))
      have := next j member
      omega
    obtain ⟨start, stop⟩ := i
    simp_all

theorem beyond (separated : Separated (i :: is)) {n : Nat} (covered : Covered is n) :
    i.last + 1 < n := by
  obtain ⟨j, member, low, _⟩ := covered
  exact ((cons_iff.mp separated).2.1 j member).trans_le low

/-- A set of numbers has one separated list. -/
theorem ext (one : Separated is) (two : Separated js)
    (same : ∀ n, Covered is n ↔ Covered js n) : is = js := by
  induction is generalizing js with
  | nil =>
    cases js with
    | nil => rfl
    | cons j js => simpa using (same j.start).mpr ⟨j, by simp, le_rfl, two.nonempty j (by simp)⟩
  | cons i is ih =>
    cases js with
    | nil => simpa using (same i.start).mp ⟨i, by simp, le_rfl, one.nonempty i (by simp)⟩
    | cons j js =>
      have first := one.nonempty i (by simp)
      have second := two.nonempty j (by simp)
      have later {n : Nat} := one.beyond (n := n)
      have later' {n : Nat} := two.beyond (n := n)
      simp only [covered_cons] at same
      have starts : i.start = j.start := by grind
      -- the number after the end of one is in neither tail
      have ends : i.last = j.last := by grind [same (i.last + 1), same (j.last + 1)]
      have rest := ih (cons_iff.mp one).2.2 (cons_iff.mp two).2.2 (by grind)
      cases i
      simp_all

end Separated

end Interval

end GuardSarm
