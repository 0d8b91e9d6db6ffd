import Mathlib.Data.List.Basic

/-! Segments laid one after another in a buffer, with the list of the positions at
which they end. -/
namespace GuardSarm.Segments

open List

variable {α : Type}

/-- The positions at which the segments end, the first of them starting at `start`. -/
def endsFrom : Nat → List (List α) → List Nat
  | _, [] => []
  | start, segment :: rest => (start + segment.length) :: endsFrom (start + segment.length) rest

def ends (segments : List (List α)) : List Nat := endsFrom 0 segments

@[simp] theorem ends_nil : ends ([] : List (List α)) = [] := rfl

theorem length_endsFrom (start : Nat) (segments : List (List α)) :
    (endsFrom start segments).length = segments.length := by
  induction segments generalizing start with
  | nil => rfl
  | cons segment rest ih => simp [endsFrom, ih]

@[simp] theorem length_ends (segments : List (List α)) :
    (ends segments).length = segments.length := length_endsFrom 0 segments

theorem endsFrom_append (start : Nat) (xs ys : List (List α)) :
    endsFrom start (xs ++ ys) = endsFrom start xs ++ endsFrom (start + xs.flatten.length) ys := by
  induction xs generalizing start with
  | nil => simp [endsFrom]
  | cons x xs ih => simp [endsFrom, ih, Nat.add_assoc]

theorem ends_snoc (segments : List (List α)) (segment : List α) :
    ends (segments ++ [segment]) = ends segments ++ [(segments ++ [segment]).flatten.length] := by
  simp [ends, endsFrom_append, endsFrom]

variable {segments : List (List α)}

theorem getLast?_ends (some : segments ≠ []) :
    (ends segments).getLast? = Option.some segments.flatten.length := by
  obtain ⟨before, last, rfl⟩ := (eq_nil_or_concat segments).resolve_left some
  rw [concat_eq_append, ends_snoc, getLast?_append]
  rfl

theorem getD_endsFrom (start : Nat) {k : Nat} (bound : k < segments.length) :
    (endsFrom start segments).getD k 0 = start + (segments.take (k + 1)).flatten.length := by
  induction segments generalizing start k with
  | nil => cases bound
  | cons segment rest ih =>
    cases k with
    | zero => simp [endsFrom]
    | succ k =>
      have left := ih (start + segment.length) (Nat.lt_of_succ_lt_succ bound)
      simpa [endsFrom, Nat.add_assoc] using left

theorem getD_ends {k : Nat} (bound : k < segments.length) :
    (ends segments).getD k 0 = (segments.take (k + 1)).flatten.length := by
  rw [ends, getD_endsFrom 0 bound, Nat.zero_add]

/-- Segments that are not empty end at increasing positions, the last at the end of the buffer. -/
theorem endsFrom_increasing (start : Nat)
    (nonempty : ∀ segment ∈ segments, segment ≠ []) :
    (endsFrom start segments).Pairwise (· < ·) ∧
      ∀ p ∈ endsFrom start segments, start < p ∧ p ≤ start + segments.flatten.length := by
  induction segments generalizing start with
  | nil => simp [endsFrom]
  | cons segment rest ih =>
    obtain ⟨increasing, bounds⟩ := ih (start + segment.length) fun s member =>
      nonempty s (mem_cons_of_mem _ member)
    have positive : 0 < segment.length :=
      length_pos_iff.mpr (nonempty segment mem_cons_self)
    simp only [endsFrom, pairwise_cons, mem_cons, forall_eq_or_imp, flatten_cons,
      length_append]
    refine ⟨⟨fun p later => (bounds p later).1, increasing⟩, by omega, fun p later => ?_⟩
    have := bounds p later
    omega

theorem flatten_split (segments : List (List α)) (k : Nat) :
    segments.flatten = (segments.take k).flatten ++ (segments.drop k).flatten := by
  rw [← flatten_append, take_append_drop]

theorem take_flatten (segments : List (List α)) (k : Nat) :
    segments.flatten.take (segments.take k).flatten.length = (segments.take k).flatten := by
  rw [flatten_split segments k, take_left]

theorem drop_flatten (segments : List (List α)) (k : Nat) :
    segments.flatten.drop (segments.take k).flatten.length = (segments.drop k).flatten := by
  rw [flatten_split segments k, drop_left]

theorem flatten_ne_nil (some : segments ≠ [])
    (nonempty : ∀ segment ∈ segments, segment ≠ []) : segments.flatten ≠ [] := by
  cases segments with
  | nil => exact absurd rfl some
  | cons segment rest => simp [nonempty segment mem_cons_self]

theorem length_flatten_le_of_sublist {part whole : List (List α)} (sub : part.Sublist whole) :
    part.flatten.length ≤ whole.flatten.length := by
  induction sub with
  | slnil => exact Nat.le_refl _
  | cons segment sub ih =>
    rw [flatten_cons, length_append]
    omega
  | cons_cons segment sub ih =>
    rw [flatten_cons, flatten_cons, length_append, length_append]
    omega

/-- Segments of which none is empty cannot be left out unnoticed. -/
theorem flatten_eq_iff_of_sublist {part whole : List (List α)} (sub : part.Sublist whole)
    (some : ∀ segment ∈ whole, segment ≠ []) : part.flatten = whole.flatten ↔ part = whole := by
  refine ⟨fun same => ?_, congrArg _⟩
  induction sub with
  | slnil => rfl
  | @cons part whole segment sub ih =>
    have shorter := length_flatten_le_of_sublist sub
    have positive := length_pos_iff.mpr (some segment mem_cons_self)
    have equal := congrArg List.length same
    rw [flatten_cons, length_append] at equal
    omega
  | @cons_cons part whole segment sub ih =>
    rw [flatten_cons, flatten_cons] at same
    rw [ih (fun other member => some other (mem_cons_of_mem _ member))
      (append_cancel_left same)]

end GuardSarm.Segments
