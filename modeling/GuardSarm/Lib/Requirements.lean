import Mathlib

/-!
# Computations with requirements

A computation that may fail and that depends on requirements in a fixed order:
it returns only where all of them are met, and the first one that is not met
explains its error. Errors that no requirement explains are its own.

* `Walks.bind`: one computation after another.
* `Walks.of_first_unmet`: without errors of its own, a computation ends as its
  first unmet requirement says.
-/

namespace GuardSarm

open List

variable {Requirement ε α β : Type}

inductive Walks (met : Requirement → Prop) (fault : Requirement → ε → Prop) (own : ε → Prop) :
    List Requirement → Except ε α → Prop
  | returns {requirements : List Requirement} {value : α} :
      (∀ r ∈ requirements, met r) → Walks met fault own requirements (.ok value)
  | stops {before after : List Requirement} {r : Requirement} {e : ε} :
      (∀ r ∈ before, met r) → fault r e → Walks met fault own (before ++ r :: after) (.error e)
  | fails {requirements : List Requirement} {e : ε} :
      own e → Walks met fault own requirements (.error e)

namespace Walks

variable {met : Requirement → Prop} {fault : Requirement → ε → Prop} {own : ε → Prop}
  {one two : List Requirement} {x : Except ε α} {e : ε}

theorem pure (value : α) : Walks met fault own [] (.ok value) := .returns (by simp)

theorem single {r : Requirement} (faulty : fault r e) :
    Walks met fault own [r] (.error e : Except ε α) := by
  rw [← nil_append [r]]
  exact .stops (by simp) faulty

theorem after (walks : Walks met fault own two x) (all : ∀ r ∈ one, met r) :
    Walks met fault own (one ++ two) x := by
  cases walks with
  | returns others =>
    apply Walks.returns
    intro r member
    obtain member | member := mem_append.mp member
    · exact all r member
    · exact others r member
  | stops before faulty =>
    rw [← append_assoc]
    refine .stops ?_ faulty
    intro r member
    obtain member | member := mem_append.mp member
    · exact all r member
    · exact before r member
  | fails failed => exact .fails failed

theorem bind {f : α → Except ε β} (first : Walks met fault own one x)
    (next : ∀ value, x = .ok value → Walks met fault own two (f value)) :
    Walks met fault own (one ++ two) (x >>= f) := by
  cases first with
  | returns all => exact (next _ rfl).after all
  | stops before faulty =>
    rw [append_assoc]
    exact .stops before faulty
  | fails failed => exact .fails failed

theorem map (walks : Walks met fault own one x) (f : α → β) :
    Walks met fault own one (x >>= fun value => Pure.pure (f value)) := by
  rw [← append_nil one]
  exact walks.bind fun value _ => .pure (f value)

/-- A computation ends with an error that its first unmet requirement explains, or with one of its
own. -/
theorem of_error (walks : Walks met fault own one (.error e : Except ε α)) :
    (∃ before r after, one = before ++ r :: after ∧ (∀ r ∈ before, met r) ∧ fault r e) ∨ own e := by
  cases walks with
  | stops before faulty => exact .inl ⟨_, _, _, rfl, before, faulty⟩
  | fails failed => exact .inr failed

theorem first_unmet_unique {before after before' after' : List Requirement} {r r' : Requirement}
    (same : before ++ r :: after = before' ++ r' :: after') (all : ∀ r ∈ before, met r)
    (unmet : ¬ met r) (all' : ∀ r ∈ before', met r) (unmet' : ¬ met r') : r = r' := by
  obtain ⟨middle, left, right⟩ | ⟨middle, left, right⟩ := append_eq_append_iff.mp same
  · cases middle with
    | nil => exact (List.cons.inj right).1
    | cons head middle =>
      obtain rfl : r = head := by simpa using congrArg List.head? right
      exact absurd (all' r (by simp [left])) unmet
  · cases middle with
    | nil => exact (List.cons.inj right).1.symm
    | cons head middle =>
      obtain rfl : r' = head := by simpa using congrArg List.head? right
      exact absurd (all r' (by simp [left])) unmet'

/-- Without errors of its own, a computation ends with an error of its first unmet requirement. -/
theorem of_first_unmet {before after : List Requirement} {r : Requirement}
    (walks : Walks met fault own (before ++ r :: after) x) (none : ∀ e, ¬ own e)
    (faulty : ∀ r e, fault r e → ¬ met r) (all : ∀ r ∈ before, met r) (unmet : ¬ met r) :
    ∃ e, x = .error e ∧ fault r e := by
  generalize same : before ++ r :: after = requirements at walks
  cases walks with
  | returns others => exact absurd (others r (by simp [← same])) unmet
  | @stops before' after' r' e all' fault' =>
    obtain rfl := first_unmet_unique same all unmet all' (faulty _ _ fault')
    exact ⟨e, rfl, fault'⟩
  | fails failed => exact absurd failed (none _)

end Walks

end GuardSarm
