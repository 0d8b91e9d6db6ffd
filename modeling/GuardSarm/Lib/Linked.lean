import Mathlib

/-!
# Singly linked cells

Cells at addresses, each with a `next` pointer. `Leads next l b`: following the
pointers from the first cell of `l` visits the cells of `l` in order and comes to
`b`. A ring leads back to its own head.

* `Leads.congr`: only the pointers of the cells in `l` matter;
* `leads_append`: paths are put together and taken apart.
-/

namespace GuardSarm.Linked

open List

variable {A : Type}

def Leads (next : A → Option A) : List A → Option A → Prop
  | [], _ => True
  | a :: l, b => next a = l.head?.or b ∧ Leads next l b

/-- The cells met by following the pointers `n` times. -/
def walk (next : A → Option A) : Nat → Option A → List A
  | 0, _ => []
  | _ + 1, none => []
  | n + 1, some a => a :: walk next n (next a)

variable {next next' : A → Option A} {l xs ys : List A} {b : Option A}

theorem Leads.congr (leads : Leads next l b) (same : ∀ a ∈ l, next a = next' a) :
    Leads next' l b := by
  induction l with
  | nil => trivial
  | cons a l ih =>
    refine ⟨?_, ih leads.2 fun c inside => same c (mem_cons_of_mem a inside)⟩
    rw [← same a mem_cons_self]
    exact leads.1

theorem leads_append :
    Leads next (xs ++ ys) b ↔ Leads next xs (ys.head?.or b) ∧ Leads next ys b := by
  induction xs with
  | nil => simp [Leads]
  | cons a xs ih =>
    simp only [cons_append, Leads, ih]
    cases xs with
    | nil => simp [and_assoc]
    | cons c xs => simp [and_assoc]

/-- The pointers visit the whole list and nothing else. -/
theorem Leads.walk (leads : Leads next l b) (head : l ≠ []) :
    Linked.walk next l.length l.head? = l := by
  induction l with
  | nil => exact absurd rfl head
  | cons a l ih =>
    rw [head?_cons, length_cons, Linked.walk, leads.1]
    cases l with
    | nil => rfl
    | cons c l => rw [head?_cons, Option.some_or, ← head?_cons, ih leads.2 (by simp)]

variable [DecidableEq A] {a p : A}

/-- A new cell at the end, linked to the head. -/
theorem Leads.push (leads : Leads next (xs ++ [p]) (xs ++ [p]).head?) (distinct : (xs ++ [p]).Nodup)
    (new : a ∉ xs ++ [p]) :
    Leads (Function.update (Function.update next a (xs ++ [p]).head?) p (some a))
      (xs ++ [p] ++ [a]) (xs ++ [p]).head? := by
  have other : ∀ c ∈ xs, c ≠ p ∧ c ≠ a := by
    intro c inside
    refine ⟨?_, ?_⟩
    · rintro rfl
      exact (nodup_append.1 distinct).2.2 c inside c (by simp) rfl
    · rintro rfl
      exact new (mem_append_left _ inside)
  have apart : a ≠ p := by
    rintro rfl
    exact new (by simp)
  rw [leads_append] at leads ⊢
  rw [leads_append]
  refine ⟨⟨?_, ?_⟩, ?_⟩
  · refine leads.1.congr ?_
    intro c inside
    rw [Function.update_of_ne (other c inside).1, Function.update_of_ne (other c inside).2]
  · simp [Leads]
  · simp [Leads, Function.update_of_ne apart]

/-- A cell behind another one is taken out. -/
theorem Leads.unlink (leads : Leads next (xs ++ [p] ++ a :: ys) b)
    (distinct : (xs ++ [p] ++ a :: ys).Nodup) :
    Leads (Function.update (Function.update next p (next a)) a none) (xs ++ [p] ++ ys) b := by
  have other : ∀ c ∈ xs ++ ys, c ≠ p ∧ c ≠ a := by
    intro c inside
    have split : (a :: p :: (xs ++ ys)).Nodup := by
      have moved : (xs ++ [p] ++ a :: ys).Perm (a :: p :: (xs ++ ys)) := by
        rw [append_assoc, singleton_append]
        exact perm_middle.trans ((perm_middle.cons p).trans (List.Perm.swap a p _))
      exact moved.nodup_iff.1 distinct
    simp only [nodup_cons, mem_cons] at split
    refine ⟨?_, ?_⟩
    · rintro rfl
      exact split.2.1 inside
    · rintro rfl
      exact split.1 (.inr inside)
  have apart : p ≠ a := by
    rintro rfl
    simp [nodup_append] at distinct
  rw [leads_append, leads_append] at leads
  rw [leads_append, leads_append]
  refine ⟨⟨?_, ?_⟩, ?_⟩
  · refine leads.1.1.congr ?_
    intro c inside
    have differs := other c (mem_append_left _ inside)
    rw [Function.update_of_ne differs.2, Function.update_of_ne differs.1]
  · simp only [Leads, head?_nil, Option.none_or, and_true]
    rw [Function.update_of_ne apart, Function.update_self]
    exact leads.2.1
  · refine leads.2.2.congr ?_
    intro c inside
    have differs := other c (mem_append_right _ inside)
    rw [Function.update_of_ne differs.2, Function.update_of_ne differs.1]

/-- The head of a ring is taken out, behind the last cell. -/
theorem Leads.unlink_head (leads : Leads next (a :: (ys ++ [p])) (some a))
    (distinct : (a :: (ys ++ [p])).Nodup) :
    Leads (Function.update (Function.update next p (next a)) a none) (ys ++ [p])
      (ys ++ [p]).head? := by
  have first : next a = (ys ++ [p]).head? := by
    rw [leads.1]
    cases ys <;> rfl
  have other : ∀ c ∈ ys, c ≠ p ∧ c ≠ a := by
    intro c inside
    simp only [nodup_cons, mem_append, mem_singleton, nodup_append] at distinct
    refine ⟨?_, ?_⟩
    · rintro rfl
      exact distinct.2.2.2 c inside c rfl rfl
    · rintro rfl
      exact distinct.1 (.inl inside)
  have apart : p ≠ a := by
    rintro rfl
    simp at distinct
  have rest := leads.2
  rw [leads_append] at rest ⊢
  refine ⟨?_, ?_⟩
  · refine rest.1.congr ?_
    intro c inside
    rw [Function.update_of_ne (other c inside).2, Function.update_of_ne (other c inside).1]
  · simp only [Leads, head?_nil, Option.none_or, and_true]
    rw [Function.update_of_ne apart, Function.update_self, first]

end GuardSarm.Linked
