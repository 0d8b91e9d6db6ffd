import Mathlib

/-! Texts in lexicographic order. The texts between a text and its extension by a
letter above all others are those that start with it; and a text that ends in a
separator is told apart from every other by what comes before the separator. -/
namespace GuardSarm

open List

variable {α : Type*} [LinearOrder α]

/-- The range from `p` to `p` followed by `top` holds exactly the texts that start with `p`. -/
theorem mem_prefix_range_iff {p k : List α} {top : α} (below : ∀ c ∈ k, c < top) :
    ¬k < p ∧ k < p ++ [top] ↔ p <+: k := by
  induction p generalizing k with
  | nil =>
    cases k with
    | nil => simp
    | cons c k => simp [cons_lt_cons_iff, below c]
  | cons a p ih =>
    cases k with
    | nil => simp
    | cons c k =>
      rw [cons_append, cons_lt_cons_iff, cons_lt_cons_iff, cons_prefix_cons,
        ← ih fun c member => below c (by simp [member])]
      constructor
      · rintro ⟨least, less | ⟨rfl, lt⟩⟩
        · exact absurd (.inl less) least
        · exact ⟨rfl, fun lt => least (.inr ⟨rfl, lt⟩), lt⟩
      · rintro ⟨rfl, least, lt⟩
        refine ⟨?_, .inr ⟨rfl, lt⟩⟩
        rintro (less | ⟨_, lt⟩)
        · exact lt_irrefl _ less
        · exact least lt

variable {xs ys rest : List α} {sep : α}

omit [LinearOrder α] in
/-- A text without the separator cannot reach beyond it. -/
theorem prefix_separated_iff (free : sep ∉ xs) : xs <+: ys ++ sep :: rest ↔ xs <+: ys := by
  induction xs generalizing ys with
  | nil => simp
  | cons x xs ih =>
    simp only [mem_cons, not_or] at free
    cases ys with
    | nil => simp [cons_prefix_cons, Ne.symm free.1]
    | cons y ys => rw [cons_append, cons_prefix_cons, cons_prefix_cons, ih free.2]

omit [LinearOrder α] in
/-- With the separator behind it, a text starts only the texts it is itself the first part of. -/
theorem separated_prefix_iff (free : sep ∉ xs) (free' : sep ∉ ys) :
    xs ++ [sep] <+: ys ++ sep :: rest ↔ xs = ys := by
  constructor
  · intro starts
    have forth : xs <+: ys :=
      (prefix_separated_iff free).mp ((prefix_append xs [sep]).trans starts)
    obtain ⟨tail, rfl⟩ := forth
    rw [append_assoc, prefix_append_right_inj] at starts
    cases tail with
    | nil => simp
    | cons y tail =>
      rw [cons_append, cons_prefix_cons] at starts
      simp [starts.1] at free'
  · rintro rfl
    exact (prefix_append_right_inj xs).mpr (by simp)

end GuardSarm
