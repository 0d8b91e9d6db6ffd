import GuardSarm.Lib.Text

/-! Texts in which an escape character stands before each reserved character: the escape character
itself, and one other. -/
namespace GuardSarm

open List

def marked (escape found : Char) (text : Text) : Text :=
  text.flatMap fun c => if c = escape ∨ c = found then [escape, c] else [c]

variable {escape found c : Char} {span : Text}

theorem marked_append (a b : Text) :
    marked escape found (a ++ b) = marked escape found a ++ marked escape found b :=
  List.flatMap_append

theorem marked_reserved (reserved : c = escape ∨ c = found) (rest : Text) :
    marked escape found (c :: rest) = escape :: c :: marked escape found rest := by
  rw [marked, flatMap_cons, if_pos reserved]
  rfl

theorem marked_plain (plain : ¬(c = escape ∨ c = found)) (rest : Text) :
    marked escape found (c :: rest) = c :: marked escape found rest := by
  rw [marked, flatMap_cons, if_neg plain]
  rfl

theorem marked_span (plain : ∀ c ∈ span, ¬(c = escape ∨ c = found)) :
    marked escape found span = span := by
  induction span with
  | nil => rfl
  | cons c span ih =>
    rw [marked_plain (plain c mem_cons_self),
      ih fun d member => plain d (mem_cons_of_mem _ member)]

theorem length_le_marked (escape found : Char) (text : Text) :
    text.length ≤ (marked escape found text).length := by
  induction text with
  | nil => exact Nat.le_refl 0
  | cons c text ih =>
    by_cases reserved : c = escape ∨ c = found
    · rw [marked_reserved reserved]
      exact Nat.succ_le_succ (ih.trans (Nat.le_succ _))
    · rw [marked_plain reserved]
      exact Nat.succ_le_succ ih

/-- A text is a span without reserved characters, or such a span, a reserved character and a rest. -/
@[elab_as_elim]
theorem span_induction (escape found : Char) {motive : Text → Prop}
    (span : ∀ span : Text, (∀ c ∈ span, ¬(c = escape ∨ c = found)) → motive span)
    (reserved : ∀ (span : Text) (c : Char) (rest : Text),
      (∀ c ∈ span, ¬(c = escape ∨ c = found)) → (c = escape ∨ c = found) → motive rest →
        motive (span ++ c :: rest)) (text : Text) : motive text := by
  -- The induction reads on with the span before the text.
  have behind (before : Text) (plain : ∀ c ∈ before, ¬(c = escape ∨ c = found)) :
      motive (before ++ text) := by
    induction text generalizing before with
    | nil => exact span _ (by rwa [append_nil])
    | cons c text ih =>
      by_cases mark : c = escape ∨ c = found
      · exact reserved before c text plain mark (ih [] (by simp))
      · have longer := ih (before ++ [c]) fun d member => by
          rcases mem_append.mp member with old | new
          · exact plain d old
          · rwa [mem_singleton.mp new]
        rwa [append_assoc] at longer
  exact behind [] (by simp)

end GuardSarm
