import GuardSarm.Lib.PaddedCompare

/-!
# Orders that are reversed in places

A comparison that agrees with another one except at some pairs, which it puts
the other way round. Comparisons of several parts in turn are reversed where
the first parts are equal and the rest is reversed.
-/

namespace GuardSarm

/-- An order that is the other one's converse exactly where it should not be. -/
structure ReversedWhen (reversed : Prop) (given meant : Ordering) : Prop where
  converse : reversed → given = meant.swap
  direct : ¬reversed → given = meant

namespace ReversedWhen

variable {reversed : Prop} {given meant : Ordering}

theorem refl (impossible : ¬reversed) (order : Ordering) : ReversedWhen reversed order order :=
  ⟨fun wrong => absurd wrong impossible, fun _ => rfl⟩

theorem congr {reversed' : Prop} (order : ReversedWhen reversed given meant)
    (same : reversed ↔ reversed') : ReversedWhen reversed' given meant :=
  ⟨fun wrong => order.converse (same.mpr wrong),
    fun right => order.direct fun wrong => right (same.mp wrong)⟩

theorem swap (order : ReversedWhen reversed given meant) :
    ReversedWhen reversed given.swap meant.swap :=
  ⟨fun wrong => congrArg _ (order.converse wrong), fun right => congrArg _ (order.direct right)⟩

theorem after (first : Ordering) (order : ReversedWhen reversed given meant) :
    ReversedWhen (first = .eq ∧ reversed) (first.then given) (first.then meant) := by
  cases first with
  | eq => exact order.congr (by simp)
  | lt => exact refl (fun wrong => nomatch wrong.1) _
  | gt => exact refl (fun wrong => nomatch wrong.1) _

theorem eq_iff (order : ReversedWhen reversed given meant) (third : Ordering) :
    given = third ↔ (reversed ∧ third = meant.swap) ∨ (¬reversed ∧ third = meant) := by
  by_cases wrong : reversed
  · rw [order.converse wrong]
    simp [wrong, eq_comm]
  · rw [order.direct wrong]
    simp [wrong, eq_comm]

end ReversedWhen

end GuardSarm
