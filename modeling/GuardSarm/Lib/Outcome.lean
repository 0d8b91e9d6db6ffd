import Mathlib

/-! Pre- and postconditions for computations that change a state and may raise,
in the monad `EStateM`: an exception keeps the changes made before it. A
postcondition has two parts, one for a return and one for an exception. -/
namespace GuardSarm

variable {ε σ α β : Type}

/-- From `s` the computation returns where `Q` holds, or raises where `R` holds. -/
def Outcome (m : EStateM ε σ α) (s : σ) (Q : α → σ → Prop) (R : ε → σ → Prop) : Prop :=
  match m.run s with
  | .ok a t => Q a t
  | .error e t => R e t

namespace Outcome

variable {m : EStateM ε σ α} {s : σ} {Q Q' : α → σ → Prop} {R R' : ε → σ → Prop}

theorem of_ok {a : α} {t : σ} (h : Outcome m s Q R) (returned : m.run s = .ok a t) : Q a t := by
  rw [Outcome, returned] at h
  exact h

theorem of_error {e : ε} {t : σ} (h : Outcome m s Q R) (raised : m.run s = .error e t) : R e t := by
  rw [Outcome, raised] at h
  exact h

theorem mono (h : Outcome m s Q R) (returns : ∀ a t, Q a t → Q' a t)
    (raises : ∀ e t, R e t → R' e t) : Outcome m s Q' R' := by
  unfold Outcome at h ⊢
  split at h
  · exact returns _ _ h
  · exact raises _ _ h

theorem imp (h : Outcome m s Q R) (returns : ∀ a t, Q a t → Q' a t) : Outcome m s Q' R :=
  h.mono returns fun _ _ raised => raised

theorem bind {f : α → EStateM ε σ β} {Q : β → σ → Prop}
    (h : Outcome m s (fun a t => Outcome (f a) t Q R) R) : Outcome (m >>= f) s Q R := by
  unfold Outcome at h ⊢
  rw [EStateM.run_bind]
  split at h
  · rename_i returned
    simpa only [returned] using h
  · rename_i raised
    simpa only [raised] using h

theorem andThen {f : α → EStateM ε σ β} {Q' : β → σ → Prop} (h : Outcome m s Q R)
    (next : ∀ a t, Q a t → Outcome (f a) t Q' R) : Outcome (m >>= f) s Q' R :=
  bind (h.imp next)

theorem get_bind {f : σ → EStateM ε σ α} (h : Outcome (f s) s Q R) : Outcome (get >>= f) s Q R :=
  bind h

theorem modify_bind {f : σ → σ} {g : PUnit → EStateM ε σ α} (h : Outcome (g ⟨⟩) (f s) Q R) :
    Outcome (modify f >>= g) s Q R :=
  bind h

theorem pure {a : α} (h : Q a s) : Outcome (pure a) s Q R := h

theorem throw {e : ε} (h : R e s) : Outcome (throw e) s Q R := h

theorem set {Q : PUnit → σ → Prop} {t : σ} (h : Q ⟨⟩ t) : Outcome (set t) s Q R := h

theorem modify {Q : PUnit → σ → Prop} {f : σ → σ} (h : Q ⟨⟩ (f s)) : Outcome (modify f) s Q R := h

/-- A loop over a list keeps what each of its passes keeps. -/
theorem forM {γ : Type} {f : γ → EStateM ε σ PUnit} {xs : List γ} {P : σ → Prop}
    (pass : ∀ x ∈ xs, ∀ t, P t → Outcome (f x) t (fun _ => P) R) (start : P s) :
    Outcome (xs.forM f) s (fun _ => P) R := by
  induction xs generalizing s with
  | nil => exact start
  | cons x xs ih =>
    refine (pass x (by simp) s start).andThen ?_
    intro _ t kept
    exact ih (fun y member => pass y (by simp [member])) kept

/-- As `forM`, for a loop that carries a value. -/
theorem foldlM {γ : Type} {f : β → γ → EStateM ε σ β} {xs : List γ} {P : σ → Prop}
    (pass : ∀ x ∈ xs, ∀ b t, P t → Outcome (f b x) t (fun _ => P) R) (b : β) (start : P s) :
    Outcome (xs.foldlM f b) s (fun _ => P) R := by
  induction xs generalizing s b with
  | nil => exact start
  | cons x xs ih =>
    rw [List.foldlM_cons]
    refine (pass x (by simp) b s start).andThen ?_
    intro b' t kept
    exact ih (fun y member => pass y (by simp [member])) b' kept

/-- An exception goes to the handler, with the state it was raised in. -/
theorem tryCatch {handler : ε → EStateM ε σ α}
    (h : Outcome m s Q (fun e t => Outcome (handler e) t Q R)) :
    Outcome (tryCatch m handler) s Q R := by
  unfold Outcome at h ⊢
  rw [EStateM.run_tryCatch]
  split at h
  · rename_i returned
    simpa only [returned] using h
  · rename_i raised
    simp only [raised]
    exact h

end Outcome

end GuardSarm
