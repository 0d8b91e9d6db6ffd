import Mathlib

/-! Runs of a labelled transition system, as the list of the actions taken.
An invariant is proved for one step and carried over a run by `Steps.invariant`,
or by `Steps.history` when it also speaks about the actions taken so far. -/
namespace GuardSarm

variable {State Act : Type*}

/-- Taking the actions of the list in order leads from `s` to the last state. -/
inductive Steps (step : State → Act → State → Prop) (s : State) : List Act → State → Prop
  | nil : Steps step s [] s
  | snoc {as : List Act} {t : State} {a : Act} {u : State} :
      Steps step s as t → step t a u → Steps step s (as ++ [a]) u

/-- The steps of `step` taken only where `ok` holds of the state before. -/
def Meeting (ok : State → Act → Prop) (step : State → Act → State → Prop) :
    State → Act → State → Prop :=
  fun s a t => ok s a ∧ step s a t

namespace Steps

variable {step step' : State → Act → State → Prop} {s t u : State} {as bs : List Act} {a : Act}

theorem single (h : step s a t) : Steps step s [a] t := snoc nil h

/-- What holds at the start and is kept by each step holds at the end. -/
theorem invariant {P : State → Prop} (keeps : ∀ {t a u}, step t a u → P t → P u)
    (run : Steps step s as t) (start : P s) : P t := by
  induction run with
  | nil => exact start
  | snoc _ last ih => exact keeps last ih

/-- As `invariant`, for a property of the state and of the actions that led to it. -/
theorem history {P : List Act → State → Prop}
    (keeps : ∀ {as t a u}, step t a u → P as t → P (as ++ [a]) u)
    (run : Steps step s as t) (start : P [] s) : P as t := by
  induction run with
  | nil => exact start
  | snoc _ last ih => exact keeps last ih

theorem mono (sub : ∀ {t a u}, step t a u → step' t a u) (run : Steps step s as t) :
    Steps step' s as t := by
  induction run with
  | nil => exact nil
  | snoc _ last ih => exact snoc ih (sub last)

end Steps

/-- The state the actions lead to under a step function. -/
def execute (next : State → Act → Option State) (s : State) (as : List Act) : Option State :=
  as.foldlM next s

/-- As `execute`, with a check made before each action. -/
def executeChecked (check : State → Act → Bool) (next : State → Act → Option State) (s : State)
    (as : List Act) : Option State :=
  execute (fun s a => if check s a then next s a else none) s as

namespace Steps

variable {next : State → Act → Option State} {s t : State} {as : List Act}

theorem of_execute (ran : execute next s as = some t) :
    Steps (fun s a t => next s a = some t) s as t := by
  induction as using List.reverseRecOn generalizing t with
  | nil =>
    cases ran
    exact nil
  | append_singleton as a ih =>
    rw [execute, List.foldlM_append] at ran
    obtain ⟨u, first, last⟩ := Option.bind_eq_some_iff.mp ran
    exact snoc (ih first) (by simpa using last)

/-- A check that implies a condition gives a run that meets the condition. -/
theorem of_executeChecked {check : State → Act → Bool} {ok : State → Act → Prop}
    (sound : ∀ {s a}, check s a = true → ok s a) (ran : executeChecked check next s as = some t) :
    Steps (Meeting ok (fun s a t => next s a = some t)) s as t := by
  refine (of_execute ran).mono ?_
  intro s a t moved
  split at moved
  · rename_i met
    exact ⟨sound met, moved⟩
  · cases moved

end Steps

end GuardSarm
