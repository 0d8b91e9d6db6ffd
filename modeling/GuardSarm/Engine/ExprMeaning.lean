import GuardSarm.Engine.ExprBuilder

/-!
# What an expression computes

`meaning` is the sequential reading of an expression: an event and whether it
has succeeded. The pipeline does to its cells what `effect` says
(`recBuild_computes`), and the effect of an expression is its meaning
(`effect_meaning`). An `And` or an `Or` without operands leaves the status as
it finds it, which is no matter only behind an implication.
-/

namespace GuardSarm.ExprBuilder

open Multicast

variable {Event : Type}

mutual

/-- The event that an expression leaves, and its status. -/
def meaning : Expression Event → Event → Event × Bool
  | .term _ fn, event =>
    match fn event with
    | .ok result => (result.payload, result.success)
    | .error _ => (event, false)
  | .and operands, event => allOf operands event
  | .or operands, event => anyOf operands event
  | .chain operands, event => (inOrder operands event, true)
  | .broadcast operands, event => (inOrder operands event, true)
  | .implication left right, event =>
    if (meaning left event).2 then ((meaning right (meaning left event).1).1, true)
    else ((meaning left event).1, false)

/-- The operands in order until the first failure. -/
def allOf : List (Expression Event) → Event → Event × Bool
  | [], event => (event, true)
  | operand :: operands, event =>
    if (meaning operand event).2 then allOf operands (meaning operand event).1
    else ((meaning operand event).1, false)

/-- The operands in order until the first success. -/
def anyOf : List (Expression Event) → Event → Event × Bool
  | [], event => (event, false)
  | operand :: operands, event =>
    if (meaning operand event).2 then ((meaning operand event).1, true)
    else anyOf operands (meaning operand event).1

def inOrder : List (Expression Event) → Event → Event
  | [], event => event
  | operand :: operands, event => inOrder operands (meaning operand event).1

end

mutual

/-- `And` and `Or` have operands, except as the second operand of an implication. -/
def Expression.WellFormed : Expression Event → (second : Bool) → Prop
  | .term _ _, _ => True
  | .and operands, second => (second = true ∨ operands ≠ []) ∧ AllWellFormed operands
  | .or operands, second => (second = true ∨ operands ≠ []) ∧ AllWellFormed operands
  | .chain operands, _ => AllWellFormed operands
  | .broadcast operands, _ => AllWellFormed operands
  | .implication left right, _ => left.WellFormed false ∧ right.WellFormed true

def AllWellFormed : List (Expression Event) → Prop
  | [] => True
  | operand :: operands => operand.WellFormed false ∧ AllWellFormed operands

end

mutual

/-- The number of multicasts of an expression. -/
def Expression.size : Expression Event → Nat
  | .term _ _ => 0
  | .and operands => 1 + sizes operands
  | .or operands => 1 + sizes operands
  | .chain operands => 1 + sizes operands
  | .broadcast operands => 1 + sizes operands
  | .implication left right => 1 + (left.size + right.size)

def sizes : List (Expression Event) → Nat
  | [] => 0
  | operand :: operands => operand.size + sizes operands

end

/-- The effect of a pipeline that a multicast has for itself. -/
def tapped (inner : Effect (Cells Event)) : Effect (Cells Event) := fun cells => ((inner cells).1, true)

mutual

/-- What the pipeline of an expression does to the cells, when its multicasts start at a number. -/
def effect : Expression Event → Nat → Effect (Cells Event)
  | .term name fn, _ => through [.map (runTerm name fn)]
  | .and operands, base => tapped (effects [filterSuccess] operands (base + 1))
  | .or operands, base => tapped (effects [filterFailure] operands (base + 1))
  | .chain operands, base => (tapped (effects [] operands (base + 1))).andThen (through [mapSuccess])
  | .broadcast operands, base =>
    (tapped (effects [] operands (base + 1))).andThen (through [mapSuccess])
  | .implication left right, base =>
    (tapped (((effect left (base + 1)).andThen (through [filterCondition base])).andThen
      (effect right (base + 1 + left.size)))).andThen (through [mapCondition base])

def effects (behind : List (Stage (Cells Event))) : List (Expression Event) → Nat → Effect (Cells Event)
  | [], _ => fun cells => (cells, true)
  | operand :: operands, base =>
    ((effect operand base).andThen (through behind)).andThen
      (effects behind operands (base + operand.size))

end

mutual

theorem recBuild_computes (e : Expression Event) : Computes (recBuild e) e.size (effect e) := by
  cases e with
  | term name fn => exact computes_stage _
  | and operands =>
    exact computes_tap fun _ => recOperands_computes (computes_stage filterSuccess) operands
  | or operands =>
    exact computes_tap fun _ => recOperands_computes (computes_stage filterFailure) operands
  | chain operands | broadcast operands =>
    exact computes_andThen (computes_tap fun _ => recOperands_computes computes_id operands)
      fun _ => computes_stage mapSuccess
  | implication left right =>
    exact computes_andThen
      (computes_tap fun base => computes_andThen
        (computes_andThen (recBuild_computes left) fun _ => computes_stage (filterCondition base))
        fun _ => recBuild_computes right)
      fun base => computes_stage (mapCondition base)

theorem recOperands_computes {wrap : Observable (Cells Event) → Observable (Cells Event)}
    {behind : List (Stage (Cells Event))}
    (h : Computes (fun input g => (wrap input, g)) 0 fun _ => through behind)
    (operands : List (Expression Event)) :
    Computes (recOperands wrap operands) (sizes operands) (effects behind operands) := by
  cases operands with
  | nil => exact computes_id
  | cons operand operands =>
    exact computes_andThen (computes_andThen (recBuild_computes operand) fun _ => h)
      fun _ => recOperands_computes h operands

end

/-- The cells hold the event, and the flags below a number are as before. -/
structure Leaves (base : Nat) (before after : Cells Event) (event : Event) : Prop where
  payload : after.result.payload = event
  kept : ∀ i < base, after.condition i = before.condition i

theorem Leaves.trans {base base' : Nat} {c c₁ c₂ : Cells Event} {event event' : Event}
    (h₁ : Leaves base c c₁ event) (h₂ : Leaves base' c₁ c₂ event') (le : base ≤ base') :
    Leaves base c c₂ event' :=
  ⟨h₂.payload, fun i lt => (h₂.kept i (lt_of_lt_of_le lt le)).trans (h₁.kept i lt)⟩

theorem Leaves.mono {base base' : Nat} {c c₁ : Cells Event} {event : Event}
    (h : Leaves base' c c₁ event) (le : base ≤ base') : Leaves base c c₁ event :=
  ⟨h.payload, fun i lt => h.kept i (lt_of_lt_of_le lt le)⟩

theorem through_filterCondition (condition : Nat) (cells : Cells Event) :
    through [filterCondition condition] cells = ({ cells with
      condition := Function.update cells.condition condition cells.result.success },
      cells.result.success) := by
  cases h : cells.result.success with
  | true => simp [through, filterCondition, h]
  | false => simp [through, filterCondition, h]

theorem Leaves.filterCondition {base : Nat} {before after : Cells Event} {event : Event}
    (h : Leaves (base + 1) before after event) :
    Leaves base before (through [filterCondition base] after).1 event ∧
      (through [ExprBuilder.filterCondition base] after).1.condition base = after.result.success ∧
      (through [ExprBuilder.filterCondition base] after).2 = after.result.success := by
  rw [through_filterCondition]
  refine ⟨⟨h.payload, fun i lt => ?_⟩, Function.update_self _ _ _, rfl⟩
  exact (Function.update_of_ne (by omega) _ _).trans (h.kept i (by omega))

/-- The status that goes on behind an implication is its flag. -/
theorem effect_implication {left right : Expression Event} {base : Nat} {cells : Cells Event}
    (passed : (effect left (base + 1) cells).2 = true) :
    effect (.implication left right) base cells =
      let after := (Effect.andThen (through [filterCondition base])
        (effect right (base + 1 + left.size)) (effect left (base + 1) cells).1).1
      (after.setStatus (after.condition base), true) := by
  rw [effect]
  simp only [tapped, Effect.andThen, passed, if_true]
  rfl

/-- The loop goes on behind an operand unless the stages behind it stop the event. -/
theorem effects_cons {behind : List (Stage (Cells Event))} {operand : Expression Event}
    {operands : List (Expression Event)} {base : Nat} {cells : Cells Event}
    (passed : (effect operand base cells).2 = true) :
    effects behind (operand :: operands) base cells =
      Effect.andThen (through behind) (effects behind operands (base + operand.size))
        (effect operand base cells).1 := by
  rw [effects]
  simp only [Effect.andThen, passed, if_true]

/-- The loop over operands whose stages stop an event with the status `stop`. -/
structure Until (stop : Bool) (behind : List (Stage (Cells Event)))
    (combine : List (Expression Event) → Event → Event × Bool) : Prop where
  behind : ∀ cells, through behind cells = (cells, cells.result.success != stop)
  nil : ∀ event, combine [] event = (event, !stop)
  cons : ∀ operand operands event, combine (operand :: operands) event =
    if (meaning operand event).2 = stop then ((meaning operand event).1, stop)
    else combine operands (meaning operand event).1

theorem until_allOf : Until false [filterSuccess] (@allOf Event) where
  behind cells := by cases h : cells.result.success <;> simp [through, filterSuccess, h]
  nil event := by rw [allOf]; rfl
  cons operand operands event := by rw [allOf]; cases (meaning operand event).2 <;> rfl

theorem until_anyOf : Until true [filterFailure] (@anyOf Event) where
  behind cells := by cases h : cells.result.success <;> simp [through, filterFailure, h]
  nil event := by rw [anyOf]; rfl
  cons operand operands event := by rw [anyOf]

mutual

/-- **The effect of an expression is its meaning.** The status of a second operand is not used. -/
theorem effect_meaning (e : Expression Event) (second : Bool) (wf : e.WellFormed second) (base : Nat)
    (cells : Cells Event) : (effect e base cells).2 = true ∧
      Leaves base cells (effect e base cells).1 (meaning e cells.result.payload).1 ∧
      (second = false →
        (effect e base cells).1.result.success = (meaning e cells.result.payload).2) := by
  cases e with
  | term name fn =>
    refine ⟨rfl, ?_⟩
    simp only [effect, through, meaning, runTerm]
    cases fn cells.result.payload with
    | ok result | error _ => exact ⟨⟨rfl, fun _ _ => rfl⟩, fun _ => rfl⟩
  | and operands =>
    obtain ⟨some, wf⟩ := wf
    obtain ⟨leaves, status⟩ := effects_until until_allOf operands wf (base + 1) cells
    refine ⟨rfl, leaves.mono (Nat.le_succ _), fun first => status (some.resolve_left ?_)⟩
    simp [first]
  | or operands =>
    obtain ⟨some, wf⟩ := wf
    obtain ⟨leaves, status⟩ := effects_until until_anyOf operands wf (base + 1) cells
    refine ⟨rfl, leaves.mono (Nat.le_succ _), fun first => status (some.resolve_left ?_)⟩
    simp [first]
  | chain operands | broadcast operands =>
    have leaves := (effects_inOrder operands wf (base + 1) cells).mono (Nat.le_succ base)
    exact ⟨rfl, ⟨leaves.payload, leaves.kept⟩, fun _ => rfl⟩
  | implication left right =>
    obtain ⟨passed, leaves, status⟩ := effect_meaning left false wf.1 (base + 1) cells
    have status := status rfl
    obtain ⟨recorded, flag, goes⟩ := leaves.filterCondition
    rw [status] at flag goes
    rw [effect_implication passed, meaning]
    cases succeeded : (meaning left cells.result.payload).2 with
    | false =>
      rw [succeeded] at goes flag
      rw [Effect.andThen_stopped goes, if_neg (by simp)]
      exact ⟨rfl, ⟨recorded.payload, recorded.kept⟩, fun _ => flag⟩
    | true =>
      rw [succeeded] at goes flag
      rw [Effect.andThen_passed goes, if_pos rfl, ← recorded.payload]
      obtain ⟨_, rest, _⟩ := effect_meaning right true wf.2 (base + 1 + left.size)
        (through [filterCondition base] (effect left (base + 1) cells).1).1
      have both := recorded.trans rest (by omega)
      exact ⟨rfl, ⟨both.payload, both.kept⟩, fun _ => (rest.kept base (by omega)).trans flag⟩

theorem effects_until {stop : Bool} {behind : List (Stage (Cells Event))}
    {combine : List (Expression Event) → Event → Event × Bool} (until_ : Until stop behind combine)
    (operands : List (Expression Event)) (wf : AllWellFormed operands) (base : Nat)
    (cells : Cells Event) : Leaves base cells (effects behind operands base cells).1
        (combine operands cells.result.payload).1 ∧
      (operands ≠ [] → (effects behind operands base cells).1.result.success =
        (combine operands cells.result.payload).2) := by
  cases operands with
  | nil =>
    rw [until_.nil]
    exact ⟨⟨rfl, fun _ _ => rfl⟩, fun some => absurd rfl some⟩
  | cons operand operands =>
    obtain ⟨passed, leaves, status⟩ := effect_meaning operand false wf.1 base cells
    have status := status rfl
    have goes := until_.behind (effect operand base cells).1
    rw [status] at goes
    rw [effects_cons passed, until_.cons]
    by_cases stops : (meaning operand cells.result.payload).2 = stop
    · rw [Effect.andThen_stopped (by simp [goes, stops]), goes, if_pos stops]
      exact ⟨leaves, fun _ => status.trans stops⟩
    · rw [Effect.andThen_passed (by simp [goes, stops]), goes, if_neg stops, ← leaves.payload]
      obtain ⟨rest, last⟩ := effects_until until_ operands wf.2 (base + operand.size)
        (effect operand base cells).1
      refine ⟨leaves.trans rest (Nat.le_add_right _ _), fun _ => ?_⟩
      cases operands with
      | nil =>
        rw [until_.nil]
        exact status.trans (Bool.eq_not_of_ne stops)
      | cons operand' operands' => exact last (by simp)

theorem effects_inOrder (operands : List (Expression Event)) (wf : AllWellFormed operands)
    (base : Nat) (cells : Cells Event) :
    Leaves base cells (effects [] operands base cells).1 (inOrder operands cells.result.payload) := by
  cases operands with
  | nil => exact ⟨rfl, fun _ _ => rfl⟩
  | cons operand operands =>
    obtain ⟨passed, leaves, _⟩ := effect_meaning operand false wf.1 base cells
    have rest := effects_inOrder operands wf.2 (base + operand.size) (effect operand base cells).1
    rw [effects_cons passed, inOrder, ← leaves.payload]
    exact leaves.trans rest (Nat.le_add_right _ _)

end

section events

variable {e : Expression Event}

theorem ingest_meaning (wf : e.WellFormed false) (state : (Nat → Bool) × List (Cells Event))
    (event : Result Event) : ∃ cells : Cells Event,
    (cells.result.payload, cells.result.success) = meaning e event.payload ∧
    ∃ enough, ∀ fuel, enough ≤ fuel →
      ingest (pipeline (recBuild e)) fuel state event = some (cells.condition, state.2 ++ [cells]) := by
  obtain ⟨passed, leaves, status⟩ := effect_meaning e false wf 1 ⟨event, state.1⟩
  obtain ⟨enough, runs⟩ := (recBuild_computes e).runs ⟨event, state.1⟩ state.2 passed
  refine ⟨(effect e 1 ⟨event, state.1⟩).1, Prod.ext leaves.payload (status rfl), enough, ?_⟩
  intro fuel more
  rw [ingest, runs fuel more]
  rfl

/-- The events one after another: each is emitted before the next one. -/
theorem ingest_all (wf : e.WellFormed false) (events : List (Result Event))
    (state : (Nat → Bool) × List (Cells Event)) : ∃ emitted : List (Cells Event),
    emitted.map (fun cells => (cells.result.payload, cells.result.success)) =
      events.map (fun event => meaning e event.payload) ∧
    ∃ enough, ∀ fuel, enough ≤ fuel → ∃ condition,
      events.foldlM (ingest (pipeline (recBuild e)) fuel) state =
        some (condition, state.2 ++ emitted) := by
  induction events generalizing state with
  | nil => exact ⟨[], rfl, 0, fun _ _ => ⟨state.1, by simp⟩⟩
  | cons event events ih =>
    obtain ⟨cells, computed, enough, first⟩ := ingest_meaning wf state event
    obtain ⟨emitted, rest, enough', others⟩ := ih (cells.condition, state.2 ++ [cells])
    refine ⟨cells :: emitted, by rw [List.map_cons, List.map_cons, computed, rest],
      max enough enough', fun fuel more => ?_⟩
    obtain ⟨condition, last⟩ := others fuel (by omega)
    refine ⟨condition, ?_⟩
    rw [List.foldlM_cons, first fuel (by omega)]
    simpa using last

/-- **The pipeline of an expression computes its meaning**: for events pushed one after another it
emits one result for each, in order, with the payload and the status that the expression means. -/
theorem emissions_meaning (e : Expression Event) (wf : e.WellFormed false)
    (events : List (Result Event)) : ∃ enough, ∀ fuel, enough ≤ fuel → ∃ results,
    emissions e fuel events = some results ∧
    results.map (fun result => (result.payload, result.success)) =
      events.map (fun event => meaning e event.payload) := by
  obtain ⟨emitted, computed, enough, runs⟩ := ingest_all wf events (fun _ => false, [])
  refine ⟨enough, fun fuel more => ?_⟩
  obtain ⟨condition, last⟩ := runs fuel more
  refine ⟨emitted.map Cells.result, ?_, ?_⟩
  · rw [emissions, last]
    rfl
  · rw [List.map_map]
    exact computed

end events

/-- A throwing term in a chain before an implication without operands on its right. -/
theorem emissions_meaning_chain : ∃ enough, ∀ fuel, enough ≤ fuel → ∃ results,
    emissions (.chain [.term "throws" fun _ => .error "no",
        .implication (.term "adds" fun n => .ok ⟨n + 1, none, true⟩) (.and [])])
      fuel [⟨4, none, true⟩, ⟨7, none, true⟩] = some results ∧
    results.map (fun result => (result.payload, result.success)) = [(5, true), (8, true)] := by
  refine @emissions_meaning Nat _ ?_ _
  simp [Expression.WellFormed, AllWellFormed]

end GuardSarm.ExprBuilder
