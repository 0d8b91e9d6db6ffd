import GuardSarm.Lib.Multicast

/-!
# The rx pipeline of an expression

`recBuild` of `exprBuilder.hpp`. An event is one result object that all stages
of the pipeline share, so the stages work on it and on the flags of the
implications. `publish().ref_count()`, `map`, `filter` and `subscribe` are
those of a multicast pipeline. An expression that is used in several places is
built once for each of them.
-/

namespace GuardSarm.ExprBuilder

open Multicast

variable {Event : Type}

/-- `base::result::Result`. -/
structure Result (Event : Type) where
  payload : Event
  trace : Option String
  success : Bool

def makeFailure (payload : Event) (trace : String) : Result Event := ⟨payload, some trace, false⟩

/-- `base::EngineOp`: a result, or the text of an exception. -/
abbrev EngineOp (Event : Type) := Event → Except String (Result Event)

inductive Expression (Event : Type) where
  | term (name : String) (fn : EngineOp Event)
  | and (operands : List (Expression Event))
  | or (operands : List (Expression Event))
  | chain (operands : List (Expression Event))
  | broadcast (operands : List (Expression Event))
  | implication (left right : Expression Event)

/-- The result object of an event, and the flags `condition` of the implications. -/
structure Cells (Event : Type) where
  result : Result Event
  condition : Nat → Bool

def Cells.setStatus (cells : Cells Event) (success : Bool) : Cells Event :=
  { cells with result := { cells.result with success := success } }

def runTerm (name : String) (fn : EngineOp Event) (cells : Cells Event) : Cells Event :=
  match fn cells.result.payload with
  | .ok result => { cells with result := result }
  | .error _ =>
    let errorMsg := "[" ++ name ++ "] -> Failure: operation throw exception."
    { cells with result := makeFailure cells.result.payload errorMsg }

def filterSuccess : Stage (Cells Event) := .filter fun cells => (cells, cells.result.success)

def filterFailure : Stage (Cells Event) := .filter fun cells => (cells, !cells.result.success)

def filterCondition (condition : Nat) : Stage (Cells Event) := .filter fun cells =>
  ({ cells with condition := Function.update cells.condition condition cells.result.success },
    cells.result.success)

def mapSuccess : Stage (Cells Event) := .map fun cells => cells.setStatus true

def mapCondition (condition : Nat) : Stage (Cells Event) := .map fun cells =>
  cells.setStatus (cells.condition condition)

mutual

def recBuild : Expression Event → Builder (Cells Event)
  | .term name fn, input, g => (input.stage (.map (runTerm name fn)), g)
  | .and operands, input, g =>
    let (step1, g) := g.publish input
    let (step2, g) := recOperands (fun step => step.stage filterSuccess) operands step1 g
    (step1, step2.subscribe ⟨[], .ignore⟩ g)
  | .chain operands, input, g | .broadcast operands, input, g =>
    let (step1, g) := g.publish input
    let (step2, g) := recOperands (fun step => step) operands step1 g
    (step1.stage mapSuccess, step2.subscribe ⟨[], .ignore⟩ g)
  | .or operands, input, g =>
    let (step1, g) := g.publish input
    let (step2, g) := recOperands (fun step => step.stage filterFailure) operands step1 g
    (step1, step2.subscribe ⟨[], .ignore⟩ g)
  | .implication left right, input, g =>
    -- the flag has the number of the multicast
    let condition := g.next
    let (step, g) := g.publish input
    let (step1, g) := recBuild left step g
    let (step2, g) := recBuild right (step1.stage (filterCondition condition)) g
    (step.stage (mapCondition condition), step2.subscribe ⟨[], .ignore⟩ g)

/-- The loop over the operands. -/
def recOperands (behind : Observable (Cells Event) → Observable (Cells Event)) :
    List (Expression Event) → Builder (Cells Event)
  | [], step, g => (step, g)
  | operand :: operands, step, g =>
    let (step, g) := recBuild operand step g
    recOperands behind operands (behind step) g

end

/-- `on_next` of the subject for an event. The flags outlive it. -/
def ingest (g : Graph (Cells Event)) (fuel : Nat) (state : (Nat → Bool) × List (Cells Event))
    (event : Result Event) : Option ((Nat → Bool) × List (Cells Event)) := do
  let (cells, emitted) ← deliver g fuel ⟨[], .shared 0⟩ (⟨event, state.1⟩, state.2)
  return (cells.condition, emitted)

/-- What the pipeline emits for events that are pushed one after another. -/
def emissions (expression : Expression Event) (fuel : Nat) (events : List (Result Event)) :
    Option (List (Result Event)) := do
  let (_, emitted) ← events.foldlM (ingest (pipeline (recBuild expression)) fuel) (fun _ => false, [])
  return emitted.map Cells.result

end GuardSarm.ExprBuilder
