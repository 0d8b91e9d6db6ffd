import GuardSarm.Engine.ExprBuilder
import Mathlib.Data.Option.Basic

/-!
# The tracers of an expression

`recBuild` of `exprBuilder.hpp` hands one `publisher` through the whole build: an expression with
a traceable name replaces it, nothing puts the old one back, and each term captures the one it
finds.

* `recBuild_built`: what the build of an expression leaves in the publisher, and when its terms
  have captured what they should.
-/

namespace GuardSarm.TermTracer

open ExprBuilder (EngineOp Cells runTerm)

variable {Event : Type}

/-- The operations that build their operands one after another. -/
inductive Operation where
  | and | or | chain | broadcast

/-- `base::Expression`, with the names of all its nodes. -/
inductive Expression (Event : Type) where
  | term (name : String) (fn : EngineOp Event)
  | operation (kind : Operation) (name : String) (operands : List (Expression Event))
  | implication (name : String) (left right : Expression Event)

/-- The `map` of a term, by what its function captures. -/
structure Stage (Event : Type) where
  fn : EngineOp Event
  tracer : Option String
  name : String

/-- The result of the term, and what is published to which tracer. -/
def Stage.run (stage : Stage Event) (cells : Cells Event) :
    Cells Event × Option (String × Option String × Bool) :=
  let cells := runTerm stage.name stage.fn cells
  (cells, stage.tracer.map fun tracer => (tracer, cells.result.trace, cells.result.success))

/-- A tracer has the name it is stored under. -/
structure BuildParams where
  publisher : Option String
  traces : List String

variable (traceables : List String)

def BuildParams.enter (name : String) (params : BuildParams) : BuildParams :=
  if name ∈ traceables then
    { traces := if name ∈ params.traces then params.traces else name :: params.traces
      publisher := some name }
  else params

mutual

/-- The parameters after the build, and the stages of the terms in their order. -/
def recBuild : Expression Event → BuildParams → BuildParams × List (Stage Event)
  | .term name fn, params =>
    let params := params.enter traceables name
    (params, [⟨fn, params.publisher, name⟩])
  | .operation _ name operands, params => recOperands operands (params.enter traceables name)
  | .implication name left right, params =>
    let (params, first) := recBuild left (params.enter traceables name)
    let (params, second) := recBuild right params
    (params, first ++ second)

/-- The loop over the operands. -/
def recOperands : List (Expression Event) → BuildParams → BuildParams × List (Stage Event)
  | [], params => (params, [])
  | operand :: operands, params =>
    let (params, first) := recBuild operand params
    let (params, later) := recOperands operands params
    (params, first ++ later)

end

def build (expression : Expression Event) (traces : List String) : List (Stage Event) :=
  (recBuild traceables expression ⟨none, traces⟩).2

def own (name : String) : Option String := if name ∈ traceables then some name else none

mutual

/-- The stages as they should be, where `scope` is the innermost traceable expression around. -/
def Expression.scoped : Expression Event → Option String → List (Stage Event)
  | .term name fn, scope => [⟨fn, (own traceables name).or scope, name⟩]
  | .operation _ name operands, scope => scopedOperands operands ((own traceables name).or scope)
  | .implication name left right, scope =>
    left.scoped ((own traceables name).or scope) ++ right.scoped ((own traceables name).or scope)

def scopedOperands : List (Expression Event) → Option String → List (Stage Event)
  | [], _ => []
  | operand :: operands, scope => operand.scoped scope ++ scopedOperands operands scope

end

/-- A part of an expression: the traceable expression that begins last in it, whether a term comes
before all of them, and whether in a given scope each term that follows a traceable expression
outside of it is in one that begins later, or the names agree. -/
structure Part where
  opened : Option String
  bare : Prop
  nested : Option String → Prop

def Part.seq (first second : Part) : Part where
  opened := second.opened.or first.opened
  bare := first.bare ∨ first.opened = none ∧ second.bare
  nested scope := first.nested scope ∧ second.nested scope ∧
    (second.bare → ∀ name ∈ first.opened, some name = scope)

def Part.named (name : String) (part : Part) : Part where
  opened := part.opened.or (own traceables name)
  bare := own traceables name = none ∧ part.bare
  nested scope := part.nested ((own traceables name).or scope)

mutual

def Expression.part : Expression Event → Part
  | .term name _ => .named traceables name ⟨none, True, fun _ => True⟩
  | .operation _ name operands => .named traceables name (operandsPart operands)
  | .implication name left right => .named traceables name (left.part.seq right.part)

def operandsPart : List (Expression Event) → Part
  | [] => ⟨none, False, fun _ => True⟩
  | operand :: operands => operand.part.seq (operandsPart operands)

end

/-- The build of a part is right where the part is nested, and the publisher it finds is the one
of the scope if it begins with a term. -/
structure Built {α : Type} (part : Part) (scope publisher publisher' : Option String)
    (stages specified : List α) : Prop where
  leaves : publisher' = part.opened.or publisher
  length : stages.length = specified.length
  right : stages = specified ↔ part.nested scope ∧ (part.bare → publisher = scope)

section Build

variable {traceables : List String} {α : Type}
  {scope publisher publisher₁ publisher₂ : Option String} {stages specified : List α}

theorem Built.seq {first second : Part} {stages' specified' : List α}
    (before : Built first scope publisher publisher₁ stages specified)
    (after : Built second scope publisher₁ publisher₂ stages' specified') :
    Built (first.seq second) scope publisher publisher₂ (stages ++ stages')
      (specified ++ specified') where
  leaves := by rw [after.leaves, before.leaves, Part.seq, Option.or_assoc]
  length := by rw [List.length_append, List.length_append, before.length, after.length]
  right := by
    have parts : stages ++ stages' = specified ++ specified' ↔
        stages = specified ∧ stages' = specified' := by
      constructor
      · intro same
        exact List.append_inj same before.length
      · rintro ⟨rfl, rfl⟩
        rfl
    rw [parts, before.right, after.right, before.leaves, Part.seq]
    cases first.opened with
    | none => simp; tauto
    | some name => simp; tauto

theorem Built.named {part : Part} {params : BuildParams} (name : String)
    (inner : Built part ((own traceables name).or scope) (params.enter traceables name).publisher
      publisher₁ stages specified) :
    Built (.named traceables name part) scope params.publisher publisher₁ stages specified := by
  have entered : (params.enter traceables name).publisher =
      (own traceables name).or params.publisher := by
    rw [BuildParams.enter, own]
    split <;> rfl
  refine ⟨?_, inner.length, ?_⟩
  · rw [inner.leaves, entered, Part.named, Option.or_assoc]
  · rw [inner.right, entered, Part.named]
    cases own traceables name <;> simp

variable (cells : Cells Event)

mutual

theorem recBuild_built : ∀ (expression : Expression Event) (params : BuildParams)
    (scope : Option String), Built (expression.part traceables) scope params.publisher
      (recBuild traceables expression params).1.publisher
      ((recBuild traceables expression params).2.map (·.run cells))
      ((expression.scoped traceables scope).map (·.run cells))
  | .term name fn, params, scope => by
    refine .named name ⟨rfl, rfl, ?_⟩
    have published : Function.Injective fun tracer => Stage.run ⟨fn, tracer, name⟩ cells := by
      intro tracer tracer' same
      exact Option.map_injective (fun _ _ equal => congrArg Prod.fst equal)
        (congrArg Prod.snd same)
    simp [recBuild, Expression.scoped, published.eq_iff]
  | .operation _ name operands, params, scope => .named name (recOperands_built operands _ _)
  | .implication name left right, params, scope => by
    simp only [recBuild, Expression.scoped, List.map_append]
    exact .named name ((recBuild_built left _ _).seq (recBuild_built right _ _))

theorem recOperands_built : ∀ (operands : List (Expression Event)) (params : BuildParams)
    (scope : Option String), Built (operandsPart traceables operands) scope params.publisher
      (recOperands traceables operands params).1.publisher
      ((recOperands traceables operands params).2.map (·.run cells))
      ((scopedOperands traceables operands scope).map (·.run cells))
  | [], _, _ => ⟨rfl, rfl, by simp [recOperands, scopedOperands, operandsPart]⟩
  | operand :: operands, params, scope => by
    simp only [recOperands, scopedOperands, List.map_append]
    exact (recBuild_built operand _ _).seq (recOperands_built operands _ _)

end

/-- **Traces belong to the innermost traceable expression around a term** exactly where the
expression is nested. -/
theorem traces_innermost (traceables : List String) (expression : Expression Event)
    (traces : List String) (cells : Cells Event) :
    (build traceables expression traces).map (·.run cells) =
      (expression.scoped traceables none).map (·.run cells) ↔
    (expression.part traceables).nested none := by
  have built : Built _ none none _ ((build traceables expression traces).map (·.run cells)) _ :=
    recBuild_built cells expression ⟨none, traces⟩ none
  simpa using built.right

end Build

def siblings : Expression Unit :=
  .operation .chain "decoders" [.operation .and "decoder/a" [.term "a" fun _ => .error ""],
    .term "b" fun event => .ok ⟨event, some "b", true⟩]

def fresh : Cells Unit := ⟨⟨(), none, true⟩, fun _ => true⟩

/-- The term `b` stands beside the traceable expression `decoder/a` and publishes to its tracer. -/
theorem sibling_traced : (build ["decoder/a"] siblings []).map (fun stage => (stage.run fresh).2) =
      [some ("decoder/a", some "[a] -> Failure: operation throw exception.", false),
        some ("decoder/a", some "b", true)] ∧
    (siblings.scoped ["decoder/a"] none).map (fun stage => (stage.run fresh).2) =
      [some ("decoder/a", some "[a] -> Failure: operation throw exception.", false), none] := by
  decide

end GuardSarm.TermTracer
