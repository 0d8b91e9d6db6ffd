import GuardSarm.Engine.DecoderTree

/-!
# The stages of a policy

`buildExpression` joins the trees of a policy and its enrichments into one
expression. A discard counter is a term that adds to its counter and fails.
The assets act on the event only, so an event is carried together with the
counters and the expressions of the assets are lifted.
-/

namespace GuardSarm.Policy

open ExprBuilder

variable {Event : Type}

inductive AssetPipelineStage where
  | preFiltersTree | decodersTree | postFiltersTree | outputsTree
  deriving DecidableEq

def AssetPipelineStage.toStr : AssetPipelineStage → String
  | .preFiltersTree => "PreFiltersTree"
  | .decodersTree => "DecodersTree"
  | .postFiltersTree => "PostFiltersTree"
  | .outputsTree => "OutputsTree"

/-- `PolicyGraph`, without its name. -/
abbrev PolicyGraph (Event : Type) := AssetPipelineStage → Option (Graph (Asset Event))

abbrev BuiltAssets (Event : Type) := AssetPipelineStage → SubgraphData Event

/-- The loop of `buildGraph` for a stage. -/
def buildStage (assets : BuiltAssets Event) (fuel : Nat) (rtype : AssetPipelineStage) :
    Except Failure (Option (Graph (Asset Event))) :=
  if (assets rtype).isEmpty then .ok none
  else do
    let subgraph ← buildSubgraph (rtype.toStr ++ "/Input") (assets rtype)
    let _ ← subgraph.validateAcyclic fuel rtype.toStr
    return some subgraph

def buildGraph (assets : BuiltAssets Event) (fuel : Nat) : Except Failure (PolicyGraph Event) := do
  let preFilters ← buildStage assets fuel .preFiltersTree
  let decoders ← buildStage assets fuel .decodersTree
  let postFilters ← buildStage assets fuel .postFiltersTree
  let outputs ← buildStage assets fuel .outputsTree
  return fun
    | .preFiltersTree => preFilters
    | .decodersTree => decoders
    | .postFiltersTree => postFilters
    | .outputsTree => outputs

/-- A counter, by its number. -/
abbrev Counter := Nat

/-- An event on its way, and the values of the counters. -/
structure Counted (Event : Type) where
  event : Event
  counters : Counter → Nat

def onEvent (fn : EngineOp Event) : EngineOp (Counted Event) := fun world =>
  match fn world.event with
  | .ok result => .ok ⟨{ world with event := result.payload }, result.trace, result.success⟩
  | .error what => .error what

mutual

/-- An expression on events, for events that are carried with the counters. -/
def lift : Expression Event → Expression (Counted Event)
  | .term name fn => .term name (onEvent fn)
  | .and operands => .and (liftAll operands)
  | .or operands => .or (liftAll operands)
  | .chain operands => .chain (liftAll operands)
  | .broadcast operands => .broadcast (liftAll operands)
  | .implication left right => .implication (lift left) (lift right)

def liftAll : List (Expression Event) → List (Expression (Counted Event))
  | [] => []
  | operand :: operands => lift operand :: liftAll operands

end

/-- `counter->add(1)`. -/
def add (counter : Counter) (world : Counted Event) : Counted Event :=
  { world with counters := Function.update world.counters counter (world.counters counter + 1) }

def makeFilterDiscardCounter (phaseExpr : Expression (Counted Event)) (counter : Counter)
    (name : String) : Expression (Counted Event) :=
  let counterTerm := .term name fun world => .ok ⟨add counter world, none, false⟩
  .or [phaseExpr, counterTerm]

section expression

variable (graph : PolicyGraph Event) (preFilterDiscardCounter postFilterDiscardCounter : Option Counter)
  (fuel : Nat)

/-- The expression of a tree that may be missing. -/
def treeExpression (operator : List (Expression Event) → Expression Event) (stage : AssetPipelineStage) :
    Except Failure (Option (Expression Event)) :=
  match graph stage with
  | none => .ok none
  | some tree => some <$> buildSubgraphExpression operator tree fuel

/-- The discard counter around a phase, when there is one. -/
def counted (phaseExpr : Expression (Counted Event)) (counter : Option Counter) (name : String) :
    Expression (Counted Event) :=
  match counter with
  | some counter => makeFilterDiscardCounter phaseExpr counter name
  | none => phaseExpr

def decodersExpr : Except Failure (Expression Event) :=
  match graph .decodersTree with
  | none => .error (.raised "Policy must have at least a decoders")
  | some tree => buildSubgraphExpression .or tree fuel

def phase1 : Except Failure (Expression (Counted Event)) := do
  let decodersExpr ← decodersExpr graph fuel
  match ← treeExpression graph fuel .or .preFiltersTree with
  | some preFiltersExpr =>
    let implExpr := Expression.implication (lift preFiltersExpr) (lift decodersExpr)
    return counted implExpr preFilterDiscardCounter "Phase1_PreFilterDiscard"
  | none => return .chain [lift decodersExpr]

def phase3 : Except Failure (Option (Expression (Counted Event))) := do
  let outputsExpr ← treeExpression graph fuel .broadcast .outputsTree
  let postFiltersExpr ← treeExpression graph fuel .or .postFiltersTree
  match postFiltersExpr, outputsExpr with
  | some postFiltersExpr, some outputsExpr =>
    let implExpr := Expression.implication (lift postFiltersExpr) (lift outputsExpr)
    return some (counted implExpr postFilterDiscardCounter "Phase3_PostFilterDiscard")
  | none, some outputsExpr => return some (lift outputsExpr)
  | some postFiltersExpr, none =>
    return some (counted (lift postFiltersExpr) postFilterDiscardCounter "Phase3_PostFilterDiscard")
  | none, none => return none

def buildExpression (preEnrichmentExpression enrichmentExpression : Expression Event) :
    Except Failure (Expression (Counted Event)) := do
  let phase1 ← phase1 graph preFilterDiscardCounter fuel
  match ← phase3 graph postFilterDiscardCounter fuel with
  | some phase3 =>
    return .and [phase1, lift preEnrichmentExpression, lift enrichmentExpression, phase3]
  | none => return .and [phase1, lift preEnrichmentExpression, lift enrichmentExpression]

end expression

mutual

theorem meaning_lift (e : Expression Event) (event : Event) (counters : Counter → Nat) :
    meaning (lift e) ⟨event, counters⟩ =
      (⟨(meaning e event).1, counters⟩, (meaning e event).2) := by
  cases e with
  | term name fn =>
    rw [lift, meaning, meaning, onEvent]
    cases fn event with
    | ok result => rfl
    | error what => rfl
  | and operands => rw [lift, meaning, meaning, until_lift until_allOf until_allOf]
  | or operands => rw [lift, meaning, meaning, until_lift until_anyOf until_anyOf]
  | chain operands | broadcast operands => rw [lift, meaning, meaning, inOrder_lift]
  | implication left right =>
    rw [lift, meaning, meaning, meaning_lift left]
    cases (meaning left event).2 with
    | false => rfl
    | true => simp [meaning_lift right]

theorem until_lift {stop : Bool} {behind : List (Multicast.Stage (Cells Event))}
    {behind' : List (Multicast.Stage (Cells (Counted Event)))}
    {combine : List (Expression Event) → Event → Event × Bool}
    {combine' : List (Expression (Counted Event)) → Counted Event → Counted Event × Bool}
    (plain : Until stop behind combine) (counted : Until stop behind' combine')
    (operands : List (Expression Event)) (event : Event) (counters : Counter → Nat) :
    combine' (liftAll operands) ⟨event, counters⟩ =
      (⟨(combine operands event).1, counters⟩, (combine operands event).2) := by
  cases operands with
  | nil => rw [liftAll, plain.nil, counted.nil]
  | cons operand operands =>
    rw [liftAll, plain.cons, counted.cons, meaning_lift operand]
    split
    · rfl
    · exact until_lift plain counted operands _ _

theorem inOrder_lift (operands : List (Expression Event)) (event : Event) (counters : Counter → Nat) :
    inOrder (liftAll operands) ⟨event, counters⟩ = ⟨inOrder operands event, counters⟩ := by
  cases operands with
  | nil => rw [liftAll, inOrder, inOrder]
  | cons operand operands =>
    rw [liftAll, inOrder, inOrder, meaning_lift operand]
    exact inOrder_lift operands _ _

end

section trees

variable {tree : Graph (Asset Event)} {fuel : Nat} {e : Expression Event}

def Graph.expressionOf (tree : Graph (Asset Event)) (name : Name) : Expression Event :=
  ((tree.nodes.lookup name).getD .none).expression

theorem expressionOf_node {name : Name} {asset : Asset Event} (node : tree.node name = .ok asset) :
    tree.expressionOf name = asset.expression := by
  unfold Graph.node at node
  split at node
  · cases node
  · rename_i found
    cases node
    simp [Graph.expressionOf, found]

/-- A tree made with `Or` leaves an event and has accepted it or not. -/
def Tried (tree : Graph (Asset Event)) (event event' : Event) (accepted : Bool) : Prop :=
  ∃ tried, Walk tree.expressionOf tree.childrenOf (tree.childrenOf tree.root) event event' tried ∧
    accepted = tried.any (·.2)

theorem Tried.unique {event event₁ event₂ : Event} {accepted₁ accepted₂ : Bool}
    (one : Tried tree event event₁ accepted₁) (two : Tried tree event event₂ accepted₂) :
    event₂ = event₁ ∧ accepted₂ = accepted₁ := by
  obtain ⟨tried, walk, rfl⟩ := one
  obtain ⟨tried', walk', rfl⟩ := two
  obtain ⟨rfl, rfl⟩ := walk.unique walk'
  exact ⟨rfl, rfl⟩

theorem behaves_closed : Closed .or tree (Behaves tree.expressionOf tree.childrenOf) where
  leaf node childless := expressionOf_node node ▸ behaves_leaf childless
  inner node all := expressionOf_node node ▸ behaves_inner all

theorem meaning_tried (made : buildSubgraphExpression .or tree fuel = .ok e) (event : Event) :
    Tried tree event (meaning e event).1 (meaning e event).2 := by
  obtain ⟨operands, rfl, all⟩ := buildSubgraphExpression_good behaves_closed made
  obtain ⟨event', tried, walk, same⟩ := anyOf_walk all event
  rw [meaning, same]
  exact ⟨tried, walk, rfl⟩

theorem tried_iff (made : buildSubgraphExpression .or tree fuel = .ok e) {event event' : Event}
    {accepted : Bool} : Tried tree event event' accepted ↔ meaning e event = (event', accepted) := by
  have tried := meaning_tried made event
  constructor
  · intro other
    obtain ⟨left, status⟩ := other.unique tried
    exact Prod.ext left status
  · intro same
    rwa [same] at tried

/-- All siblings run one after another, and the children of each that succeeds. -/
inductive Spread (tree : Graph (Asset Event)) : List Name → Event → Event → Prop
  | nil {event : Event} : Spread tree [] event event
  | fails {name : Name} {names : List Name} {event event₁ event₂ : Event} :
    meaning (tree.expressionOf name) event = (event₁, false) → Spread tree names event₁ event₂ →
    Spread tree (name :: names) event event₂
  | succeeds {name : Name} {names : List Name} {event event₁ event₂ event₃ : Event} :
    meaning (tree.expressionOf name) event = (event₁, true) →
    Spread tree (tree.childrenOf name) event₁ event₂ → Spread tree names event₂ event₃ →
    Spread tree (name :: names) event event₃

variable {names : List Name}

theorem Spread.unique {event event₁ event₂ : Event}
    (one : Spread tree names event event₁) (two : Spread tree names event event₂) :
    event₂ = event₁ := by
  induction one generalizing event₂ with
  | nil =>
    cases two
    rfl
  | fails outcome _ ih =>
    cases two with
    | fails outcome' rest =>
      obtain ⟨rfl, _⟩ := Prod.mk.inj (outcome.symm.trans outcome')
      exact ih rest
    | succeeds outcome' _ _ => cases outcome.symm.trans outcome'
  | succeeds outcome _ _ ihBelow ihRest =>
    cases two with
    | fails outcome' _ => cases outcome.symm.trans outcome'
    | succeeds outcome' below rest =>
      obtain ⟨rfl, _⟩ := Prod.mk.inj (outcome.symm.trans outcome')
      cases ihBelow below
      exact ihRest rest

/-- The events before and after the expression of a node. -/
def SpreadsAs (tree : Graph (Asset Event)) (name : Name) (e : Expression Event) : Prop :=
  ∀ event, Spread tree [name] event (meaning e event).1

theorem Spread.head {name : Name} {event event₁ event₂ : Event}
    (first : Spread tree [name] event event₁) (rest : Spread tree names event₁ event₂) :
    Spread tree (name :: names) event event₂ := by
  cases first with
  | fails fails nothing =>
    cases nothing
    exact .fails fails rest
  | succeeds succeeds below nothing =>
    cases nothing
    exact .succeeds succeeds below rest

theorem inOrder_spread {es : List (Expression Event)}
    (all : List.Forall₂ (SpreadsAs tree) names es) (event : Event) :
    Spread tree names event (inOrder es event) := by
  induction all generalizing event with
  | nil =>
    exact .nil
  | cons here _ ih =>
    exact (here event).head (ih _)

theorem spreadsAs_closed : Closed .broadcast tree (SpreadsAs tree) where
  leaf := by
    intro name asset node childless event
    rw [← expressionOf_node node]
    cases outcome : meaning (tree.expressionOf name) event with
    | mk event' success =>
      cases success with
      | false => exact .fails outcome .nil
      | true =>
        refine .succeeds outcome ?_ .nil
        rw [childless]
        exact .nil
  inner := by
    intro name asset operands node all event
    rw [← expressionOf_node node, meaning]
    cases outcome : meaning (tree.expressionOf name) event with
    | mk event' success =>
      cases success with
      | false => exact .fails outcome .nil
      | true =>
        refine .succeeds outcome ?_ .nil
        exact inOrder_spread all event'

theorem meaning_spread (made : buildSubgraphExpression .broadcast tree fuel = .ok e) (event : Event) :
    ∃ event', Spread tree (tree.childrenOf tree.root) event event' ∧
      meaning e event = (event', true) := by
  obtain ⟨operands, rfl, all⟩ := buildSubgraphExpression_good spreadsAs_closed made
  exact ⟨inOrder operands event, inOrder_spread all event, by rw [meaning]⟩

theorem spread_iff (made : buildSubgraphExpression .broadcast tree fuel = .ok e) {event event' : Event} :
    Spread tree (tree.childrenOf tree.root) event event' ↔ meaning e event = (event', true) := by
  obtain ⟨event₁, spread, same⟩ := meaning_spread made event
  rw [same]
  constructor
  · intro other
    rw [other.unique spread]
  · intro equal
    cases equal
    exact spread

end trees

section run

variable {graph : PolicyGraph Event} {preEnrichment : Expression Event}
  {enrichment : List (Expression Event)} {preFilterDiscardCounter postFilterDiscardCounter : Option Counter}
  {fuel : Nat} {event : Event} {counters : Counter → Nat}

/-- An event passes a tree of filters that is missing or has a filter that accepts. -/
def Passed (graph : PolicyGraph Event) (stage : AssetPipelineStage) (event event' : Event) : Prop :=
  (graph stage = none ∧ event' = event) ∨ ∃ tree, graph stage = some tree ∧ Tried tree event event' true

def Stopped (graph : PolicyGraph Event) (stage : AssetPipelineStage) (event event' : Event) : Prop :=
  ∃ tree, graph stage = some tree ∧ Tried tree event event' false

def Decoded (graph : PolicyGraph Event) (event event' : Event) : Prop :=
  ∃ tree accepted, graph .decodersTree = some tree ∧ Tried tree event event' accepted

def Sent (graph : PolicyGraph Event) (event event' : Event) : Prop :=
  (graph .outputsTree = none ∧ event' = event) ∨
    ∃ tree, graph .outputsTree = some tree ∧ Spread tree (tree.childrenOf tree.root) event event'

def discard (counter : Option Counter) (world : Counted Event) : Counted Event :=
  counter.elim world fun counter => add counter world

/-- The ways through a policy: what runs, in order, what becomes of the counters and whether the
policy succeeds. -/
inductive PolicyRun (graph : PolicyGraph Event) (preEnrichment : Expression Event)
    (enrichment : List (Expression Event))
    (preFilterDiscardCounter postFilterDiscardCounter : Option Counter) :
    Counted Event → Counted Event × Bool → Prop
  | stoppedByPreFilters {event event₁ : Event} {counters : Counter → Nat} :
    Stopped graph .preFiltersTree event event₁ →
    PolicyRun graph preEnrichment enrichment preFilterDiscardCounter postFilterDiscardCounter
      ⟨event, counters⟩ (discard preFilterDiscardCounter ⟨event₁, counters⟩, false)
  | stoppedByPreEnrichment {event event₁ event₂ event₃ : Event} {counters : Counter → Nat} :
    Passed graph .preFiltersTree event event₁ → Decoded graph event₁ event₂ →
    meaning preEnrichment event₂ = (event₃, false) →
    PolicyRun graph preEnrichment enrichment preFilterDiscardCounter postFilterDiscardCounter
      ⟨event, counters⟩ (⟨event₃, counters⟩, false)
  | stoppedByPostFilters {event event₁ event₂ event₃ event₄ : Event} {counters : Counter → Nat} :
    Passed graph .preFiltersTree event event₁ → Decoded graph event₁ event₂ →
    meaning preEnrichment event₂ = (event₃, true) →
    Stopped graph .postFiltersTree (inOrder enrichment event₃) event₄ →
    PolicyRun graph preEnrichment enrichment preFilterDiscardCounter postFilterDiscardCounter
      ⟨event, counters⟩ (discard postFilterDiscardCounter ⟨event₄, counters⟩, false)
  | completed {event event₁ event₂ event₃ event₄ event₅ : Event} {counters : Counter → Nat} :
    Passed graph .preFiltersTree event event₁ → Decoded graph event₁ event₂ →
    meaning preEnrichment event₂ = (event₃, true) →
    Passed graph .postFiltersTree (inOrder enrichment event₃) event₄ → Sent graph event₄ event₅ →
    PolicyRun graph preEnrichment enrichment preFilterDiscardCounter postFilterDiscardCounter
      ⟨event, counters⟩ (⟨event₅, counters⟩, true)

variable {stage : AssetPipelineStage} {event' : Event}

theorem treeExpression_ok {operator : List (Expression Event) → Expression Event}
    {found : Option (Expression Event)}
    (made : treeExpression graph fuel operator stage = .ok found) :
    (graph stage = none ∧ found = none) ∨ ∃ tree e, graph stage = some tree ∧ found = some e ∧
        buildSubgraphExpression operator tree fuel = .ok e := by
  unfold treeExpression at made
  split at made
  · rename_i missing
    cases made
    exact .inl ⟨missing, rfl⟩
  · rename_i tree there
    cases built : buildSubgraphExpression operator tree fuel with
    | error what =>
      rw [built] at made
      cases made
    | ok e =>
      rw [built] at made
      cases made
      exact .inr ⟨tree, e, there, rfl, built⟩

/-- A discard counter changes nothing but the counter, and only when its phase fails. -/
theorem meaning_counted (phaseExpr : Expression (Counted Event)) (counter : Option Counter)
    (name : String) (world : Counted Event) : meaning (counted phaseExpr counter name) world =
      if (meaning phaseExpr world).2 then meaning phaseExpr world
      else (discard counter (meaning phaseExpr world).1, false) := by
  cases outcome : meaning phaseExpr world with
  | mk world' success =>
    cases counter with
    | none => cases success <;> simp [counted, discard, outcome]
    | some counter =>
      cases success <;>
        simp [counted, discard, makeFilterDiscardCounter, meaning, anyOf, outcome]

/-- What a phase does, when there is one. -/
def meaningOf (phase : Option (Expression Event)) (event : Event) : Event × Bool :=
  phase.elim (event, true) fun e => meaning e event

section phases

variable {found : Option (Expression Event)}

theorem passed_iff (made : treeExpression graph fuel .or stage = .ok found) :
    Passed graph stage event event' ↔ meaningOf found event = (event', true) := by
  rcases treeExpression_ok made with ⟨missing, rfl⟩ | ⟨tree, e, there, rfl, built⟩
  · simp [Passed, meaningOf, missing, eq_comm]
  · simp [Passed, meaningOf, there, tried_iff built]

theorem stopped_iff (made : treeExpression graph fuel .or stage = .ok found) :
    Stopped graph stage event event' ↔ meaningOf found event = (event', false) := by
  rcases treeExpression_ok made with ⟨missing, rfl⟩ | ⟨tree, e, there, rfl, built⟩
  · simp [Stopped, meaningOf, missing]
  · simp [Stopped, meaningOf, there, tried_iff built]

/-- Outputs do not fail. -/
theorem sent_iff (made : treeExpression graph fuel .broadcast .outputsTree = .ok found) :
    Sent graph event event' ↔ meaningOf found event = (event', true) := by
  rcases treeExpression_ok made with ⟨missing, rfl⟩ | ⟨tree, e, there, rfl, built⟩
  · simp [Sent, meaningOf, missing, eq_comm]
  · simp [Sent, meaningOf, there, spread_iff built]

theorem outputs_succeed (made : treeExpression graph fuel .broadcast .outputsTree = .ok found)
    (event : Event) : (meaningOf found event).2 = true := by
  rcases treeExpression_ok made with ⟨_, rfl⟩ | ⟨_, e, _, rfl, built⟩
  · rfl
  · obtain ⟨_, _, same⟩ := meaning_spread built event
    simp [meaningOf, same]

end phases

theorem decoded_iff {e : Expression Event} (made : decodersExpr graph fuel = .ok e) :
    Decoded graph event event' ↔ (meaning e event).1 = event' := by
  unfold decodersExpr at made
  split at made
  · cases made
  · rename_i there
    cases status : (meaning e event).2 <;> simp [Decoded, there, tried_iff made, Prod.ext_iff, status]

/-- A tree of filters and what an event goes to that passes it. -/
def gated (counter : Option Counter) (counters : Counter → Nat) (filtered : Event × Bool)
    (next : Event → Event) : Counted Event × Bool :=
  if filtered.2 then (⟨next filtered.1, counters⟩, true)
  else (discard counter ⟨filtered.1, counters⟩, false)

theorem phase1_run {e : Expression (Counted Event)}
    (made : phase1 graph preFilterDiscardCounter fuel = .ok e) :
    ∃ filters decoders, treeExpression graph fuel .or .preFiltersTree = .ok filters ∧
      decodersExpr graph fuel = .ok decoders ∧ ∀ event counters, meaning e ⟨event, counters⟩ =
        gated preFilterDiscardCounter counters (meaningOf filters event) (meaning decoders · |>.1) := by
  obtain ⟨decoders, decodersMade, rest⟩ := Search.bind_ok_iff.mp made
  obtain ⟨filters, filtersMade, rest⟩ := Search.bind_ok_iff.mp rest
  refine ⟨filters, decoders, filtersMade, decodersMade, ?_⟩
  intro event counters
  cases filters with
  | none =>
    cases rest
    simp [gated, meaningOf, meaning, inOrder, meaning_lift]
  | some filters =>
    cases rest
    cases outcome : (meaning filters event).2 <;>
      simp [gated, meaningOf, meaning_counted, meaning, meaning_lift, outcome]

theorem phase3_run {phase : Option (Expression (Counted Event))}
    (made : phase3 graph postFilterDiscardCounter fuel = .ok phase) :
    ∃ filters outputs, treeExpression graph fuel .or .postFiltersTree = .ok filters ∧
      treeExpression graph fuel .broadcast .outputsTree = .ok outputs ∧
      ∀ event counters, meaningOf phase ⟨event, counters⟩ =
        gated postFilterDiscardCounter counters (meaningOf filters event) (meaningOf outputs · |>.1) := by
  obtain ⟨outputs, outputsMade, rest⟩ := Search.bind_ok_iff.mp made
  obtain ⟨filters, filtersMade, rest⟩ := Search.bind_ok_iff.mp rest
  refine ⟨filters, outputs, filtersMade, outputsMade, ?_⟩
  intro event counters
  have sent := outputs_succeed outputsMade
  cases filters with
  | none =>
    cases outputs with
    | none =>
      cases rest
      rfl
    | some outputs =>
      cases rest
      have ends : (meaning outputs event).2 = true := sent event
      simp [gated, meaningOf, meaning_lift, ends]
  | some filters =>
    cases outputs <;> cases rest <;> cases outcome : (meaning filters event).2 <;>
      simp [gated, meaningOf, meaning_counted, meaning, meaning_lift, outcome]

theorem allOf_toList (phase : Option (Expression (Counted Event))) (world : Counted Event) :
    allOf phase.toList world = meaningOf phase world := by
  cases phase with
  | none => rfl
  | some e =>
    simp only [Option.toList_some, allOf, meaningOf, Option.elim_some]
    cases outcome : meaning e world with
    | mk world' success => cases success <;> rfl

theorem buildExpression_ok {enrichmentExpression : Expression Event}
    {policy : Expression (Counted Event)}
    (made : buildExpression graph preFilterDiscardCounter postFilterDiscardCounter fuel preEnrichment
      enrichmentExpression = .ok policy) :
    ∃ first last, phase1 graph preFilterDiscardCounter fuel = .ok first ∧
      phase3 graph postFilterDiscardCounter fuel = .ok last ∧
      policy = .and (first :: lift preEnrichment :: lift enrichmentExpression :: last.toList) := by
  obtain ⟨first, firstMade, rest⟩ := Search.bind_ok_iff.mp made
  obtain ⟨last, lastMade, rest⟩ := Search.bind_ok_iff.mp rest
  refine ⟨first, last, firstMade, lastMade, ?_⟩
  cases last with
  | none =>
    cases rest
    rfl
  | some last =>
    cases rest
    rfl

/-- The phases of a policy in order, as long as none fails. -/
theorem policy_run {policy : Expression (Counted Event)}
    (made : buildExpression graph preFilterDiscardCounter postFilterDiscardCounter fuel preEnrichment
      (.chain enrichment) = .ok policy) (world : Counted Event) (result : Counted Event × Bool) :
    meaning policy world = result ↔ PolicyRun graph preEnrichment enrichment
      preFilterDiscardCounter postFilterDiscardCounter world result := by
  obtain ⟨first, last, firstMade, lastMade, rfl⟩ := buildExpression_ok made
  obtain ⟨preFilters, decoders, preMade, decodersMade, phase1⟩ := phase1_run firstMade
  obtain ⟨postFilters, outputs, postMade, outputsMade, phase3⟩ := phase3_run lastMade
  constructor
  · rintro rfl
    obtain ⟨event, counters⟩ := world
    rw [meaning, allOf, phase1]
    cases filtered : meaningOf preFilters event with
    | mk event₁ accepted =>
      cases accepted with
      | false => exact .stoppedByPreFilters ((stopped_iff preMade).mpr filtered)
      | true =>
        have passed := (passed_iff preMade).mpr filtered
        have decoded := (decoded_iff decodersMade).mpr (Eq.refl (meaning decoders event₁).1)
        simp only [gated, if_true, allOf, meaning_lift]
        cases outcome : meaning preEnrichment (meaning decoders event₁).1 with
        | mk event₃ success =>
          cases success with
          | false => exact .stoppedByPreEnrichment passed decoded outcome
          | true =>
            simp only [if_true, meaning, allOf_toList, phase3]
            cases last : meaningOf postFilters (inOrder enrichment event₃) with
            | mk event₄ accepted =>
              cases accepted with
              | false =>
                exact .stoppedByPostFilters passed decoded outcome ((stopped_iff postMade).mpr last)
              | true =>
                exact .completed passed decoded outcome ((passed_iff postMade).mpr last)
                  ((sent_iff outputsMade).mpr (Prod.ext rfl (outputs_succeed outputsMade event₄)))
  · intro run
    cases run with
    | stoppedByPreFilters stopped =>
      simp [meaning, allOf, phase1, gated, (stopped_iff preMade).mp stopped]
    | stoppedByPreEnrichment passed decoded outcome =>
      simp [meaning, allOf, phase1, gated, meaning_lift, (passed_iff preMade).mp passed,
        (decoded_iff decodersMade).mp decoded, outcome]
    | stoppedByPostFilters passed decoded outcome stopped =>
      simp [meaning, allOf, phase1, gated, meaning_lift, (passed_iff preMade).mp passed,
        (decoded_iff decodersMade).mp decoded, outcome, allOf_toList, phase3,
        (stopped_iff postMade).mp stopped]
    | completed passed decoded outcome accepted sent =>
      simp [meaning, allOf, phase1, gated, meaning_lift, (passed_iff preMade).mp passed,
        (decoded_iff decodersMade).mp decoded, outcome, allOf_toList, phase3,
        (passed_iff postMade).mp accepted, (sent_iff outputsMade).mp sent]

theorem treeExpression_terminates (operator : List (Expression Event) → Expression Event)
    (sound : ∀ tree, graph stage = some tree → tree.Sound) :
    ∃ enough, ∀ fuel ≥ enough, ∃ found, treeExpression graph fuel operator stage = .ok found := by
  unfold treeExpression
  cases there : graph stage with
  | none => exact ⟨0, fun fuel _ => ⟨none, rfl⟩⟩
  | some tree =>
    obtain ⟨enough, builds⟩ := buildSubgraphExpression_terminates operator (sound tree there)
    refine ⟨enough, fun fuel le => ?_⟩
    obtain ⟨e, made⟩ := builds fuel le
    exact ⟨some e, by simp only [made]; rfl⟩

theorem buildExpression_terminates (sound : ∀ stage tree, graph stage = some tree → tree.Sound)
    (decoders : (graph .decodersTree).isSome) (enrichmentExpression : Expression Event) :
    ∃ enough, ∀ fuel ≥ enough, ∃ policy, buildExpression graph preFilterDiscardCounter
      postFilterDiscardCounter fuel preEnrichment enrichmentExpression = .ok policy := by
  obtain ⟨tree, there⟩ := Option.isSome_iff_exists.mp decoders
  obtain ⟨n₁, decoders⟩ := buildSubgraphExpression_terminates .or (sound _ tree there)
  obtain ⟨n₂, preFilters⟩ := treeExpression_terminates .or (sound .preFiltersTree)
  obtain ⟨n₃, outputs⟩ := treeExpression_terminates .broadcast (sound .outputsTree)
  obtain ⟨n₄, postFilters⟩ := treeExpression_terminates .or (sound .postFiltersTree)
  refine ⟨max (max n₁ n₂) (max n₃ n₄), fun fuel le => ?_⟩
  obtain ⟨e, made⟩ := decoders fuel (by omega)
  have made₁ : decodersExpr graph fuel = .ok e := by simp only [decodersExpr, there, made]
  obtain ⟨preFiltersExpr, made₂⟩ := preFilters fuel (by omega)
  obtain ⟨outputsExpr, made₃⟩ := outputs fuel (by omega)
  obtain ⟨postFiltersExpr, made₄⟩ := postFilters fuel (by omega)
  unfold buildExpression phase1 phase3
  rw [made₁, made₂, made₃, made₄]
  cases preFiltersExpr <;> cases outputsExpr <;> cases postFiltersExpr <;> exact ⟨_, rfl⟩

theorem buildStage_sound {assets : BuiltAssets Event}
    {found : Option (Graph (Asset Event))} (made : buildStage assets fuel stage = .ok found) :
    ∀ tree, found = some tree → tree.Sound := by
  rintro tree rfl
  unfold buildStage at made
  split at made
  · cases made
  · rename_i some_asset
    obtain ⟨subgraph, accepted, rest⟩ := Search.bind_ok_iff.mp made
    obtain ⟨states, validated, same⟩ := Search.bind_ok_iff.mp rest
    cases same
    exact sound_of_accepted accepted (by simpa using some_asset) validated

/-- The trees of a graph that `buildGraph` returns are visited to the end. -/
theorem buildGraph_sound {assets : BuiltAssets Event} (made : buildGraph assets fuel = .ok graph) :
    ∀ stage tree, graph stage = some tree → tree.Sound := by
  obtain ⟨preFilters, made₁, rest⟩ := Search.bind_ok_iff.mp made
  obtain ⟨decoders, made₂, rest⟩ := Search.bind_ok_iff.mp rest
  obtain ⟨postFilters, made₃, rest⟩ := Search.bind_ok_iff.mp rest
  obtain ⟨outputs, made₄, same⟩ := Search.bind_ok_iff.mp rest
  cases same
  intro stage
  cases stage with
  | preFiltersTree => exact buildStage_sound made₁
  | decodersTree => exact buildStage_sound made₂
  | postFiltersTree => exact buildStage_sound made₃
  | outputsTree => exact buildStage_sound made₄

/-- **The stages of a policy.** The expression of every policy graph takes an event through the stages
in the way of `PolicyRun`. It is built for every graph with decoders whose trees can be
visited to the end, as those of `buildGraph` can. -/
theorem policy_runs_in_stages (graph : PolicyGraph Event) (preEnrichment : Expression Event)
    (enrichment : List (Expression Event))
    (preFilterDiscardCounter postFilterDiscardCounter : Option Counter) :
    (∀ fuel policy, buildExpression graph preFilterDiscardCounter postFilterDiscardCounter fuel
        preEnrichment (.chain enrichment) = .ok policy →
      ∀ world result, meaning policy world = result ↔ PolicyRun graph preEnrichment enrichment
        preFilterDiscardCounter postFilterDiscardCounter world result) ∧
    ((∀ stage tree, graph stage = some tree → tree.Sound) → (graph .decodersTree).isSome →
      ∃ enough, ∀ fuel ≥ enough, ∃ policy, buildExpression graph preFilterDiscardCounter
        postFilterDiscardCounter fuel preEnrichment (.chain enrichment) = .ok policy) :=
  ⟨fun _ _ made => policy_run made, fun sound decoders => buildExpression_terminates sound decoders _⟩

/-- A policy with a pre-filter that does not accept. -/
def refused : BuiltAssets (List Name)
  | .preFiltersTree => [recorder "filter/none/0" false []]
  | .decodersTree => [recorder "decoder/a/0" true []]
  | .postFiltersTree => []
  | .outputsTree => [recorder "output/file/0" true []]

theorem policy_runs_in_stages_refused : ∃ graph policy, buildGraph refused 3 = .ok graph ∧
      buildExpression graph (some 7) none 1 (.chain []) (.chain []) = .ok policy ∧
      PolicyRun graph (.chain []) [] (some 7) none ⟨[], fun _ => 0⟩ (meaning policy ⟨[], fun _ => 0⟩) ∧
      (meaning policy ⟨[], fun _ => 0⟩).1.event = ["filter/none/0"] ∧
      (meaning policy ⟨[], fun _ => 0⟩).1.counters 7 = 1 :=
  ⟨_, _, rfl, rfl, ((policy_runs_in_stages _ _ _ _ _).1 1 _ rfl _ _).mp rfl, rfl, rfl⟩

end run

end GuardSarm.Policy
