import GuardSarm.Engine.ExprMeaning

/-!
# Policy graphs

`base/graph.hpp` and the functions of `policy/factory` that make a graph of
the assets of a stage and an expression of the graph. Maps are lists in the
order of insertion. The depth-first searches of the source recurse until they
have reached every node, here for as long as the fuel lasts.
-/

namespace GuardSarm.Policy

open ExprBuilder

variable {W : Type}

abbrev Name := String

inductive Failure where
  | raised (what : String)
  | outOfFuel
  deriving DecidableEq

structure Graph (T : Type) where
  root : Name
  nodes : List (Name × T)
  edges : List (Name × List Name)

namespace Graph

variable {T : Type} (g : Graph T)

def hasNode (id : Name) : Bool := (g.nodes.lookup id).isSome

def addNode (id : Name) (value : T) : Except Failure (Graph T) :=
  if g.hasNode id then .error (.raised s!"Engine base graph: Node \"{id}\" already exists.")
  else .ok { g with nodes := g.nodes ++ [(id, value)] }

/-- The edges that lead from a node. -/
def childrenOf (id : Name) : List Name := (g.edges.lookup id).getD []

def addEdge (origin target : Name) : Except Failure (Graph T) :=
  match g.edges.lookup origin with
  | none => .ok { g with edges := g.edges ++ [(origin, [target])] }
  | some children =>
    if target ∈ children then
      .error (.raised s!"Engine base graph: Edge \"{origin}\" -> \"{target}\" already exists.")
    else .ok { g with edges := g.edges.map fun entry =>
      if entry.1 = origin then (origin, entry.2 ++ [target]) else entry }

def node (id : Name) : Except Failure T :=
  match g.nodes.lookup id with
  | none => .error (.raised s!"Engine base graph: Node \"{id}\" does not exist.")
  | some value => .ok value

def children (id : Name) : Except Failure (List Name) :=
  match g.edges.lookup id with
  | none => .error (.raised s!"Engine base graph: Node \"{id}\" has no children.")
  | some children => .ok children

def hasChildren (id : Name) : Bool := !(g.childrenOf id).isEmpty

inductive VisitState where
  | notVisited | visiting | visited
  deriving DecidableEq

abbrev States := Name → VisitState

def detectCycle (label : String) : Nat → Name → List Name → States → Except Failure States
  | 0, _, _, _ => .error .outOfFuel
  | fuel + 1, node, stack, states =>
    match states node with
    | .visiting =>
      let cycle := " -> ".intercalate (stack.dropWhile (· != node) ++ [node])
      .error (.raised s!"Circular {label} reference detected: {cycle}")
    | .visited => .ok states
    | .notVisited => do
      let states := Function.update states node .visiting
      let states ← (g.childrenOf node).foldlM
        (fun states child => detectCycle label fuel child (stack ++ [node]) states) states
      return Function.update states node .visited

def validateAcyclic (fuel : Nat) (label : String) : Except Failure States :=
  g.nodes.foldlM (fun states entry =>
    if states entry.1 = .visited then .ok states else g.detectCycle label fuel entry.1 [] states)
    fun _ => .notVisited

end Graph

/-- An asset. `AssetBuilder` makes its expression an implication of its condition and the rest of its
stages. -/
structure Asset (W : Type) where
  name : Name
  condition : Expression W
  consequence : Expression W
  parents : List Name

def Asset.expression (asset : Asset W) : Expression W :=
  .implication asset.condition asset.consequence

/-- `Asset {}`, the value of the root. No search comes to its expression. -/
def Asset.none : Asset W := ⟨"", .and [], .and [], []⟩

/-- The assets of a stage in the order of `orderedAssets`; the map has each under its name. -/
abbrev SubgraphData (W : Type) := List (Asset W)

/-- The loop of `buildSubgraph` for an asset. -/
def addAsset (subgraph : Graph (Asset W)) (asset : Asset W) : Except Failure (Graph (Asset W)) := do
  let subgraph ← subgraph.addNode asset.name asset
  if asset.parents.isEmpty then subgraph.addEdge subgraph.root asset.name
  else asset.parents.foldlM (fun subgraph parent => subgraph.addEdge parent asset.name) subgraph

/-- The check of the integrity for the edges from a parent. -/
def checkEdges (subgraph : Graph (Asset W)) : Name × List Name → Except Failure Unit
  | (parent, children) =>
    let childrenNames := "[" ++ ", ".intercalate children ++ "]"
    if !subgraph.hasNode parent then
      .error (.raised s!"Parent '{parent}' does not exist, required by {childrenNames}")
    else children.forM fun child =>
      if !subgraph.hasNode child then
        .error (.raised s!"Child '{child}' does not exist, required by {parent}")
      else .ok ()

def buildSubgraph (subgraphName : Name) (assetsData : SubgraphData W) :
    Except Failure (Graph (Asset W)) := do
  let subgraph ← assetsData.foldlM addAsset ⟨subgraphName, [(subgraphName, .none)], []⟩
  subgraph.edges.forM (checkEdges subgraph)
  return subgraph

def isOperation : Expression W → Bool
  | .term _ _ => false
  | _ => true

section expression

-- `ChildOperator::create`
variable (operator : List (Expression W) → Expression W) (subgraph : Graph (Asset W))

/-- `builtNodes`. -/
abbrev BuiltNodes (W : Type) := List (Name × Expression W)

def visit : Nat → Name → BuiltNodes W → Except Failure (Expression W × BuiltNodes W)
  | 0, _, _ => .error .outOfFuel
  | fuel + 1, current, builtNodes =>
    match builtNodes.lookup current with
    | some assetNode => .ok (assetNode, builtNodes)
    | none => do
      let asset ← subgraph.node current
      let (assetNode, builtNodes) ←
        if subgraph.hasChildren current then do
          let (operands, builtNodes) ← (subgraph.childrenOf current).foldlM
            (fun (operands, builtNodes) child => do
              let (operand, builtNodes) ← visit fuel child builtNodes
              return (operands ++ [operand], builtNodes))
            ([], builtNodes)
          pure (Expression.implication asset.expression (operator operands), builtNodes)
        else if isOperation asset.expression then pure (asset.expression, builtNodes)
        else throw (.raised "Engine base expression: Error trying to downcast")
      return (assetNode, if 1 < asset.parents.length then builtNodes ++ [(current, assetNode)]
        else builtNodes)

def visitAll (fuel : Nat) (names : List Name) (builtNodes : BuiltNodes W) :
    Except Failure (List (Expression W) × BuiltNodes W) :=
  names.foldlM (fun (operands, builtNodes) child => do
    let (operand, builtNodes) ← visit operator subgraph fuel child builtNodes
    return (operands ++ [operand], builtNodes)) ([], builtNodes)

def buildSubgraphExpression (fuel : Nat) : Except Failure (Expression W) := do
  let (operands, _) ← visitAll operator subgraph fuel (← subgraph.children subgraph.root) []
  return operator operands

end expression

end GuardSarm.Policy
