import GuardSarm.Engine.GraphSearch

/-!
# Which assets of a tree are tried

An expression that `buildSubgraphExpression` makes with `Or` tries siblings in
order until one succeeds and goes on with the children of that one: `Walk`.

* `anyOf_walk`: the alternatives of a list of siblings are a walk.
-/

namespace GuardSarm.Policy

open List

open ExprBuilder

variable {W : Type}

section visits

variable {operator : List (Expression W) → Expression W} {subgraph : Graph (Asset W)}
  {Good : Name → Expression W → Prop} {fuel : Nat}

/-- A property of the expression of a node that follows from that of its children. -/
structure Closed (operator : List (Expression W) → Expression W) (subgraph : Graph (Asset W))
    (Good : Name → Expression W → Prop) : Prop where
  leaf : ∀ {name asset}, subgraph.node name = .ok asset → subgraph.childrenOf name = [] →
    Good name asset.expression
  inner : ∀ {name asset operands}, subgraph.node name = .ok asset →
    List.Forall₂ Good (subgraph.childrenOf name) operands →
    Good name (.implication asset.expression (operator operands))

def AllGood (Good : Name → Expression W → Prop) (built : BuiltNodes W) : Prop :=
  ∀ entry ∈ built, Good entry.1 entry.2

/-- The loop over siblings, with the operands that it has already. -/
def visitFrom (operator : List (Expression W) → Expression W) (subgraph : Graph (Asset W))
    (fuel : Nat) (names : List Name) (acc : List (Expression W) × BuiltNodes W) :
    Except Failure (List (Expression W) × BuiltNodes W) :=
  names.foldlM (fun acc child => visit operator subgraph fuel child acc.2 >>= fun found =>
    pure (acc.1 ++ [found.1], found.2)) acc

variable {built : BuiltNodes W} {name : Name} {names : List Name}

theorem visitFrom_cons {acc : List (Expression W)} :
    visitFrom operator subgraph fuel (name :: names) (acc, built) =
      (visit operator subgraph fuel name built >>= fun found =>
        visitFrom operator subgraph fuel names (acc ++ [found.1], found.2)) := by
  unfold visitFrom
  rw [foldlM_cons, bind_assoc]
  rfl

variable {asset : Asset W}

theorem visit_new (absent : built.lookup name = none) (node : subgraph.node name = .ok asset) :
    visit operator subgraph (fuel + 1) name built = ((if subgraph.hasChildren name then
          visitFrom operator subgraph fuel (subgraph.childrenOf name) ([], built) >>= fun found =>
            pure (Expression.implication asset.expression (operator found.1), found.2)
        else pure (asset.expression, built)) >>= fun found =>
          pure (found.1, if 1 < asset.parents.length then found.2 ++ [(name, found.1)]
            else found.2)) := by
  rw [visit, absent]
  simp only [node]
  cases subgraph.hasChildren name with
  | true =>
    simp only [visitFrom, if_true, bind_assoc]
    rfl
  | false => rfl

theorem visitFrom_good
    (one : ∀ {name built result}, visit operator subgraph fuel name built = .ok result →
      AllGood Good built → Good name result.1 ∧ AllGood Good result.2) {acc : List (Expression W)}
    {result : List (Expression W) × BuiltNodes W}
    (h : visitFrom operator subgraph fuel names (acc, built) = .ok result)
    (good : AllGood Good built) :
    (∃ operands, result.1 = acc ++ operands ∧ List.Forall₂ Good names operands) ∧
      AllGood Good result.2 := by
  induction names generalizing acc built with
  | nil =>
    cases h
    exact ⟨⟨[], by simp, .nil⟩, good⟩
  | cons name names ih =>
    rw [visitFrom_cons] at h
    obtain ⟨found, visited, rest⟩ := Search.bind_ok_iff.mp h
    obtain ⟨here, kept⟩ := one visited good
    obtain ⟨⟨operands, same, all⟩, still⟩ := ih rest kept
    exact ⟨⟨found.1 :: operands, by simpa using same, .cons here all⟩, still⟩

/-- What every step of the construction keeps holds of the expression that a visit returns, whether
it was built now or before. -/
theorem visit_good (closed : Closed operator subgraph Good)
    {result : Expression W × BuiltNodes W} (h : visit operator subgraph fuel name built = .ok result)
    (good : AllGood Good built) : Good name result.1 ∧ AllGood Good result.2 := by
  induction fuel generalizing name built result with
  | zero => cases h
  | succ fuel ih =>
    cases known : built.lookup name with
    | some expression =>
      rw [visit, known] at h
      cases h
      obtain ⟨front, back, same, _⟩ := lookup_eq_some_iff.mp known
      exact ⟨good (name, expression) (by simp [same]), good⟩
    | none =>
      cases node : subgraph.node name with
      | error e =>
        rw [visit, known, node] at h
        cases h
      | ok asset =>
        rw [visit_new known node] at h
        obtain ⟨found, made, same⟩ := Search.bind_ok_iff.mp h
        cases same
        have here : Good name found.1 ∧ AllGood Good found.2 := by
          split at made
          · obtain ⟨children, visited, same⟩ := Search.bind_ok_iff.mp made
            cases same
            obtain ⟨⟨operands, same, all⟩, kept⟩ := visitFrom_good ih visited good
            rw [nil_append] at same
            rw [← same] at all
            exact ⟨closed.inner node all, kept⟩
          · rename_i childless
            cases made
            exact ⟨closed.leaf node (by simpa [Graph.hasChildren] using childless), good⟩
        refine ⟨here.1, fun entry mem => ?_⟩
        split at mem
        · rcases mem_append.mp mem with old | new
          · exact here.2 entry old
          · rw [mem_singleton.mp new]
            exact here.1
        · exact here.2 entry mem

theorem buildSubgraphExpression_eq : buildSubgraphExpression operator subgraph fuel =
      (subgraph.children subgraph.root >>= fun names =>
        visitFrom operator subgraph fuel names ([], []) >>= fun found => pure (operator found.1)) :=
  rfl

theorem children_ok (first : subgraph.childrenOf name ≠ []) :
    subgraph.children name = .ok (subgraph.childrenOf name) := by
  unfold Graph.children Graph.childrenOf at *
  cases found : subgraph.edges.lookup name with
  | none => simp [found] at first
  | some names => rfl

theorem buildSubgraphExpression_good (closed : Closed operator subgraph Good) {e : Expression W}
    (h : buildSubgraphExpression operator subgraph fuel = .ok e) :
    ∃ operands, e = operator operands ∧
      List.Forall₂ Good (subgraph.childrenOf subgraph.root) operands := by
  obtain ⟨names, children, rest⟩ := Search.bind_ok_iff.mp h
  obtain ⟨found, visited, same⟩ := Search.bind_ok_iff.mp rest
  cases same
  have listed : subgraph.childrenOf subgraph.root = names := by
    unfold Graph.children at children
    split at children
    · cases children
    · rename_i found
      cases children
      simp [Graph.childrenOf, found]
  have start : AllGood Good [] := fun entry mem => (not_mem_nil mem).elim
  obtain ⟨⟨operands, same, all⟩, _⟩ := visitFrom_good (visit_good closed) visited start
  rw [listed, same]
  exact ⟨operands, rfl, all⟩

/-- Enough fuel for each of the names is enough for all. -/
theorem visitFrom_terminates (each : ∀ name ∈ names, ∃ enough, ∀ fuel ≥ enough, ∀ built, ∃ result,
      visit operator subgraph fuel name built = .ok result) :
    ∃ enough, ∀ fuel ≥ enough, ∀ acc, ∃ result,
      visitFrom operator subgraph fuel names acc = .ok result := by
  induction names with
  | nil => exact ⟨0, fun fuel _ acc => ⟨acc, rfl⟩⟩
  | cons name names ih =>
    obtain ⟨first, here⟩ := each name mem_cons_self
    obtain ⟨others, rest⟩ := ih fun other mem => each other (mem_cons_of_mem _ mem)
    refine ⟨max first others, fun fuel le acc => ?_⟩
    obtain ⟨found, visited⟩ := here fuel (le_trans (le_max_left _ _) le) acc.2
    obtain ⟨result, all⟩ := rest fuel (le_trans (le_max_right _ _) le) (acc.1 ++ [found.1], found.2)
    exact ⟨result, by rw [visitFrom_cons, visited]; exact all⟩

/-- A node without an endless path below it is visited to the end. -/
theorem visit_terminates
    (nodes : ∀ {child parent}, subgraph.Child child parent → subgraph.hasNode child = true)
    (acyclic : Acc subgraph.Child name) (here : subgraph.hasNode name = true) :
    ∃ enough, ∀ fuel ≥ enough, ∀ built, ∃ result,
      visit operator subgraph fuel name built = .ok result := by
  induction acyclic with
  | intro name _ ih =>
    obtain ⟨enough, children⟩ := visitFrom_terminates fun child below => ih child below (nodes below)
    refine ⟨enough + 1, fun fuel le built => ?_⟩
    obtain ⟨fuel, rfl⟩ := Nat.exists_eq_add_of_le' le
    cases known : built.lookup name with
    | some expression => exact ⟨(expression, built), by rw [← Nat.add_assoc, visit, known]⟩
    | none =>
      obtain ⟨asset, found⟩ := Option.isSome_iff_exists.mp here
      have node : subgraph.node name = .ok asset := by rw [Graph.node, found]
      obtain ⟨result, visited⟩ := children (fuel + enough) (Nat.le_add_left _ _) ([], built)
      rw [← Nat.add_assoc, visit_new known node, visited]
      split
      · exact ⟨_, rfl⟩
      · exact ⟨_, rfl⟩

/-- A graph that is visited to the end: its edges lead to nodes, it has no cycle, and the input node
has a child. -/
structure Graph.Sound (subgraph : Graph (Asset W)) : Prop where
  nodes : ∀ {child parent}, subgraph.Child child parent → subgraph.hasNode child = true
  acyclic : ∀ {name}, subgraph.hasNode name = true → Acc subgraph.Child name
  first : subgraph.childrenOf subgraph.root ≠ []

theorem buildSubgraphExpression_terminates (operator : List (Expression W) → Expression W)
    (sound : subgraph.Sound) : ∃ enough, ∀ fuel ≥ enough, ∃ e,
      buildSubgraphExpression operator subgraph fuel = .ok e := by
  have each : ∀ child ∈ subgraph.childrenOf subgraph.root, ∃ enough, ∀ fuel ≥ enough, ∀ built,
      ∃ result, visit operator subgraph fuel child built = .ok result :=
    fun child below =>
      visit_terminates sound.nodes (sound.acyclic (sound.nodes below)) (sound.nodes below)
  obtain ⟨enough, all⟩ := visitFrom_terminates each
  refine ⟨enough, fun fuel le => ?_⟩
  obtain ⟨result, visited⟩ := all fuel le ([], [])
  refine ⟨operator result.1, ?_⟩
  exact Search.bind_ok_iff.mpr
    ⟨_, children_ok sound.first, Search.bind_ok_iff.mpr ⟨result, visited, rfl⟩⟩

end visits

section walk

variable {α : Type} {expression : α → Expression W} {children : α → List α} {xs : List α}
  {w w' : W} {tried : List (α × Bool)}

/-- Siblings are tried in order until one succeeds, and then the children of that one. -/
inductive Walk (expression : α → Expression W) (children : α → List α) :
    List α → W → W → List (α × Bool) → Prop
  | nil {w : W} : Walk expression children [] w w []
  | fails {x : α} {xs : List α} {w w₁ w₂ : W} {tried : List (α × Bool)} :
    meaning (expression x) w = (w₁, false) → Walk expression children xs w₁ w₂ tried →
    Walk expression children (x :: xs) w w₂ ((x, false) :: tried)
  | succeeds {x : α} {xs : List α} {w w₁ w₂ : W} {tried : List (α × Bool)} :
    meaning (expression x) w = (w₁, true) → Walk expression children (children x) w₁ w₂ tried →
    Walk expression children (x :: xs) w w₂ ((x, true) :: tried)

theorem Walk.unique (walk : Walk expression children xs w w' tried) {w'' : W}
    {tried' : List (α × Bool)} (other : Walk expression children xs w w'' tried') :
    w'' = w' ∧ tried' = tried := by
  induction walk generalizing w'' tried' with
  | nil =>
    cases other
    exact ⟨rfl, rfl⟩
  | fails outcome _ ih =>
    cases other with
    | fails outcome' rest =>
      obtain ⟨rfl, _⟩ := Prod.mk.inj (outcome.symm.trans outcome')
      obtain ⟨rfl, rfl⟩ := ih rest
      exact ⟨rfl, rfl⟩
    | succeeds outcome' _ => cases outcome.symm.trans outcome'
  | succeeds outcome _ ih =>
    cases other with
    | fails outcome' _ => cases outcome.symm.trans outcome'
    | succeeds outcome' below =>
      obtain ⟨rfl, _⟩ := Prod.mk.inj (outcome.symm.trans outcome')
      obtain ⟨rfl, rfl⟩ := ih below
      exact ⟨rfl, rfl⟩

/-- The ones that have succeeded, in order. -/
def succeeded (tried : List (α × Bool)) : List α := (tried.filter (·.2)).map Prod.fst

/-- Each one that succeeds is a child of the one before. -/
theorem Walk.chain (walk : Walk expression children xs w w' tried) :
    (∀ x ∈ (succeeded tried).head?, x ∈ xs) ∧
      (succeeded tried).IsChain fun parent child => child ∈ children parent := by
  induction walk with
  | nil => simp [succeeded]
  | fails _ _ ih => exact ⟨fun x first => mem_cons_of_mem _ (ih.1 x first), ih.2⟩
  | @succeeds x xs _ _ _ tried _ _ ih =>
    have here : succeeded ((x, true) :: tried) = x :: succeeded tried := rfl
    refine ⟨fun y first => ?_, isChain_cons.mpr ⟨ih.1, ih.2⟩⟩
    cases first
    exact mem_cons_self

/-- One that is tried is among the first or below one that has succeeded before. -/
theorem Walk.tried_below (walk : Walk expression children xs w w' tried)
    {before after : List (α × Bool)} {x : α} {outcome : Bool}
    (here : tried = before ++ (x, outcome) :: after) :
    x ∈ xs ∨ ∃ parent, (parent, true) ∈ before ∧ x ∈ children parent := by
  induction walk generalizing before with
  | nil => simp at here
  | fails _ _ ih =>
    cases before with
    | nil =>
      cases here
      exact .inl mem_cons_self
    | cons entry before =>
      cases here
      rcases ih rfl with first | ⟨parent, success, below⟩
      · exact .inl (mem_cons_of_mem _ first)
      · exact .inr ⟨parent, mem_cons_of_mem _ success, below⟩
  | @succeeds y ys _ _ _ _ _ _ ih =>
    cases before with
    | nil =>
      cases here
      exact .inl mem_cons_self
    | cons entry before =>
      cases here
      rcases ih rfl with first | ⟨parent, success, below⟩
      · exact .inr ⟨y, mem_cons_self, first⟩
      · exact .inr ⟨parent, mem_cons_of_mem _ success, below⟩

/-- An expression does what its element does and, when that succeeds, walks through the children. -/
def Behaves (expression : α → Expression W) (children : α → List α) (x : α) (e : Expression W) : Prop :=
  ∀ w, ((meaning (expression x) w).2 = false ∧ meaning e w = meaning (expression x) w) ∨
    (meaning (expression x) w).2 = true ∧
      ∃ w' tried, Walk expression children (children x) (meaning (expression x) w).1 w' tried ∧
        meaning e w = (w', true)

variable {es : List (Expression W)}

theorem anyOf_walk
    (behave : List.Forall₂ (Behaves expression children) xs es) (w : W) :
    ∃ w' tried, Walk expression children xs w w' tried ∧ anyOf es w = (w', tried.any (·.2)) := by
  induction behave generalizing w with
  | nil => exact ⟨w, [], .nil, by simp [anyOf]⟩
  | @cons x e xs es here _ ih =>
    rcases here w with ⟨fails, same⟩ | ⟨succeeds, w', tried, walk, same⟩
    · obtain ⟨w', tried, walk, rest⟩ := ih (meaning (expression x) w).1
      refine ⟨w', (x, false) :: tried, .fails (Prod.ext rfl fails) walk, ?_⟩
      rw [anyOf, same, fails]
      simpa using rest
    · refine ⟨w', (x, true) :: tried, .succeeds (Prod.ext rfl succeeds) walk, ?_⟩
      rw [anyOf, same]
      simp

theorem behaves_leaf {x : α} (childless : children x = []) :
    Behaves expression children x (expression x) := by
  intro w
  cases outcome : (meaning (expression x) w).2 with
  | false => exact .inl ⟨rfl, rfl⟩
  | true =>
    refine .inr ⟨rfl, (meaning (expression x) w).1, [], ?_, Prod.ext rfl outcome⟩
    rw [childless]
    exact .nil

theorem behaves_inner {x : α}
    (behave : List.Forall₂ (Behaves expression children) (children x) es) :
    Behaves expression children x (.implication (expression x) (.or es)) := by
  intro w
  cases outcome : (meaning (expression x) w).2 with
  | false => exact .inl ⟨rfl, by simp [meaning, outcome, Prod.ext_iff]⟩
  | true =>
    obtain ⟨w', tried, walk, same⟩ := anyOf_walk behave (meaning (expression x) w).1
    exact .inr ⟨rfl, w', tried, walk, by simp [meaning, outcome, same]⟩

end walk

section occurs

def operandsOf : Expression W → List (Expression W)
  | .term _ _ => []
  | .and operands => operands
  | .or operands => operands
  | .chain operands => operands
  | .broadcast operands => operands
  | .implication left right => [left, right]

/-- An expression has another one as a part. -/
def Occurs (part e : Expression W) : Prop :=
  Relation.ReflTransGen (fun e operand => operand ∈ operandsOf e) e part

/-- All that is below a node occurs in its expression. -/
def HoldsBelow (subgraph : Graph (Asset W)) (name : Name) (e : Expression W) : Prop :=
  ∀ {below asset}, Relation.ReflTransGen (fun parent child => subgraph.Child child parent) name below →
    subgraph.node below = .ok asset → Occurs asset.expression e

theorem occurs_of_below {subgraph : Graph (Asset W)} {parent name below : Name}
    {operands : List (Expression W)}
    (all : List.Forall₂ (HoldsBelow subgraph) (subgraph.childrenOf parent) operands)
    (child : subgraph.Child name parent)
    (path : Relation.ReflTransGen (fun parent child => subgraph.Child child parent) name below)
    (node : subgraph.node below = .ok asset) : Occurs asset.expression (.or operands) := by
  obtain ⟨index, here, rfl⟩ := mem_iff_getElem.mp child
  have there : index < operands.length := all.length_eq ▸ here
  exact .head (getElem_mem there) (all.get here there path node)

theorem holdsBelow_closed {subgraph : Graph (Asset W)} :
    Closed Expression.or subgraph (HoldsBelow subgraph) where
  leaf := by
    intro name asset node childless below other path found
    cases path using Relation.ReflTransGen.head_induction_on with
    | refl =>
      rw [node] at found
      cases found
      exact .refl
    | head child _ _ =>
      rw [Graph.Child, childless] at child
      cases child
  inner := by
    intro name asset operands node all below other path found
    cases path using Relation.ReflTransGen.head_induction_on with
    | refl =>
      rw [node] at found
      cases found
      exact .single mem_cons_self
    | head child path _ =>
      exact .head (mem_cons_of_mem _ mem_cons_self) (occurs_of_below all child path found)

end occurs

section stage

variable {root : Name} {data : SubgraphData W} {g : Graph (Asset W)}

/-- The assets that declare an asset as a parent, in order. -/
def declaredChildren (data : SubgraphData W) (parent : Asset W) : List (Asset W) :=
  data.filter fun asset => asset.parents.contains parent.name

/-- The assets without parents, and those that declare the input node as one. -/
def firstAssets (root : Name) (data : SubgraphData W) : List (Asset W) :=
  data.filter fun asset => asset.parents.isEmpty || asset.parents.contains root

theorem Built.childrenOf_root (built : Built root data g) :
    g.childrenOf g.root = (firstAssets root data).map Asset.name := by
  rw [built.root_eq, built.childrenOf_eq]
  congr 1
  refine filter_congr fun asset _ => ?_
  cases parents : asset.parents with
  | nil => simp [Asset.isUnder, parents]
  | cons parent others => simp [Asset.isUnder, parents]

theorem Built.childrenOf_asset (built : Built root data g) {parent : Asset W} (mem : parent ∈ data) :
    g.childrenOf parent.name = (declaredChildren data parent).map Asset.name := by
  rw [built.childrenOf_eq]
  congr 1
  refine filter_congr fun asset _ => ?_
  cases parents : asset.parents with
  | nil => simp [Asset.isUnder, parents, built.ne_root mem]
  | cons parent others => simp [Asset.isUnder, parents]

/-- The expression of a name behaves as the asset of that name does. -/
def BehavesAs (data : SubgraphData W) (name : Name) (e : Expression W) : Prop :=
  ∀ asset ∈ data, asset.name = name → Behaves Asset.expression (declaredChildren data) asset e

theorem behaves_of_names {assets : List (Asset W)}
    (behave : List.Forall₂ (BehavesAs data) (assets.map Asset.name) es)
    (sub : ∀ asset ∈ assets, asset ∈ data) :
    List.Forall₂ (Behaves Asset.expression (declaredChildren data)) assets es := by
  rw [List.forall₂_map_left_iff] at behave
  induction behave with
  | nil => exact .nil
  | @cons asset e assets es here _ ih =>
    exact .cons (here asset (sub asset mem_cons_self) rfl)
      (ih fun other mem => sub other (mem_cons_of_mem _ mem))

theorem behavesAs_closed (built : Built root data g) : Closed Expression.or g (BehavesAs data) where
  leaf := by
    rintro name asset node childless other mem rfl
    rw [built.node_of_mem mem] at node
    cases node
    rw [built.childrenOf_asset mem, map_eq_nil_iff] at childless
    exact behaves_leaf childless
  inner := by
    rintro name asset operands node all other mem rfl
    rw [built.node_of_mem mem] at node
    cases node
    rw [built.childrenOf_asset mem] at all
    exact behaves_inner (behaves_of_names all fun child below => (mem_filter.mp below).1)

/-- The path down to an asset starts with a child of the input node. -/
theorem first_step {searchFuel : Nat} {label : String} {states : Graph.States}
    (accepted : buildSubgraph root data = .ok g)
    (validated : g.validateAcyclic searchFuel label = .ok states) (mem : asset ∈ data) :
    ∃ first, g.Child first g.root ∧
      Relation.ReflTransGen (fun parent child => g.Child child parent) first asset.name := by
  obtain ⟨built, nodes⟩ := buildSubgraph_built accepted
  have reached := built.reached (fun below => (nodes below).1) (Graph.validateAcyclic_acc validated) mem
  rcases reached.cases_head with same | ⟨first, child, path⟩
  · exact absurd same.symm (built.ne_root mem)
  · exact ⟨first, built.root_eq ▸ child, path⟩

theorem sound_of_accepted {searchFuel : Nat} {label : String} {states : Graph.States}
    (accepted : buildSubgraph root data = .ok g) (some_asset : data ≠ [])
    (validated : g.validateAcyclic searchFuel label = .ok states) : g.Sound := by
  obtain ⟨asset, mem⟩ := exists_mem_of_ne_nil data some_asset
  obtain ⟨first, child, _⟩ := first_step accepted validated mem
  exact ⟨fun below => ((buildSubgraph_built accepted).2 below).2,
    Graph.validateAcyclic_acc validated, ne_nil_of_mem child⟩

/-- An expression of alternatives is a walk from the first assets. -/
theorem Built.walks (built : Built root data g) {fuel : Nat} {e : Expression W}
    (made : buildSubgraphExpression .or g fuel = .ok e) (w : W) :
    ∃ w' tried, Walk Asset.expression (declaredChildren data) (firstAssets root data) w w' tried ∧
      meaning e w = (w', tried.any (·.2)) := by
  obtain ⟨operands, rfl, all⟩ := buildSubgraphExpression_good (behavesAs_closed built) made
  rw [built.childrenOf_root] at all
  have behave := behaves_of_names all fun child below => (mem_filter.mp below).1
  obtain ⟨w', tried, walk, same⟩ := anyOf_walk behave w
  exact ⟨w', tried, walk, by rw [meaning, same]⟩

/-- **One path of the declared tree.** Assets that `buildSubgraph` and `validateAcyclic` accept make
an expression that has every asset as a part. It tries the first assets in order until one succeeds
and goes on with the declared children of that one; who succeeds is a declared parent of the next, and
who is tried has no parent, declares the input node as one, or has a parent that succeeded before. -/
theorem decoders_follow_one_path {searchFuel : Nat} {label : String} {states : Graph.States}
    (accepted : buildSubgraph root data = .ok g) (some_asset : data ≠ [])
    (validated : g.validateAcyclic searchFuel label = .ok states) :
    ∃ enough, ∀ fuel ≥ enough, ∃ e, buildSubgraphExpression .or g fuel = .ok e ∧
      (∀ asset ∈ data, Occurs asset.expression e) ∧
      ∀ w, ∃ w' tried,
        Walk Asset.expression (declaredChildren data) (firstAssets root data) w w' tried ∧
        meaning e w = (w', tried.any (·.2)) ∧
        (succeeded tried).IsChain (fun parent child => parent.name ∈ child.parents) ∧
        ∀ before asset outcome after, tried = before ++ (asset, outcome) :: after →
          asset.parents = [] ∨ root ∈ asset.parents ∨
            ∃ parent, (parent, true) ∈ before ∧ parent.name ∈ asset.parents := by
  obtain ⟨built, _⟩ := buildSubgraph_built accepted
  obtain ⟨enough, builds⟩ :=
    buildSubgraphExpression_terminates .or (sound_of_accepted accepted some_asset validated)
  refine ⟨enough, fun fuel le => ?_⟩
  obtain ⟨e, made⟩ := builds fuel le
  refine ⟨e, made, fun asset mem => ?_, fun w => ?_⟩
  · obtain ⟨operands, rfl, all⟩ := buildSubgraphExpression_good holdsBelow_closed made
    obtain ⟨first, child, path⟩ := first_step accepted validated mem
    exact occurs_of_below all child path (built.node_of_mem mem)
  · obtain ⟨w', tried, walk, same⟩ := built.walks made w
    refine ⟨w', tried, walk, same, ?_, fun before asset outcome after here => ?_⟩
    · refine walk.chain.2.imp fun parent child below => ?_
      simpa using (List.mem_filter.mp below).2
    · rcases walk.tried_below here with first | ⟨parent, success, below⟩
      · have orphan := (List.mem_filter.mp first).2
        simp only [Bool.or_eq_true, List.isEmpty_iff, List.contains_iff_mem] at orphan
        exact or_assoc.mp (.inl orphan)
      · exact .inr (.inr ⟨parent, success, by simpa using (List.mem_filter.mp below).2⟩)

/-- An asset that writes its name down. -/
def recorder (name : Name) (outcome : Bool) (parents : List Name) : Asset (List Name) :=
  ⟨name, .term name fun log => .ok ⟨log ++ [name], none, outcome⟩, .chain [], parents⟩

/-- Two decoders and one that declares both as its parents. -/
def sharedChild : SubgraphData (List Name) :=
  [recorder "decoder/a/0" false [], recorder "decoder/b/0" true [],
    recorder "decoder/c/0" true ["decoder/a/0", "decoder/b/0"]]

theorem decoders_follow_one_path_shared :
    ∃ enough, ∀ fuel ≥ enough, ∃ g e, buildSubgraph "DecodersTree/Input" sharedChild = .ok g ∧
      buildSubgraphExpression .or g fuel = .ok e ∧
      ∀ asset ∈ sharedChild, Occurs asset.expression e := by
  obtain ⟨enough, builds⟩ := @decoders_follow_one_path (List Name) "DecodersTree/Input" sharedChild
    ((buildSubgraph "DecodersTree/Input" sharedChild).toOption.getD ⟨"", [], []⟩) 4 "DecodersTree" _
    rfl (cons_ne_nil _ _) rfl
  refine ⟨enough, fun fuel le => ?_⟩
  obtain ⟨e, made, occurs, _⟩ := builds fuel le
  exact ⟨_, e, rfl, made, occurs⟩

/-- Nothing is built of no assets, and an asset that declares the input node as its parent is tried
before any asset has succeeded. -/
theorem input_node_as_parent :
    (∃ g : Graph (Asset (List Name)), buildSubgraph "DecodersTree/Input" [] = .ok g ∧
      (∃ states, g.validateAcyclic 1 "DecodersTree" = .ok states) ∧
      ∀ fuel, buildSubgraphExpression .or g fuel =
        .error (.raised "Engine base graph: Node \"DecodersTree/Input\" has no children.")) ∧
    ∃ g e, buildSubgraph "DecodersTree/Input"
        [recorder "decoder/a/0" true ["DecodersTree/Input"]] = .ok g ∧
      (∃ states, g.validateAcyclic 2 "DecodersTree" = .ok states) ∧
      buildSubgraphExpression .or g 1 = .ok e ∧ meaning e [] = (["decoder/a/0"], true) :=
  ⟨⟨_, rfl, ⟨_, rfl⟩, fun _ => rfl⟩, ⟨_, _, rfl, ⟨_, rfl⟩, rfl, rfl⟩⟩

end stage

end GuardSarm.Policy
