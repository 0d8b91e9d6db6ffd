import GuardSarm.Lib.Search
import GuardSarm.Engine.PolicyGraph

/-!
# The graph that the assets of a stage make

* `validateAcyclic_acc`: in a graph that passes `validateAcyclic` no path down
  from a node goes on for ever.
-/

namespace GuardSarm.Policy

section reach

variable {α : Type}

theorem acc_irrefl {r : α → α → Prop} {a : α} (h : Acc r a) : ¬r a a := by
  induction h with
  | intro a _ ih => exact fun loop => ih a loop loop

/-- Going up from a node of a finite graph without cycles ends at a node without a parent. -/
theorem reached_of_acc {child : α → α → Prop} {nodes : List α} {root : α}
    (acyclic : ∀ n ∈ nodes, Acc child n)
    (up : ∀ n ∈ nodes, n = root ∨ ∃ p ∈ nodes, child n p) {n : α} (mem : n ∈ nodes) :
    Relation.ReflTransGen (fun p c => child c p) root n := by
  let above : {n // n ∈ nodes} → {n // n ∈ nodes} → Prop :=
    fun p c => Relation.TransGen child c.1 p.1
  have transitive : IsTrans _ above := ⟨fun _ _ _ first second => second.trans first⟩
  have irreflexive : Std.Irrefl above := ⟨fun p loop => acc_irrefl (acyclic p.1 p.2).transGen loop⟩
  have finite : Finite {n // n ∈ nodes} := List.finite_toSet nodes
  have grounded : WellFounded above := Finite.wellFounded_of_trans_of_irrefl above
  suffices ∀ n : {n // n ∈ nodes}, Relation.ReflTransGen (fun p c => child c p) root n.1 from
    this ⟨n, mem⟩
  intro n
  induction n using grounded.induction with
  | _ n ih =>
    rcases up n.1 n.2 with same | ⟨p, memP, below⟩
    · rw [same]
    · exact (ih ⟨p, memP⟩ (.single below)).tail below

end reach

namespace Graph

variable {T : Type} {g : Graph T}

/-- The nodes below a node. -/
def Child (g : Graph T) (child parent : Name) : Prop := child ∈ g.childrenOf parent

/-- What the search knows of the nodes that it has left. -/
def LeftAcyclic (g : Graph T) (states : States) : Prop :=
  ∀ n, states n = .visited → Acc g.Child n

/-- A search keeps what is visited and leaves the names it was asked for visited. -/
structure Searched (g : Graph T) (states : States) (names : List Name) (states' : States) : Prop where
  acyclic : g.LeftAcyclic states'
  visited : ∀ n ∈ names, states' n = .visited
  keeps : ∀ n, states n = .visited → states' n = .visited

theorem searched_all {search : Name → States → Except Failure States}
    (one : ∀ {name states states'}, search name states = .ok states' → g.LeftAcyclic states →
      g.Searched states [name] states') {names : List Name} {states states' : States}
    (h : names.foldlM (fun states name => search name states) states = .ok states')
    (acyclic : g.LeftAcyclic states) : g.Searched states names states' := by
  induction names generalizing states with
  | nil =>
    cases h
    exact ⟨acyclic, fun n mem => (List.not_mem_nil mem).elim, fun _ => id⟩
  | cons name names ih =>
    rw [List.foldlM_cons] at h
    obtain ⟨middle, first, rest⟩ := Search.bind_ok_iff.mp h
    have head := one first acyclic
    have tail := ih rest head.acyclic
    refine ⟨tail.acyclic, fun n mem => ?_, fun n seen => tail.keeps n (head.keeps n seen)⟩
    rcases List.mem_cons.mp mem with rfl | mem
    · exact tail.keeps _ (head.visited _ List.mem_cons_self)
    · exact tail.visited n mem

theorem detectCycle_searched {label : String} {fuel : Nat} {node : Name} {stack : List Name}
    {states states' : States} (h : g.detectCycle label fuel node stack states = .ok states')
    (acyclic : g.LeftAcyclic states) : g.Searched states [node] states' := by
  induction fuel generalizing node stack states states' with
  | zero => cases h
  | succ fuel ih =>
    rw [detectCycle] at h
    cases state : states node with
    | visiting => simp [state] at h
    | visited =>
      rw [state] at h
      cases h
      exact ⟨acyclic, by simpa using state, fun _ => id⟩
    | notVisited =>
      simp only [state] at h
      obtain ⟨middle, search, same⟩ := Search.bind_ok_iff.mp h
      cases same
      have ne_node : ∀ {n}, states n = .visited → n ≠ node := by
        rintro n seen rfl
        rw [state] at seen
        cases seen
      have started : g.LeftAcyclic (Function.update states node .visiting) := by
        intro n seen
        by_cases here : n = node
        · rw [here, Function.update_self] at seen
          cases seen
        · rw [Function.update_of_ne here] at seen
          exact acyclic n seen
      have children := searched_all (fun found left => ih found left) search started
      have here : Acc g.Child node :=
        ⟨_, fun child below => children.acyclic child (children.visited child below)⟩
      refine ⟨fun n seen => ?_, by simp, fun n seen => ?_⟩
      · by_cases same : n = node
        · rw [same]
          exact here
        · rw [Function.update_of_ne same] at seen
          exact children.acyclic n seen
      · rw [Function.update_of_ne (ne_node seen)]
        apply children.keeps
        rw [Function.update_of_ne (ne_node seen)]
        exact seen

variable {name : Name}

theorem hasNode_iff : g.hasNode name = true ↔ name ∈ g.nodes.map Prod.fst := by
  simp [hasNode]

theorem validateAcyclic_acc {label : String} {fuel : Nat} {states : States}
    (h : g.validateAcyclic fuel label = .ok states) (node : g.hasNode name = true) :
    Acc g.Child name := by
  have search : (g.nodes.map Prod.fst).foldlM (fun states name =>
      if states name = .visited then .ok states else g.detectCycle label fuel name [] states)
      (fun _ => .notVisited) = .ok states := by
    rw [List.foldlM_map]
    exact h
  have all := searched_all (g := g) (fun {name before after} found acyclic => by
    split at found
    · cases found
      exact ⟨acyclic, by simpa, fun _ => id⟩
    · exact detectCycle_searched found acyclic) search (fun n seen => by cases seen)
  exact all.acyclic name (all.visited name (hasNode_iff.mp node))

section edges

variable {g' : Graph T} {origin target : Name}

theorem lookup_map_update {edges : List (Name × List Name)} :
    (edges.map fun entry => if entry.1 = origin then (origin, entry.2 ++ [target]) else entry).lookup
      name = (edges.lookup name).map (· ++ if name = origin then [target] else []) := by
  induction edges with
  | nil => rfl
  | cons entry edges ih =>
    obtain ⟨key, names⟩ := entry
    rw [List.map_cons, List.lookup_cons, List.lookup_cons]
    by_cases there : key = origin
    · by_cases here : name = key
      · simp [there, here]
      · have other : (name == origin) = false := by simpa [← there] using here
        simp only [there, if_true, other]
        exact ih
    · by_cases here : name = key
      · simp [there, here]
      · have other : (name == key) = false := by simpa using here
        simp only [there, if_false, other]
        exact ih

/-- What an edge changes. -/
structure Joined (g : Graph T) (origins : List Name) (target : Name) (g' : Graph T) : Prop where
  root_eq : g'.root = g.root
  nodes_eq : g'.nodes = g.nodes
  fresh : ∀ origin ∈ origins, target ∉ g.childrenOf origin
  childrenOf_eq : ∀ name, g'.childrenOf name =
    g.childrenOf name ++ if name ∈ origins then [target] else []

theorem addEdge_joined (h : g.addEdge origin target = .ok g') : g.Joined [origin] target g' := by
  unfold addEdge at h
  split at h
  · rename_i missing
    cases h
    refine ⟨rfl, rfl, by simp [childrenOf, missing], fun name => ?_⟩
    by_cases here : name = origin
    · simp [childrenOf, here, missing, List.lookup_append]
    · have other : (name == origin) = false := by simpa using here
      simp [childrenOf, here, other, List.lookup_append, List.lookup_cons]
  · rename_i names found
    split at h
    · cases h
    · rename_i fresh
      cases h
      refine ⟨rfl, rfl, by simpa [childrenOf, found] using fresh, fun name => ?_⟩
      simp only [childrenOf, lookup_map_update]
      by_cases here : name = origin
      · simp [here, found]
      · simp [here]

theorem addEdges_joined {origins : List Name}
    (h : origins.foldlM (fun g origin => g.addEdge origin target) g = .ok g') :
    g.Joined origins target g' := by
  induction origins generalizing g with
  | nil =>
    cases h
    exact ⟨rfl, rfl, by simp, by simp⟩
  | cons origin origins ih =>
    rw [List.foldlM_cons] at h
    obtain ⟨middle, first, rest⟩ := Search.bind_ok_iff.mp h
    have head := addEdge_joined first
    have tail := ih rest
    have added := head.childrenOf_eq
    simp only [List.mem_singleton] at added
    -- a parent listed twice would make an edge that exists already
    have once : origin ∉ origins := by
      intro again
      have fresh := tail.fresh origin again
      rw [added origin, if_pos rfl] at fresh
      exact fresh (List.mem_append_right _ List.mem_cons_self)
    refine ⟨tail.root_eq.trans head.root_eq, tail.nodes_eq.trans head.nodes_eq, ?_, fun name => ?_⟩
    · intro o mem
      rcases List.mem_cons.mp mem with rfl | mem
      · exact head.fresh o List.mem_cons_self
      · have fresh := tail.fresh o mem
        rw [added o] at fresh
        exact fun old => fresh (List.mem_append_left _ old)
    · rw [tail.childrenOf_eq, added]
      by_cases here : name = origin
      · simp [here, once]
      · simp [here]

end edges

end Graph

section build

variable {W : Type} {root : Name} {data : SubgraphData W} {g g' : Graph (Asset W)}

/-- Whether an asset is below a node: an asset without parents is below the input node. -/
def Asset.isUnder (root parent : Name) (asset : Asset W) : Bool :=
  if asset.parents.isEmpty then parent == root else asset.parents.contains parent

structure Built (root : Name) (data : SubgraphData W) (g : Graph (Asset W)) : Prop where
  root_eq : g.root = root
  nodes_eq : g.nodes = (root, .none) :: data.map fun asset => (asset.name, asset)
  childrenOf_eq : ∀ name, g.childrenOf name = (data.filter (·.isUnder root name)).map Asset.name
  distinct : (root :: data.map Asset.name).Nodup

theorem lookup_of_mem {β : Type} {l : List (Name × β)} {value : β}
    (distinct : (l.map Prod.fst).Nodup) (mem : (name, value) ∈ l) : l.lookup name = some value := by
  induction l with
  | nil => cases mem
  | cons entry l ih =>
    obtain ⟨fresh, rest⟩ := List.nodup_cons.mp distinct
    rcases List.mem_cons.mp mem with rfl | mem
    · simp
    · have other : (name == entry.1) = false := by
        rw [beq_eq_false_iff_ne]
        rintro rfl
        exact fresh (List.mem_map.mpr ⟨_, mem, rfl⟩)
      rw [List.lookup_cons, other]
      exact ih rest mem

theorem Built.names (built : Built root data g) :
    g.nodes.map Prod.fst = root :: data.map Asset.name := by
  simp [built.nodes_eq, Function.comp_def]

variable {asset : Asset W}

theorem addNode_ok (h : g.addNode asset.name asset = .ok g') :
    asset.name ∉ g.nodes.map Prod.fst ∧
      g' = { g with nodes := g.nodes ++ [(asset.name, asset)] } := by
  unfold Graph.addNode at h
  split at h
  · cases h
  · rename_i absent
    cases h
    exact ⟨fun mem => absent (Graph.hasNode_iff.mpr mem), rfl⟩

theorem addAsset_built (h : addAsset g asset = .ok g') (built : Built root data g) :
    Built root (data ++ [asset]) g' := by
  obtain ⟨middle, node, edges⟩ := Search.bind_ok_iff.mp h
  obtain ⟨fresh, rfl⟩ := addNode_ok node
  have joined : Graph.Joined { g with nodes := g.nodes ++ [(asset.name, asset)] }
      (if asset.parents.isEmpty then [root] else asset.parents) asset.name g' := by
    split at edges
    · rename_i orphan
      rw [if_pos orphan, ← built.root_eq]
      exact Graph.addEdge_joined edges
    · rename_i parents
      rw [if_neg parents]
      exact Graph.addEdges_joined edges
  refine ⟨joined.root_eq.trans built.root_eq, ?_, fun name => ?_, ?_⟩
  · rw [joined.nodes_eq, built.nodes_eq]
    simp
  · have same : Graph.childrenOf { g with nodes := g.nodes ++ [(asset.name, asset)] } name =
        g.childrenOf name := rfl
    rw [joined.childrenOf_eq, same, built.childrenOf_eq, List.filter_append, List.map_append]
    by_cases orphan : asset.parents = []
    · by_cases here : name = root
      · simp [Asset.isUnder, orphan, here]
      · simp [Asset.isUnder, orphan, here]
    · by_cases here : name ∈ asset.parents
      · simp [Asset.isUnder, orphan, here]
      · simp [Asset.isUnder, orphan, here]
  · rw [built.names] at fresh
    have apart : (root :: data.map Asset.name ++ [asset.name]).Nodup :=
      List.nodup_append.mpr ⟨built.distinct, List.nodup_singleton _, by
        rintro name mem _ single rfl
        rw [List.mem_singleton.mp single] at mem
        exact fresh mem⟩
    simpa using apart

theorem addAssets_built {assets : List (Asset W)} (h : assets.foldlM addAsset g = .ok g')
    (built : Built root data g) : Built root (data ++ assets) g' := by
  induction assets generalizing g data with
  | nil =>
    cases h
    simpa using built
  | cons asset assets ih =>
    rw [List.foldlM_cons] at h
    obtain ⟨middle, first, rest⟩ := Search.bind_ok_iff.mp h
    simpa using ih rest (addAsset_built first built)

theorem forM_ok {α ε : Type} {check : α → Except ε Unit} {l : List α} (h : l.forM check = .ok ()) :
    ∀ a ∈ l, check a = .ok () := by
  induction l with
  | nil => exact fun a mem => (List.not_mem_nil mem).elim
  | cons a l ih =>
    obtain ⟨_, head, tail⟩ := Search.bind_ok_iff.mp h
    intro b mem
    rcases List.mem_cons.mp mem with rfl | mem
    · exact head
    · exact ih tail b mem

theorem checkEdges_ok {parent : Name} {children : List Name}
    (h : checkEdges g (parent, children) = .ok ()) :
    g.hasNode parent = true ∧ ∀ child ∈ children, g.hasNode child = true := by
  rw [checkEdges] at h
  split at h
  · cases h
  · rename_i present
    refine ⟨by simpa using present, fun child mem => ?_⟩
    have checked := forM_ok h child mem
    split at checked
    · cases checked
    · rename_i there
      simpa using there

/-- The graph that `buildSubgraph` accepts, with its edges between its nodes. -/
theorem buildSubgraph_built (h : buildSubgraph root data = .ok g) : Built root data g ∧
      ∀ {child parent}, g.Child child parent → g.hasNode parent = true ∧ g.hasNode child = true := by
  obtain ⟨subgraph, added, rest⟩ := Search.bind_ok_iff.mp h
  obtain ⟨_, checked, same⟩ := Search.bind_ok_iff.mp rest
  cases same
  have start : Built root ([] : SubgraphData W) ⟨root, [(root, .none)], []⟩ :=
    ⟨rfl, rfl, fun _ => rfl, by simp⟩
  refine ⟨by simpa using addAssets_built added start, fun {child parent} below => ?_⟩
  unfold Graph.Child Graph.childrenOf at below
  cases found : g.edges.lookup parent with
  | none => simp [found] at below
  | some children =>
    obtain ⟨front, back, same, _⟩ := List.lookup_eq_some_iff.mp found
    have mem : (parent, children) ∈ g.edges := by simp [same]
    have both := checkEdges_ok (forM_ok checked _ mem)
    exact ⟨both.1, both.2 child (by simpa [found] using below)⟩

theorem Built.node_of_mem (built : Built root data g) (mem : asset ∈ data) :
    g.node asset.name = .ok asset := by
  have distinct : (g.nodes.map Prod.fst).Nodup := built.names ▸ built.distinct
  have entry : (asset.name, asset) ∈ g.nodes := by
    rw [built.nodes_eq]
    exact List.mem_cons_of_mem _ (List.mem_map.mpr ⟨asset, mem, rfl⟩)
  rw [Graph.node, lookup_of_mem distinct entry]

theorem Built.ne_root (built : Built root data g) (mem : asset ∈ data) : asset.name ≠ root := by
  intro same
  exact (List.nodup_cons.mp built.distinct).1 (List.mem_map.mpr ⟨asset, mem, same⟩)

/-- Without cycles every asset is below the input node. -/
theorem Built.reached (built : Built root data g)
    (nodes : ∀ {child parent}, g.Child child parent → g.hasNode parent = true)
    (acyclic : ∀ {name}, g.hasNode name = true → Acc g.Child name)
    (mem : asset ∈ data) : Relation.ReflTransGen (fun parent child => g.Child child parent) root
      asset.name := by
  have listed : ∀ {name}, name ∈ root :: data.map Asset.name ↔ g.hasNode name = true := by
    intro name
    rw [← built.names, Graph.hasNode_iff]
  refine reached_of_acc (fun name there => acyclic (listed.mp there)) (fun name there => ?_)
    (List.mem_cons_of_mem _ (List.mem_map.mpr ⟨asset, mem, rfl⟩))
  rcases List.mem_cons.mp there with same | there
  · exact .inl same
  · obtain ⟨other, memOther, rfl⟩ := List.mem_map.mp there
    obtain ⟨parent, under⟩ : ∃ parent, other.isUnder root parent = true := by
      cases parents : other.parents with
      | nil => exact ⟨root, by simp [Asset.isUnder, parents]⟩
      | cons parent others => exact ⟨parent, by simp [Asset.isUnder, parents]⟩
    have below : g.Child other.name parent := by
      unfold Graph.Child
      rw [built.childrenOf_eq]
      exact List.mem_map.mpr ⟨other, List.mem_filter.mpr ⟨memOther, under⟩, rfl⟩
    exact .inr ⟨parent, listed.mpr (nodes below), below⟩

end build

end GuardSarm.Policy
