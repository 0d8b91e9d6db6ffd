import GuardSarm.Engine.GraphSearch

/-!
# Cycle detection

`validateAcyclic` colours the names of a graph. The names that are being
visited are those of the stack, and the stack is a path of edges from a node
to the name at hand.
-/

namespace GuardSarm.Policy.Graph

open List

variable {T : Type} {g : Graph T} {label : String}

/-- An edge from a name. -/
abbrev Edge (g : Graph T) (parent child : Name) : Prop := g.Child child parent

/-- A node of the graph is the name or leads to it. -/
def FromNode (g : Graph T) (name : Name) : Prop :=
  ∃ node, g.hasNode node = true ∧ Relation.ReflTransGen g.Edge node name

/-- A path of edges from a name back to itself. -/
def IsCycle (g : Graph T) (names : List Name) : Prop :=
  ∃ name between, names = name :: between ++ [name] ∧ names.IsChain g.Edge ∧ g.FromNode name

def cycleMessage (label : String) (names : List Name) : String :=
  let cycle := " -> ".intercalate names
  s!"Circular {label} reference detected: {cycle}"

def names (g : Graph T) : List Name := g.nodes.map Prod.fst ++ g.edges.flatMap Prod.snd

theorem mem_names_of_child {child parent : Name} (below : g.Child child parent) :
    child ∈ g.names := by
  unfold Child childrenOf at below
  cases found : g.edges.lookup parent with
  | none => simp [found] at below
  | some children =>
    obtain ⟨front, back, same, _⟩ := lookup_eq_some_iff.mp found
    rw [found] at below
    refine mem_append_right _ (mem_flatMap.mpr ⟨(parent, children), ?_, below⟩)
    simp [same]

/-- The names being visited are those of the stack, each once. -/
structure OnStack (g : Graph T) (stack : List Name) (states : States) : Prop where
  visiting : ∀ n, states n = .visiting ↔ n ∈ stack
  distinct : stack.Nodup
  known : ∀ n ∈ stack, n ∈ g.names

/-- A search returns as it found the stack, or it has found a cycle. -/
def Outcome (g : Graph T) (label : String) (stack : List Name) : Except Failure States → Prop
  | .ok states => g.OnStack stack states
  | .error failure => ∃ cycle, g.IsCycle cycle ∧ failure = .raised (cycleMessage label cycle)

variable {stack : List Name}

theorem outcome_foldlM {α : Type} {search : States → α → Except Failure States} {items : List α}
    (one : ∀ item ∈ items, ∀ {states}, g.OnStack stack states →
      g.Outcome label stack (search states item))
    {states : States} (start : g.OnStack stack states) :
    g.Outcome label stack (items.foldlM search states) := by
  induction items generalizing states with
  | nil => exact start
  | cons item items ih =>
    have head := one item mem_cons_self start
    rw [foldlM_cons]
    cases result : search states item with
    | error failure =>
      rw [result] at head
      exact head
    | ok middle =>
      rw [result] at head
      exact ih (fun item member => one item (mem_cons_of_mem _ member)) head

theorem isCycle_of_onStack {node : Name} (onStack : node ∈ stack)
    (path : (stack ++ [node]).IsChain g.Edge) (reached : g.FromNode node) :
    g.IsCycle (stack.dropWhile (· != node) ++ [node]) := by
  obtain ⟨before, between, rfl, first⟩ := eq_append_cons_of_mem onStack
  have cut : (before ++ node :: between).dropWhile (· != node) = node :: between := by
    rw [dropWhile_append_of_pos]
    · simp
    · exact fun n member => bne_iff_ne.mpr fun same => first (same ▸ member)
  rw [cut]
  rw [append_assoc] at path
  exact ⟨node, between, rfl, path.right_of_append, reached⟩

/-- **A search returns as it found the stack or finds a cycle**, with fuel for one call more than
there are names off the stack. -/
theorem detectCycle_outcome {fuel : Nat} {node : Name} {states : States}
    (onStack : g.OnStack stack states) (path : (stack ++ [node]).IsChain g.Edge)
    (reached : g.FromNode node) (known : node ∈ g.names)
    (enough : g.names.length < fuel + stack.length) :
    g.Outcome label stack (g.detectCycle label fuel node stack states) := by
  induction fuel generalizing node stack states with
  | zero =>
    -- a stack of distinct names is no longer than all names
    have short := (onStack.distinct.subperm onStack.known).length_le
    omega
  | succ fuel ih =>
    rw [detectCycle]
    cases state : states node with
    | visiting => exact ⟨_, isCycle_of_onStack ((onStack.visiting node).mp state) path reached, rfl⟩
    | visited => exact onStack
    | notVisited =>
      have fresh : node ∉ stack := by
        rw [← onStack.visiting, state]
        simp
      have started : g.OnStack (stack ++ [node]) (Function.update states node .visiting) := by
        refine ⟨fun n => ?_, ?_, ?_⟩
        · by_cases here : n = node
          · simp [here]
          · simp [here, onStack.visiting]
        · exact nodup_append.mpr ⟨onStack.distinct, nodup_singleton _, by
            rintro n member _ single rfl
            exact fresh (mem_singleton.mp single ▸ member)⟩
        · simpa [or_imp, forall_and] using ⟨onStack.known, known⟩
      have children : g.Outcome label (stack ++ [node]) ((g.childrenOf node).foldlM
          (fun states child => g.detectCycle label fuel child (stack ++ [node]) states)
          (Function.update states node .visiting)) := by
        refine outcome_foldlM (fun child below states kept => ?_) started
        obtain ⟨start, origin, down⟩ := reached
        refine ih kept ?_ ⟨start, origin, down.tail below⟩ (mem_names_of_child below) ?_
        · rw [isChain_append]
          exact ⟨path, isChain_singleton _, by simpa [Edge, Child] using below⟩
        · rw [length_append, length_singleton]
          omega
      simp only
      cases result : (g.childrenOf node).foldlM
          (fun states child => g.detectCycle label fuel child (stack ++ [node]) states)
          (Function.update states node .visiting) with
      | error failure =>
        rw [result] at children
        exact children
      | ok middle =>
        rw [result] at children
        refine ⟨fun n => ?_, onStack.distinct, onStack.known⟩
        by_cases here : n = node
        · simp [here, fresh]
        · simpa [here] using children.visiting n

theorem validateAcyclic_outcome {fuel : Nat} (enough : g.names.length < fuel) :
    g.Outcome label [] (g.validateAcyclic fuel label) := by
  refine outcome_foldlM (fun entry member states kept => ?_) ⟨by simp, nodup_nil, by simp⟩
  have listed : entry.1 ∈ g.nodes.map Prod.fst := mem_map_of_mem member
  split
  · exact kept
  · exact detectCycle_outcome kept (isChain_singleton _) ⟨_, hasNode_iff.mpr listed, .refl⟩
      (mem_append_left _ listed) (by simpa using enough)

theorem IsCycle.transGen {cycle : List Name} (real : g.IsCycle cycle) :
    ∃ name, g.FromNode name ∧ Relation.TransGen g.Edge name name := by
  obtain ⟨name, between, rfl, path, reached⟩ := real
  refine ⟨name, reached, ?_⟩
  obtain ⟨next, others, same⟩ := exists_cons_of_ne_nil (append_ne_nil_of_right_ne_nil between
    (cons_ne_nil name []))
  rw [cons_append, same, isChain_cons_cons] at path
  have last : (next :: others).getLast (cons_ne_nil _ _) = name := by
    simp only [← same, getLast_append_singleton]
  exact Relation.TransGen.head' path.1
    (relationReflTransGen_of_exists_isChain_cons others path.2 last)

/-- **`validateAcyclic` returns and raises exactly for a graph whose nodes lead to a cycle; its
message has a cycle of edges.** -/
theorem validateAcyclic_exact (g : Graph T) (label : String) : ∃ calls, ∀ fuel, calls ≤ fuel →
    ((∃ failure, g.validateAcyclic fuel label = .error failure) ↔
      ∃ name, g.FromNode name ∧ Relation.TransGen g.Edge name name) ∧
    ∀ failure, g.validateAcyclic fuel label = .error failure →
      ∃ cycle, g.IsCycle cycle ∧ failure = .raised (cycleMessage label cycle) := by
  refine ⟨g.names.length + 1, fun fuel enough => ?_⟩
  have outcome := @validateAcyclic_outcome _ g label fuel enough
  constructor
  · constructor
    · rintro ⟨failure, raised⟩
      rw [raised] at outcome
      obtain ⟨cycle, real, _⟩ := outcome
      exact real.transGen
    · rintro ⟨name, ⟨node, origin, down⟩, loop⟩
      cases result : g.validateAcyclic fuel label with
      | error failure => exact ⟨failure, rfl⟩
      | ok states =>
        -- every name below a node of a searched graph is accessible
        have grounded : Acc g.Child name := by
          clear loop
          induction down with
          | refl => exact validateAcyclic_acc result origin
          | tail _ below ih => exact ih.inv below
        exact absurd (Relation.transGen_swap.mp loop) (acc_irrefl grounded.transGen)
  · intro failure raised
    rw [raised] at outcome
    exact outcome

end GuardSarm.Policy.Graph
