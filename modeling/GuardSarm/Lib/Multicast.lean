import Mathlib

/-!
# Multicast pipelines

An observable is the subject that the events come from, a stage behind another observable, or a multicast
of one. The first subscription to a multicast subscribes it to what it
multicasts. An event goes to the subscribers of a multicast in the order of
their subscriptions, and through to the end of one before the next. All stages
work on one state.

A builder extends a pipeline behind an observable. `Computes` says what it
does to the state, whatever is subscribed to its result later:

* `computes_stage`, `computes_andThen`: a stage, and one builder behind another.
-/

namespace GuardSarm.Multicast

variable {σ : Type}

inductive Stage (σ : Type) where
  | map (f : σ → σ)
  | filter (p : σ → σ × Bool)

inductive Stop where
  | ignore | emit | shared (id : Nat)

/-- A subscriber: what an event goes through, and where it goes then. -/
structure Sink (σ : Type) where
  stages : List (Stage σ)
  stop : Stop

inductive Observable (σ : Type) where
  | subject
  | stage (source : Observable σ) (s : Stage σ)
  | shared (id : Nat) (source : Observable σ)

/-- The subscribers of every multicast; those of the subject have the number 0. -/
structure Graph (σ : Type) where
  next : Nat
  subscribers : Nat → List (Sink σ)

def Graph.empty : Graph σ := ⟨1, fun _ => []⟩

def Graph.add (g : Graph σ) (id : Nat) (k : Sink σ) : Graph σ :=
  { g with subscribers := Function.update g.subscribers id (g.subscribers id ++ [k]) }

def Graph.publish (g : Graph σ) (source : Observable σ) : Observable σ × Graph σ :=
  (.shared g.next source, { g with next := g.next + 1 })

def Sink.cons (s : Stage σ) (k : Sink σ) : Sink σ := { k with stages := s :: k.stages }

def Observable.subscribe : Observable σ → Sink σ → Graph σ → Graph σ
  | .subject, k, g => g.add 0 k
  | .stage source s, k, g => source.subscribe (k.cons s) g
  | .shared id source, k, g =>
    if (g.subscribers id).isEmpty then source.subscribe ⟨[], .shared id⟩ (g.add id k) else g.add id k

/-- The state behind the stages, and whether the event has come through. -/
def through : List (Stage σ) → σ → σ × Bool
  | [], s => (s, true)
  | .map f :: stages, s => through stages (f s)
  | .filter p :: stages, s => if (p s).2 then through stages (p s).1 else ((p s).1, false)

/-- An event at a subscriber, with the states that have been emitted; none when more multicasts are
nested than the fuel allows. -/
def deliver (g : Graph σ) : Nat → Sink σ → σ × List σ → Option (σ × List σ)
  | fuel, k, w =>
    let (s, passed) := through k.stages w.1
    if passed then
      match k.stop, fuel with
      | .ignore, _ => some (s, w.2)
      | .emit, _ => some (s, w.2 ++ [s])
      | .shared _, 0 => none
      | .shared id, fuel + 1 => (g.subscribers id).foldlM (fun w k => deliver g fuel k w) (s, w.2)
    else some (s, w.2)

/-- With enough fuel. -/
def Runs (g : Graph σ) (k : Sink σ) (w w' : σ × List σ) : Prop :=
  ∃ n, ∀ fuel, n ≤ fuel → deliver g fuel k w = some w'

section delivery

variable {g : Graph σ} {k : Sink σ} {s s' : σ} {log : List σ} {w w' : σ × List σ}

theorem Runs.stopped (h : through k.stages s = (s', false)) : Runs g k (s, log) (s', log) := by
  refine ⟨0, fun fuel _ => ?_⟩
  rw [deliver, h]
  rfl

theorem Runs.ignored (h : through k.stages s = (s', true)) (stop : k.stop = .ignore) :
    Runs g k (s, log) (s', log) := by
  refine ⟨0, fun fuel _ => ?_⟩
  rw [deliver, h, stop]
  rfl

theorem Runs.emitted (h : through k.stages s = (s', true)) (stop : k.stop = .emit) :
    Runs g k (s, log) (s', log ++ [s']) := by
  refine ⟨0, fun fuel _ => ?_⟩
  rw [deliver, h, stop]
  rfl

def RunsAll (g : Graph σ) (ks : List (Sink σ)) (w w' : σ × List σ) : Prop :=
  ∃ n, ∀ fuel, n ≤ fuel → ks.foldlM (fun w k => deliver g fuel k w) w = some w'

theorem RunsAll.nil : RunsAll g [] w w := ⟨0, fun _ _ => rfl⟩

theorem RunsAll.cons {ks : List (Sink σ)} {w₁ : σ × List σ} (head : Runs g k w w₁)
    (tail : RunsAll g ks w₁ w') : RunsAll g (k :: ks) w w' := by
  obtain ⟨n, first⟩ := head
  obtain ⟨m, others⟩ := tail
  refine ⟨max n m, fun fuel enough => ?_⟩
  rw [List.foldlM_cons, first fuel (by omega)]
  exact others fuel (by omega)

theorem Runs.multicast {id : Nat} (h : through k.stages s = (s', true)) (stop : k.stop = .shared id)
    (all : RunsAll g (g.subscribers id) (s', log) w') : Runs g k (s, log) w' := by
  obtain ⟨n, all⟩ := all
  refine ⟨n + 1, fun fuel enough => ?_⟩
  obtain ⟨fuel, rfl⟩ : ∃ m, fuel = m + 1 := ⟨fuel - 1, by omega⟩
  rw [deliver, h, stop]
  exact all fuel (by omega)

end delivery

section subscriptions

variable {g g' : Graph σ} {k : Sink σ} {o : Observable σ} {n : Nat}

/-- All multicasts that the observable comes from have smaller numbers, each than the next. -/
def Observable.Below : Observable σ → Nat → Prop
  | .subject, n => 0 < n
  | .stage source _, n => source.Below n
  | .shared id source, n => id < n ∧ source.Below id

theorem Observable.Below.mono {m : Nat} (h : o.Below n) (le : n ≤ m) : o.Below m := by
  induction o with
  | subject => exact lt_of_lt_of_le h le
  | stage source _ ih => exact ih h
  | shared id source _ => exact ⟨lt_of_lt_of_le h.1 le, h.2⟩

/-- No multicast that is still to come has a subscriber. -/
def Graph.Fresh (g : Graph σ) : Prop := ∀ i, g.next ≤ i → g.subscribers i = []

@[simp]
theorem Graph.add_next {id : Nat} : (g.add id k).next = g.next := rfl

@[simp]
theorem Graph.add_self {id : Nat} : (g.add id k).subscribers id = g.subscribers id ++ [k] :=
  Function.update_self _ _ _

theorem Graph.add_of_ne {i id : Nat} (ne : i ≠ id) :
    (g.add id k).subscribers i = g.subscribers i := Function.update_of_ne ne _ _

@[simp]
theorem Observable.subscribe_next : (o.subscribe k g).next = g.next := by
  induction o generalizing k g with
  | subject => rfl
  | stage source s ih => exact ih
  | shared id source ih =>
    unfold subscribe
    split
    · exact ih
    · rfl

/-- A subscription changes nothing above the observable. -/
theorem Observable.subscribe_above {i : Nat} (below : o.Below n) (le : n ≤ i) :
    (o.subscribe k g).subscribers i = g.subscribers i := by
  induction o generalizing k g n with
  | subject => exact Graph.add_of_ne (Nat.ne_of_gt (lt_of_lt_of_le below le))
  | stage source s ih => exact ih below le
  | shared id source ih =>
    obtain ⟨lt, older⟩ := below
    have added : (g.add id k).subscribers i = g.subscribers i := Graph.add_of_ne (by omega)
    unfold subscribe
    split
    · rw [ih older (by omega), added]
    · exact added

theorem Graph.add_congr {id : Nat} (same : ∀ i < n, g.subscribers i = g'.subscribers i) :
    ∀ i < n, (g.add id k).subscribers i = (g'.add id k).subscribers i := by
  intro i less
  by_cases h : i = id
  · subst h
    rw [Graph.add_self, Graph.add_self, same i less]
  · rw [Graph.add_of_ne h, Graph.add_of_ne h, same i less]

/-- What it changes below depends only on the subscribers there. -/
theorem Observable.subscribe_congr (below : o.Below n)
    (same : ∀ i < n, g.subscribers i = g'.subscribers i) :
    ∀ i < n, (o.subscribe k g).subscribers i = (o.subscribe k g').subscribers i := by
  induction o generalizing k g g' n with
  | subject => exact Graph.add_congr same
  | stage source s ih => exact ih below same
  | shared id source ih =>
    obtain ⟨lt, older⟩ := below
    unfold subscribe
    rw [same id lt]
    split
    · exact ih (older.mono (le_of_lt lt)) (Graph.add_congr same)
    · exact Graph.add_congr same

theorem Graph.Fresh.subscribe (fresh : g.Fresh) (below : o.Below g.next) :
    (o.subscribe k g).Fresh := by
  intro i le
  rw [Observable.subscribe_next] at le
  rw [Observable.subscribe_above below le]
  exact fresh i le

end subscriptions

/-- What extends a pipeline behind an observable. -/
abbrev Builder (σ : Type) := Observable σ → Graph σ → Observable σ × Graph σ

/-- What a part of a pipeline does to the state, and whether the event goes on. -/
abbrev Effect (σ : Type) := σ → σ × Bool

def Effect.andThen (first second : Effect σ) : Effect σ := fun s =>
  if (first s).2 then second (first s).1 else ((first s).1, false)

theorem Effect.andThen_passed {first second : Effect σ} {s : σ} (h : (first s).2 = true) :
    first.andThen second s = second (first s).1 := if_pos h

theorem Effect.andThen_stopped {first second : Effect σ} {s : σ} (h : (first s).2 = false) :
    first.andThen second s = ((first s).1, false) := if_neg (by rw [h]; decide)

/-- The subscriber `K` has the effect and then goes on to `k`. -/
def Acts (g : Graph σ) (effect : Effect σ) (K k : Sink σ) : Prop := ∀ s log,
  ((effect s).2 = true → ∀ w, Runs g k ((effect s).1, log) w → Runs g K (s, log) w) ∧
  ((effect s).2 = false → Runs g K (s, log) ((effect s).1, log))

section acting

variable {g : Graph σ} {first second : Effect σ} {K k m : Sink σ}

theorem Acts.refl : Acts g (fun s => (s, true)) k k := fun _ _ => ⟨fun _ _ runs => runs, nofun⟩

theorem Acts.trans (h₁ : Acts g first K m) (h₂ : Acts g second m k) :
    Acts g (first.andThen second) K k := by
  intro s log
  unfold Effect.andThen
  cases passed : (first s).2 with
  | false => exact ⟨nofun, fun _ => (h₁ s log).2 passed⟩
  | true =>
    refine ⟨fun goes w runs => (h₁ s log).1 passed w ((h₂ _ log).1 goes w runs), fun stays => ?_⟩
    exact (h₁ s log).1 passed _ ((h₂ _ log).2 stays)

theorem through_cons (s : Stage σ) (stages : List (Stage σ)) :
    through (s :: stages) = Effect.andThen (through [s]) (through stages) := by
  funext x
  cases s with
  | map f => rfl
  | filter p =>
    simp only [through, Effect.andThen]
    split <;> rfl

theorem Acts.stage (s : Stage σ) : Acts g (through [s]) (k.cons s) k := by
  intro x log
  constructor
  · rintro passed w ⟨n, runs⟩
    refine ⟨n, fun fuel enough => ?_⟩
    rw [← runs fuel enough, deliver, deliver]
    simp only [Sink.cons, through_cons s k.stages, Effect.andThen, passed, if_true]
  · intro stopped
    apply Runs.stopped
    simp only [Sink.cons, through_cons s k.stages, Effect.andThen, stopped, Bool.false_eq_true,
      if_false]

/-- A pipeline that ends with the multicast runs to its end. -/
theorem Acts.runs_ignore (h : Acts g first K ⟨[], .ignore⟩) (s : σ) (log : List σ) :
    Runs g K (s, log) ((first s).1, log) := by
  cases passed : (first s).2 with
  | false => exact (h s log).2 passed
  | true => exact (h s log).1 passed _ (.ignored rfl rfl)

/-- Of two subscribers of a multicast the first one runs to its end before the second one. -/
theorem Acts.tap {id : Nat} {inner : Sink σ} (subscribers : g.subscribers id = [inner, m])
    (h : Acts g first inner ⟨[], .ignore⟩) (h' : Acts g second m k) :
    Acts g (fun s => second (first s).1) ⟨[], .shared id⟩ k := by
  intro s log
  have tapped := h.runs_ignore s log
  constructor
  · intro passed w runs
    refine .multicast rfl rfl ?_
    rw [subscribers]
    exact .cons tapped (.cons ((h' _ log).1 passed w runs) .nil)
  · intro stopped
    refine .multicast rfl rfl ?_
    rw [subscribers]
    exact .cons tapped (.cons ((h' _ log).2 stopped) .nil)

end acting

/-- The builder adds `size` multicasts, and its result does to the state what `effect` says, which
may depend on the number of the first of them. -/
structure Computes (build : Builder σ) (size : Nat) (effect : Nat → Effect σ) : Prop where
  next : ∀ input g, (build input g).2.next = g.next + size
  below : ∀ input g, input.Below g.next → (build input g).1.Below (g.next + size)
  fresh : ∀ input g, input.Below g.next → g.Fresh → (build input g).2.Fresh
  acts : ∀ input g k, input.Below g.next → g.Fresh → ∃ K,
    (∀ i < g.next, ((build input g).1.subscribe k (build input g).2).subscribers i =
      (input.subscribe K g).subscribers i) ∧
    ∀ g', (∀ i, g.next ≤ i → i < g.next + size →
      g'.subscribers i = ((build input g).1.subscribe k (build input g).2).subscribers i) →
      Acts g' (effect g.next) K k

section builders

theorem computes_id : Computes (fun input (g : Graph σ) => (input, g)) 0 fun _ s => (s, true) where
  next _ _ := rfl
  below _ _ h := h
  fresh _ _ _ h := h
  acts _ _ k _ _ := ⟨k, fun _ _ => rfl, fun _ _ => .refl⟩

theorem computes_stage (s : Stage σ) :
    Computes (fun input g => (input.stage s, g)) 0 fun _ => through [s] where
  next _ _ := rfl
  below _ _ h := h
  fresh _ _ _ h := h
  acts _ _ k _ _ := ⟨k.cons s, fun _ _ => rfl, fun _ _ => .stage s⟩

/-- One builder behind another, which may know the number of the first one's first multicast. -/
theorem computes_andThen {b₁ : Builder σ} {b₂ : Nat → Builder σ} {n₁ n₂ : Nat}
    {e₁ : Nat → Effect σ} {e₂ : Nat → Nat → Effect σ}
    (h₁ : Computes b₁ n₁ e₁) (h₂ : ∀ base, Computes (b₂ base) n₂ (e₂ base)) :
    Computes (fun input g => b₂ g.next (b₁ input g).1 (b₁ input g).2) (n₁ + n₂)
      fun base => (e₁ base).andThen (e₂ base (base + n₁)) where
  next input g := by rw [(h₂ g.next).next, h₁.next, Nat.add_assoc]
  below input g h := by
    rw [← Nat.add_assoc, ← h₁.next input g]
    exact (h₂ g.next).below _ _ (by rw [h₁.next]; exact h₁.below _ _ h)
  fresh input g h fresh :=
    (h₂ g.next).fresh _ _ (by rw [h₁.next]; exact h₁.below _ _ h) (h₁.fresh _ _ h fresh)
  acts input g k h fresh := by
    have below := h₁.below input g h
    rw [← h₁.next input g] at below
    obtain ⟨m, same₂, acts₂⟩ := (h₂ g.next).acts _ _ k below (h₁.fresh _ _ h fresh)
    obtain ⟨K, same₁, acts₁⟩ := h₁.acts input g m h fresh
    rw [h₁.next] at same₂ acts₂
    refine ⟨K, fun i lt => (same₂ i (by omega)).trans (same₁ i lt), fun g' agrees => ?_⟩
    have first : Acts g' (e₁ g.next) K m := acts₁ g' fun i le lt =>
      (agrees i le (by omega)).trans (same₂ i lt)
    have second : Acts g' (e₂ g.next (g.next + n₁)) m k := acts₂ g' fun i le lt =>
      agrees i (by omega) (by omega)
    exact first.trans second

/-- A multicast with a pipeline of its own, which may know its number. -/
def tap (inner : Nat → Builder σ) : Builder σ := fun input g =>
  let (step, g') := g.publish input
  let (last, g'') := inner g.next step g'
  (step, last.subscribe ⟨[], .ignore⟩ g'')

theorem publish_below {input : Observable σ} {g : Graph σ} (below : input.Below g.next) :
    (g.publish input).1.Below (g.publish input).2.next := ⟨Nat.lt_succ_self _, below⟩

theorem publish_fresh {input : Observable σ} {g : Graph σ} (fresh : g.Fresh) :
    (g.publish input).2.Fresh := fun i le => fresh i (Nat.le_of_succ_le le)

theorem subscribe_publish {input : Observable σ} {g : Graph σ} {k : Sink σ} (fresh : g.Fresh) :
    (g.publish input).1.subscribe k (g.publish input).2 =
      input.subscribe ⟨[], .shared g.next⟩ ((g.publish input).2.add g.next k) := by
  have none : g.subscribers g.next = [] := fresh g.next le_rfl
  exact if_pos (List.isEmpty_iff.mpr none)

/-- The pipeline of a multicast runs to its end before an event goes on. -/
theorem computes_tap {inner : Nat → Builder σ} {size : Nat} {effect : Nat → Nat → Effect σ}
    (h : ∀ base, Computes (inner base) size (effect base)) :
    Computes (tap inner) (1 + size) fun base s => ((effect base (base + 1) s).1, true) := by
  refine ⟨fun input g => ?_, fun input g below => ?_, fun input g below fresh => ?_,
    fun input g k below fresh => ?_⟩
  · simp only [tap, Observable.subscribe_next, (h g.next).next]
    exact Nat.add_assoc _ _ _
  · exact ⟨by omega, below⟩
  · have last := (h g.next).below _ _ (publish_below below)
    rw [← (h g.next).next] at last
    exact ((h g.next).fresh _ _ (publish_below below) (publish_fresh fresh)).subscribe last
  · obtain ⟨P, same, acts⟩ := (h g.next).acts _ _ ⟨[], .ignore⟩ (publish_below below)
      (publish_fresh fresh)
    rw [subscribe_publish fresh] at same
    have inside : (tap inner input g).2.subscribers g.next = [P] := by
      refine (same g.next (Nat.lt_succ_self _)).trans ?_
      rw [Observable.subscribe_above below le_rfl, Graph.add_self]
      exact congrArg (· ++ [P]) (fresh g.next le_rfl)
    have outside : (tap inner input g).1.subscribe k (tap inner input g).2 =
        (tap inner input g).2.add g.next k := by
      refine if_neg ?_
      rw [inside]
      simp
    rw [outside]
    refine ⟨⟨[], .shared g.next⟩, fun i lt => ?_, fun g' agrees => ?_⟩
    · rw [Graph.add_of_ne (by omega)]
      refine (same i (Nat.lt_succ_of_lt lt)).trans ?_
      refine Observable.subscribe_congr below (fun i lt => ?_) i lt
      exact Graph.add_of_ne (by omega)
    · have both : g'.subscribers g.next = [P, k] := by
        rw [agrees g.next le_rfl (by omega), Graph.add_self, inside]
        rfl
      have tapped : Acts g' (effect g.next (g.next + 1)) P ⟨[], .ignore⟩ := by
        refine acts g' fun i le lt => ?_
        have le : g.next + 1 ≤ i := le
        have lt : i < g.next + 1 + size := lt
        rw [agrees i (by omega) (by omega), Graph.add_of_ne (by omega)]
        rfl
      exact Acts.tap both tapped Acts.refl

/-- A pipeline behind the subject, with a subscriber to its end. -/
def pipeline (build : Builder σ) : Graph σ :=
  let (output, g) := build .subject .empty
  output.subscribe ⟨[], .emit⟩ g

/-- An event that the pipeline does not stop is emitted once, in the state that the effect gives. -/
theorem Computes.runs {build : Builder σ} {size : Nat} {effect : Nat → Effect σ}
    (h : Computes build size effect) (s : σ) (log : List σ) (passed : (effect 1 s).2 = true) :
    Runs (pipeline build) ⟨[], .shared 0⟩ (s, log) ((effect 1 s).1, log ++ [(effect 1 s).1]) := by
  obtain ⟨K, same, acts⟩ := h.acts .subject .empty ⟨[], .emit⟩ Nat.one_pos fun _ _ => rfl
  have only : (pipeline build).subscribers 0 = [K] := same 0 Nat.one_pos
  refine .multicast rfl rfl ?_
  rw [only]
  refine .cons ?_ .nil
  exact (acts (pipeline build) (fun _ _ _ => rfl) s log).1 passed _ (.emitted rfl rfl)

end builders

end GuardSarm.Multicast
