import GuardSarm.Inventory.GapSet

/-!
# Runs of a gap set

A gap set under any sequence of calls, against the set of the numbers that
were observed.

* `Records.observeAll`: the step of `Records` over a run;
* `Records.sums_lt`, `differences_pos`: no sum of the code reaches `2 ^ 64` and
  no difference is taken from `0`.
-/

namespace GuardSarm

open List

namespace Interval

variable {is : List Interval} {size pos : Nat}

/-- The gaps from a position on are not empty, end before the size, and start at the position, if
not behind a number that is covered. -/
structure Gap (size pos : Nat) (is : List Interval) (gap : Nat × Nat) : Prop where
  nonempty : gap.1 ≤ gap.2
  free : ∀ n, gap.1 ≤ n → n ≤ gap.2 → n < size ∧ ¬Covered is n
  starts : gap.1 = pos ∨ pos < gap.1 ∧ Covered is (gap.1 - 1)
  ends : gap.2 + 1 = size ∨ Covered is (gap.2 + 1)

/-- Later gaps start behind a number that is covered. -/
theorem gapsFrom_maximal (separated : Separated is) (within : ∀ i ∈ is, i.last < size)
    (word : size < 2 ^ 64) (starts : ∀ i ∈ is, pos ≤ i.start) :
    (∀ gap ∈ gapsFrom size pos is, Gap size pos is gap) ∧
      (gapsFrom size pos is).Pairwise fun a b => a.2 + 1 < b.1 := by
  induction is generalizing pos with
  | nil =>
    simp only [gapsFrom]
    split
    · next room =>
      simp only [mem_singleton, forall_eq, pairwise_singleton, and_true]
      exact ⟨by simp only; omega, fun n low high => ⟨by omega, by simp⟩, .inl rfl, .inl (by omega)⟩
    · simp
  | cons i rest ih =>
    obtain ⟨nonempty, next, later⟩ := Separated.cons_iff.mp separated
    have last := within i (by simp)
    have wraps : (i.last + 1) % 2 ^ 64 = i.last + 1 := Nat.mod_eq_of_lt (by omega)
    obtain ⟨gaps, apart⟩ := @ih (i.last + 1) later (fun j member => within j (by simp [member]))
      fun j member => by have := next j member; omega
    have beyond {n : Nat} (covered : Covered rest n) : i.last + 1 < n := by
      obtain ⟨j, member, low, _⟩ := covered
      have := next j member
      omega
    have behind : ∀ gap ∈ gapsFrom size (i.last + 1) rest, Gap size pos (i :: rest) gap := by
      intro gap member
      obtain ⟨some, free, opens, closes⟩ := gaps gap member
      refine ⟨some, fun n low high => ?_, .inr ?_, ?_⟩
      · grind [covered_cons]
      · grind [covered_cons]
      · grind [covered_cons]
    simp only [gapsFrom, wraps]
    split
    · next room =>
      refine ⟨?_, ?_⟩
      · intro gap member
        rcases mem_append.mp member with first | tail
        · obtain rfl := mem_singleton.mp first
          refine ⟨by simp only; omega, fun n low high => ⟨by omega, ?_⟩, .inl rfl, .inr ?_⟩
          · grind [covered_cons]
          · grind [covered_cons]
        · exact behind gap tail
      · rw [singleton_append, pairwise_cons]
        refine ⟨fun gap member => ?_, apart⟩
        obtain ⟨_, _, opens, _⟩ := gaps gap member
        omega
    · exact ⟨behind, apart⟩

/-! ## The sums and differences of the code -/

/-- The numbers that `canMergeWith` adds one to. -/
def canMergeSums (i j : Interval) : List Nat := [j.last, i.last]

def previousSums (is : List Interval) (i : Interval) : List Nat :=
  is.getLast?.elim [] (canMergeSums · i)

def followingSums (i : Interval) : List Interval → List Nat
  | [] => []
  | it :: rest =>
    canMergeSums i it ++ if i.canMergeWith it then followingSums (i.mergeWith it) rest else []

def addSums (is : List Interval) (seq : Nat) : List Nat :=
  previousSums (below is ⟨seq, seq⟩) ⟨seq, seq⟩ ++
    followingSums (mergePrevious (below is ⟨seq, seq⟩) ⟨seq, seq⟩).2 (fromBound is ⟨seq, seq⟩)

/-- The numbers that the loop of `ranges` takes one from. -/
def gapsDifferences (size pos : Nat) : List Interval → List Nat
  | [] => if pos < size then [size] else []
  | i :: rest =>
    (if pos < i.start then [i.start] else []) ++ gapsDifferences size ((i.last + 1) % 2 ^ 64) rest

theorem followingSums_lt {i : Interval} (last : i.last < size) (within : ∀ j ∈ is, j.last < size) :
    ∀ n ∈ followingSums i is, n < size := by
  induction is generalizing i with
  | nil => simp [followingSums]
  | cons it rest ih =>
    obtain ⟨next, later⟩ := forall_mem_cons.mp within
    intro n member
    rcases mem_append.mp member with here | tail
    · simp only [canMergeSums, mem_cons, not_mem_nil, or_false] at here
      omega
    · split at tail
      · exact ih (by simp only [mergeWith]; omega) later n tail
      · cases tail

theorem addSums_lt {seq : Nat} (bound : seq < size) (within : ∀ j ∈ is, j.last < size) :
    ∀ n ∈ addSums is seq, n < size := by
  have split := below_append_fromBound is ⟨seq, seq⟩
  rw [← split, forall_mem_append] at within
  obtain ⟨lower, upper⟩ := within
  have merged : (mergePrevious (below is ⟨seq, seq⟩) ⟨seq, seq⟩).2.last < size := by
    unfold mergePrevious
    split
    · next prev found =>
      have last := lower prev (mem_of_getLast? found)
      split
      · simp only [mergeWith]
        omega
      · exact bound
    · exact bound
  intro n member
  rcases mem_append.mp member with previous | following
  · unfold previousSums at previous
    cases found : (below is ⟨seq, seq⟩).getLast? with
    | none => simp [found] at previous
    | some prev =>
      have last := lower prev (mem_of_getLast? found)
      simp only [found, Option.elim_some, canMergeSums, mem_cons, not_mem_nil,
        or_false] at previous
      omega
  · exact followingSums_lt merged upper n following

theorem gapsDifferences_pos : ∀ n ∈ gapsDifferences size pos is, 0 < n := by
  induction is generalizing pos with
  | nil =>
    unfold gapsDifferences
    split <;> simp
    omega
  | cons i rest ih =>
    rw [gapsDifferences, forall_mem_append]
    refine ⟨?_, ih⟩
    split <;> simp
    omega

end Interval

namespace Inventory.GapSet

/-- The numbers that `observe` adds one to. -/
def observeSums (g : GapSet) (seq : Nat) : List Nat :=
  if g.size ≤ seq ∨ g.allObserved ∨ Interval.holds g.intervals seq then []
  else g.observedCount :: Interval.addSums g.intervals seq

/-- The numbers that `observe` takes one from. -/
def observeDifferences (g : GapSet) (seq : Nat) : List Nat :=
  if g.size ≤ seq ∨ g.allObserved ∨ Interval.holds g.intervals seq then [] else [g.size]

def rangesSums (g : GapSet) : List Nat :=
  if g.size == 0 || g.allObserved then [] else g.intervals.map Interval.last

def rangesDifferences (g : GapSet) : List Nat :=
  if g.size == 0 || g.allObserved then []
  else if g.intervals.isEmpty then [g.size]
  else Interval.gapsDifferences g.size 0 g.intervals

/-- The set after calls of `observe`, some of which may raise. -/
def observeAll (g : GapSet) : List Nat → GapSet
  | [] => g
  | seq :: seqs =>
    match g.observe seq with
    | .ok g => g.observeAll seqs
    | .error _ => g.observeAll seqs

/-- The numbers in range among those that were given. -/
def observedOf (size : Nat) (seqs : List Nat) : Finset Nat := (seqs.filter (· < size)).toFinset

variable {observed : Finset Nat}

theorem Records.observeAll {g : GapSet} (records : Records g observed) (seqs : List Nat) :
    (g.observeAll seqs).size = g.size ∧
      Records (g.observeAll seqs) (observed ∪ observedOf g.size seqs) := by
  induction seqs generalizing g observed with
  | nil => exact ⟨rfl, by simpa [GapSet.observeAll, observedOf] using records⟩
  | cons seq seqs ih =>
    rw [GapSet.observeAll]
    by_cases bound : seq < g.size
    · obtain ⟨g', called, size, recorded⟩ := records.observe_ok bound
      obtain ⟨same, all⟩ := ih recorded
      rw [called]
      refine ⟨same.trans size, ?_⟩
      have union : insert seq observed ∪ observedOf g'.size seqs =
          observed ∪ observedOf g.size (seq :: seqs) := by
        rw [size]
        simp [observedOf, bound]
      rwa [union] at all
    · rw [observe_error (Nat.not_lt.mp bound)]
      obtain ⟨same, all⟩ := ih records
      refine ⟨same, ?_⟩
      rwa [show observedOf g.size (seq :: seqs) = observedOf g.size seqs by
        simp [observedOf, bound]]

/-- The fields are determined by the size and the numbers the set stands for. -/
theorem Records.unique {g h : GapSet} (one : Records g observed) (two : Records h observed)
    (sized : g.size = h.size) : g = h := by
  have intervals := one.separated.ext two.separated fun n =>
    (one.covered n).trans (two.covered n).symm
  have all := one.all.trans (sized ▸ two.all.symm)
  have count := one.count.trans two.count.symm
  cases g
  cases h
  simp_all

theorem Records.ranges_maximal {g : GapSet} (records : Records g observed) :
    (∀ gap ∈ g.ranges, Interval.Gap g.size 0 g.intervals gap) ∧
      g.ranges.Pairwise fun a b => a.2 + 1 < b.1 := by
  have gaps := Interval.gapsFrom_maximal records.separated records.within records.word
    fun i _ => Nat.zero_le i.start
  unfold GapSet.ranges
  split
  · simp
  · next done =>
    split
    · next none =>
      have positive : 0 < g.size := by
        simp only [Bool.or_eq_true, beq_iff_eq, not_or] at done
        omega
      rw [isEmpty_iff.mp none] at gaps ⊢
      simpa [Interval.gapsFrom, positive] using gaps
    · exact gaps

theorem Records.sums_lt {g : GapSet} (records : Records g observed) :
    (∀ seq, ∀ n ∈ g.observeSums seq, n + 1 < 2 ^ 64) ∧ ∀ n ∈ g.rangesSums, n + 1 < 2 ^ 64 := by
  have word := records.word
  constructor
  · intro seq n member
    unfold observeSums at member
    split at member
    · cases member
    · next new =>
      obtain ⟨bound, missing, -⟩ : seq < g.size ∧ ¬g.allObserved = true ∧ _ := by
        simpa only [not_or, not_le] using new
      rcases mem_cons.mp member with rfl | sum
      · have fewer : observed.card < g.size := by
          rw [← Finset.card_range g.size]
          refine Finset.card_lt_card ⟨fun n old => Finset.mem_range.mpr (records.lt_size old), ?_⟩
          intro all
          exact missing (records.all.mpr fun n small => all (Finset.mem_range.mpr small))
        rw [records.count]
        omega
      · have := Interval.addSums_lt bound records.within n sum
        omega
  · intro n member
    unfold rangesSums at member
    split at member
    · cases member
    · obtain ⟨i, present, rfl⟩ := mem_map.mp member
      have := records.within i present
      omega

/-- The gap set of a size stands for the numbers below the size that were given to it. -/
structure Refines (size : Nat) (seqs : List Nat) (g : GapSet) : Prop where
  /-- `observe` raises for a number that is not below the size. -/
  raises : ∀ seq, (∃ e, g.observe seq = .error e) ↔ size ≤ seq
  within : ∀ i ∈ g.intervals, i.start ≤ i.last ∧ i.last < size
  /-- The intervals are in order, disjoint and not adjacent. -/
  apart : g.intervals.Pairwise fun i j => i.last + 1 < j.start
  union : ∀ n, (∃ i ∈ g.intervals, i.start ≤ n ∧ n ≤ i.last) ↔ n < size ∧ n ∈ seqs
  contains : ∀ seq, g.contains seq = true ↔ seq < size ∧ seq ∈ seqs
  count : g.observedCount = (observedOf size seqs).card
  empty : g.empty = true ↔ ∀ n < size, n ∈ seqs
  /-- A range is a run of missing numbers between two that are not missing or the ends. -/
  ranges : ∀ gap ∈ g.ranges, gap.1 ≤ gap.2 ∧ gap.2 < size ∧
    (∀ n, gap.1 ≤ n → n ≤ gap.2 → n ∉ seqs) ∧ (gap.1 = 0 ∨ 0 < gap.1 ∧ gap.1 - 1 ∈ seqs) ∧
    (gap.2 + 1 = size ∨ gap.2 + 1 ∈ seqs)
  ordered : g.ranges.Pairwise fun a b => a.2 + 1 < b.1
  missing : ∀ n < size, n ∉ seqs → ∃ gap ∈ g.ranges, gap.1 ≤ n ∧ n ≤ gap.2
  sums : (∀ seq, ∀ n ∈ g.observeSums seq, n + 1 < 2 ^ 64) ∧ ∀ n ∈ g.rangesSums, n + 1 < 2 ^ 64
  differences : (∀ seq, ∀ n ∈ g.observeDifferences seq, 0 < n) ∧ ∀ n ∈ g.rangesDifferences, 0 < n

theorem differences_pos (g : GapSet) :
    (∀ seq, ∀ n ∈ g.observeDifferences seq, 0 < n) ∧ ∀ n ∈ g.rangesDifferences, 0 < n := by
  constructor
  · intro seq n member
    unfold observeDifferences at member
    split at member
    · cases member
    · next new =>
      obtain rfl := mem_singleton.mp member
      omega
  · unfold rangesDifferences
    split
    · simp
    · next done =>
      split
      · simp only [Bool.or_eq_true, beq_iff_eq, not_or] at done
        simp only [mem_singleton, forall_eq]
        omega
      · exact Interval.gapsDifferences_pos

/-- **A gap set is the set of the numbers observed.** -/
theorem observeAll_refines (size : Nat) (word : size < 2 ^ 64) (seqs : List Nat) :
    Refines size seqs ((ofSize size).observeAll seqs) := by
  obtain ⟨sized, records⟩ := (Records.ofSize word).observeAll seqs
  rw [Finset.empty_union, show (ofSize size).size = size from rfl] at records
  have same : ((ofSize size).observeAll seqs).size = size := sized
  generalize (ofSize size).observeAll seqs = g at same records
  subst same
  have member (n : Nat) : n ∈ observedOf g.size seqs ↔ n < g.size ∧ n ∈ seqs := by
    simp [observedOf, and_comm]
  have covered (n : Nat) : Interval.Covered g.intervals n ↔ n < g.size ∧ n ∈ seqs := by
    rw [records.covered, member]
  obtain ⟨maximal, ordered⟩ := records.ranges_maximal
  refine {
    raises := fun seq => ?_
    within := fun i present => ⟨records.separated.nonempty i present, records.within i present⟩
    apart := records.separated.apart
    union := covered
    contains := fun seq => by rw [records.contains_iff, member]
    count := records.count
    empty := ?_
    ranges := fun gap present => ?_
    ordered := ordered
    missing := fun n small absent => (records.mem_ranges n).mpr ⟨small, fun old => absent
      ((member n).mp old).2⟩
    sums := records.sums_lt
    differences := differences_pos g }
  · constructor
    · rintro ⟨e, raised⟩
      by_contra bound
      obtain ⟨g', called⟩ := Records.exists_observe (Nat.not_le.mp bound)
      rw [called] at raised
      cases raised
    · intro out
      exact ⟨_, Records.observe_error out⟩
  · rw [records.empty_iff]
    exact forall₂_congr fun n small => by rw [member, and_iff_right small]
  · obtain ⟨nonempty, free, starts, ends⟩ := maximal gap present
    have last := (free gap.2 nonempty (le_refl _)).1
    refine ⟨nonempty, last, fun n low high old => ?_, ?_, ?_⟩
    · obtain ⟨small, uncovered⟩ := free n low high
      exact uncovered ((covered n).mpr ⟨small, old⟩)
    · exact starts.imp_right fun ⟨positive, before⟩ => ⟨positive, ((covered _).mp before).2⟩
    · exact ends.imp_right fun after => ((covered _).mp after).2

theorem observeAll_refines_largest : Refines (2 ^ 64 - 1) [2 ^ 64 - 2, 0, 5, 2 ^ 64 - 1]
      ((ofSize (2 ^ 64 - 1)).observeAll [2 ^ 64 - 2, 0, 5, 2 ^ 64 - 1]) :=
  observeAll_refines (2 ^ 64 - 1) (by decide) [2 ^ 64 - 2, 0, 5, 2 ^ 64 - 1]

/-- **Neither order nor repetition matters**: packets with the same numbers below the size, in any
order and any number of times, leave the same set. -/
theorem observeAll_eq_of_same {size : Nat} (word : size < 2 ^ 64) {seqs others : List Nat}
    (same : ∀ n < size, n ∈ seqs ↔ n ∈ others) :
    (ofSize size).observeAll seqs = (ofSize size).observeAll others := by
  obtain ⟨sized, one⟩ := (Records.ofSize word).observeAll seqs
  obtain ⟨sized', two⟩ := (Records.ofSize word).observeAll others
  have observed : observedOf size seqs = observedOf size others := by
    ext n
    simp only [observedOf, mem_toFinset, mem_filter]
    grind
  have two : Records _ (∅ ∪ observedOf size others) := two
  rw [← observed] at two
  exact one.unique two (sized.trans sized'.symm)

theorem observeAll_eq_of_same_resent :
    (ofSize 4).observeAll [3, 1, 3, 9] = (ofSize 4).observeAll [1, 3] :=
  observeAll_eq_of_same (by decide) (by decide)

end Inventory.GapSet

end GuardSarm
