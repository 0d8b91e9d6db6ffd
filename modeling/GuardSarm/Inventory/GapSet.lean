import GuardSarm.Lib.Interval

/-! The set of sequence numbers a session has received, kept as intervals. The
code's 64-bit additions are taken modulo `2 ^ 64`; on a valid set none of them
wraps, because every interval ends below the declared size. -/
namespace GuardSarm

open List

namespace Interval

/-- The order of `std::set<Interval>`: by start, then by end. -/
def before (i j : Interval) : Bool :=
  if i.start ≠ j.start then decide (i.start < j.start) else decide (i.last < j.last)

def canMergeWith (i j : Interval) : Bool :=
  decide (i.start ≤ (j.last + 1) % 2 ^ 64) && decide (j.start ≤ (i.last + 1) % 2 ^ 64)

def mergeWith (i j : Interval) : Interval := ⟨min i.start j.start, max i.last j.last⟩

/-- The intervals below `lower_bound(i)`. -/
def below (is : List Interval) (i : Interval) : List Interval := is.takeWhile (·.before i)

/-- The intervals from `lower_bound(i)` on. -/
def fromBound (is : List Interval) (i : Interval) : List Interval := is.dropWhile (·.before i)

def insert (is : List Interval) (i : Interval) : List Interval :=
  if i ∈ is then is else below is i ++ i :: fromBound is i

/-- The previous interval, when it can be merged, is taken out of the set. -/
def mergePrevious (is : List Interval) (i : Interval) : List Interval × Interval :=
  match is.getLast? with
  | some prev => if prev.canMergeWith i then (is.dropLast, prev.mergeWith i) else (is, i)
  | none => (is, i)

/-- The loop over the following intervals: those merged leave the set. -/
def mergeFollowing (i : Interval) : List Interval → Interval × List Interval
  | [] => (i, [])
  | it :: rest =>
    if i.canMergeWith it then mergeFollowing (i.mergeWith it) rest else (i, it :: rest)

/-- The set with the number added; it was in no interval. -/
def add (is : List Interval) (seq : Nat) : List Interval :=
  let (kept, merged) := mergePrevious (below is ⟨seq, seq⟩) ⟨seq, seq⟩
  let (merged, rest) := mergeFollowing merged (fromBound is ⟨seq, seq⟩)
  insert (kept ++ rest) merged

/-- The tests against the neighbours of `lower_bound`. -/
def holds (is : List Interval) (seq : Nat) : Bool :=
  (below is ⟨seq, seq⟩).getLast?.any (·.contains seq) ||
    (fromBound is ⟨seq, seq⟩).head?.any (·.contains seq)

/-- The gaps below each interval from a position on, and after the last one. -/
def gapsFrom (size pos : Nat) : List Interval → List (Nat × Nat)
  | [] => if pos < size then [(pos, size - 1)] else []
  | i :: rest =>
    (if pos < i.start then [(pos, i.start - 1)] else []) ++
      gapsFrom size ((i.last + 1) % 2 ^ 64) rest

/-! On separated intervals `lower_bound` splits the set at the number: what is
below starts below it, and what is not starts at it or above. -/

variable {is : List Interval} {seq : Nat}

theorem below_append_fromBound (is : List Interval) (i : Interval) :
    below is i ++ fromBound is i = is :=
  List.takeWhile_append_dropWhile

section

variable (separated : Separated is)
include separated

theorem Separated.below (i : Interval) : Separated (below is i) := by
  rw [← below_append_fromBound is i] at separated
  exact (Separated.append_iff.mp separated).1

theorem Separated.fromBound (i : Interval) : Separated (fromBound is i) := by
  rw [← below_append_fromBound is i] at separated
  exact (Separated.append_iff.mp separated).2.1

theorem start_lt_of_mem_below {i : Interval}
    (member : i ∈ below is ⟨seq, seq⟩) : i.start < seq := by
  have nonempty := (separated.below _).nonempty i member
  have ordered : i.before ⟨seq, seq⟩ = true :=
    mem_takeWhile_imp (p := fun j : Interval => j.before ⟨seq, seq⟩) member
  grind [before]

theorem le_start_of_mem_fromBound {i : Interval}
    (member : i ∈ fromBound is ⟨seq, seq⟩) : seq ≤ i.start := by
  have apart := separated.fromBound ⟨seq, seq⟩
  cases bound : fromBound is ⟨seq, seq⟩ with
  | nil => rw [bound] at member; cases member
  | cons first rest =>
    have notBefore : first.before ⟨seq, seq⟩ = false := by
      have := head?_dropWhile_not (fun j : Interval => j.before ⟨seq, seq⟩) is
      rw [show is.dropWhile (fun j => j.before ⟨seq, seq⟩) = first :: rest from bound] at this
      simpa using this
    rw [bound] at member apart
    obtain ⟨nonempty, next, _⟩ := Separated.cons_iff.mp apart
    have first_le : seq ≤ first.start := by grind [before]
    rcases mem_cons.mp member with rfl | tail
    · exact first_le
    · have := next i tail; omega

/-- Only the neighbours of `lower_bound` can hold the number. -/
theorem holds_iff : holds is seq = true ↔ Covered is seq := by
  have split := below_append_fromBound is ⟨seq, seq⟩
  constructor
  · intro held
    rw [← split, covered_append]
    rcases Bool.or_eq_true .. |>.mp held with prev | next
    · obtain ⟨i, found, hit⟩ := Option.any_eq_true _ _ |>.mp prev
      exact .inl ⟨i, mem_of_getLast? found, by simpa using hit⟩
    · obtain ⟨i, found, hit⟩ := Option.any_eq_true _ _ |>.mp next
      exact .inr ⟨i, mem_of_head? found, by simpa using hit⟩
  · intro covered
    rw [← split, covered_append] at covered
    apply Bool.or_eq_true .. |>.mpr
    rcases covered with ⟨i, member, low, high⟩ | ⟨i, member, low, high⟩
    · left
      rcases eq_nil_or_concat (below is ⟨seq, seq⟩) with empty | ⟨init, prev, eq⟩
      · rw [empty] at member; cases member
      · have starts : prev.start < seq := start_lt_of_mem_below separated (by simp [eq])
        have apart := separated.below ⟨seq, seq⟩
        rw [eq, concat_eq_append] at member apart ⊢
        have across : ∀ j ∈ init, j.last + 1 < prev.start := by
          simpa using (Separated.append_iff.mp apart).2.2
        grind [Interval.contains]
    · right
      have apart := separated.fromBound ⟨seq, seq⟩
      cases bound : fromBound is ⟨seq, seq⟩ with
      | nil => rw [bound] at member; cases member
      | cons first rest =>
        have first_le : seq ≤ first.start :=
          le_start_of_mem_fromBound separated (by simp [bound])
        rw [bound] at member apart
        obtain ⟨nonempty, next, _⟩ := Separated.cons_iff.mp apart
        grind [Interval.contains]

/-- Merging with the previous interval: the number's own interval then ends at it and stands
apart from what is kept. -/
theorem mergePrevious_spec (starts : ∀ i ∈ is, i.start < seq)
    (free : ¬Covered is seq) (word : seq + 1 < 2 ^ 64) {kept : List Interval} {merged : Interval}
    (eq : mergePrevious is ⟨seq, seq⟩ = (kept, merged)) :
    Separated kept ∧ merged.start ≤ seq ∧ merged.last = seq ∧
      (∀ i ∈ kept, i.last + 1 < merged.start) ∧
      ∀ n, Covered kept n ∨ (merged.start ≤ n ∧ n ≤ merged.last) ↔ n = seq ∨ Covered is n := by
  rcases eq_nil_or_concat is with rfl | ⟨init, prev, rfl⟩
  · obtain ⟨rfl, rfl⟩ := Prod.mk.inj eq
    refine ⟨.nil, le_refl _, rfl, by simp, ?_⟩
    simp only [covered_nil, false_or, or_false]
    omega
  · rw [concat_eq_append] at separated starts free eq ⊢
    obtain ⟨inits, single, across⟩ := Separated.append_iff.mp separated
    have start := starts prev (by simp)
    have ends : prev.last < seq := by
      by_contra reach
      exact free ⟨prev, by simp, by omega, by omega⟩
    simp only [mergePrevious, getLast?_concat, dropLast_concat] at eq
    split at eq
    · rename_i adjacent
      obtain ⟨rfl, rfl⟩ := Prod.mk.inj eq
      have touches : prev.last + 1 = seq := by
        simp only [canMergeWith, Bool.and_eq_true, decide_eq_true_eq] at adjacent
        omega
      refine ⟨inits, ?_, ?_, ?_, ?_⟩
      · simp only [mergeWith]; omega
      · simp only [mergeWith]; omega
      · intro i member
        have := across i member prev (by simp)
        simp only [mergeWith]; omega
      · intro n
        simp only [mergeWith, covered_append, covered_cons, covered_nil, or_false]
        grind
    · rename_i distant
      obtain ⟨rfl, rfl⟩ := Prod.mk.inj eq
      have gap : prev.last + 1 < seq := by
        simp only [canMergeWith, Bool.and_eq_true, decide_eq_true_eq] at distant
        omega
      refine ⟨separated, le_refl _, rfl, ?_, ?_⟩
      · grind
      · intro n
        grind

/-- The loop takes what touches the interval and leaves the rest apart from it. -/
theorem mergeFollowing_spec {i merged : Interval} {rest : List Interval}
    (nonempty : i.start ≤ i.last) (starts : ∀ j ∈ is, i.last < j.start) (word : i.last + 1 < 2 ^ 64)
    (words : ∀ j ∈ is, j.last + 1 < 2 ^ 64) (eq : mergeFollowing i is = (merged, rest)) :
    Separated rest ∧ merged.start = i.start ∧ i.last ≤ merged.last ∧
      (∀ j ∈ rest, merged.last + 1 < j.start) ∧
      ∀ n, (merged.start ≤ n ∧ n ≤ merged.last) ∨ Covered rest n ↔
        (i.start ≤ n ∧ n ≤ i.last) ∨ Covered is n := by
  induction is generalizing i with
  | nil =>
    obtain ⟨rfl, rfl⟩ := Prod.mk.inj eq
    exact ⟨.nil, rfl, le_refl _, by simp, fun n => Iff.rfl⟩
  | cons it tail ih =>
    obtain ⟨here, next, later⟩ := Separated.cons_iff.mp separated
    have above := starts it (by simp)
    have wordIt := words it (by simp)
    simp only [mergeFollowing] at eq
    split at eq
    · rename_i adjacent
      have touches : it.start = i.last + 1 := by
        simp only [canMergeWith, Bool.and_eq_true, decide_eq_true_eq] at adjacent
        omega
      have joined : i.mergeWith it = ⟨i.start, it.last⟩ := by
        simp only [mergeWith, Interval.mk.injEq]; omega
      rw [joined] at eq
      obtain ⟨apart, start, reach, beyond, cover⟩ := ih (i := ⟨i.start, it.last⟩) later
        (by simp only; omega) (fun j member => by have := next j member; simp only; omega) wordIt
        (fun j member => words j (by simp [member])) eq
      refine ⟨apart, start, by simp only at reach; omega, beyond, ?_⟩
      intro n
      rw [cover n, covered_cons]
      grind
    · rename_i distant
      obtain ⟨rfl, rfl⟩ := Prod.mk.inj eq
      have gap : i.last + 1 < it.start := by
        simp only [canMergeWith, Bool.and_eq_true, decide_eq_true_eq] at distant
        omega
      grind

end

/-- Insertion between the intervals that end before and those that start after. -/
theorem insert_between {left right : List Interval} {i : Interval} (nonempty : i.start ≤ i.last)
    (lefts : ∀ j ∈ left, j.start < i.start) (rights : ∀ j ∈ right, i.last < j.start) :
    insert (left ++ right) i = left ++ i :: right := by
  have absent : i ∉ left ++ right := by grind
  have ordered : ∀ j ∈ left, j.before i = true := by grind [before]
  have stops : right.takeWhile (·.before i) = [] ∧ right.dropWhile (·.before i) = right := by
    cases right with
    | nil => exact ⟨rfl, rfl⟩
    | cons first rest =>
      have notBefore : first.before i = false := by grind [before]
      simp [notBefore]
  rw [insert, if_neg absent, below, fromBound, takeWhile_append_of_pos ordered,
    dropWhile_append_of_pos ordered, stops.1, stops.2, append_nil]

theorem add_spec {size : Nat} (separated : Separated is) (within : ∀ i ∈ is, i.last < size)
    (word : size < 2 ^ 64) (below_size : seq < size) (free : ¬Covered is seq) :
    Separated (add is seq) ∧ ∀ n, Covered (add is seq) n ↔ n = seq ∨ Covered is n := by
  have split := below_append_fromBound is ⟨seq, seq⟩
  have freeBelow : ¬Covered (below is ⟨seq, seq⟩) seq := fun h =>
    free (by rw [← split, covered_append]; exact .inl h)
  have freeAbove : ¬Covered (fromBound is ⟨seq, seq⟩) seq := fun h =>
    free (by rw [← split, covered_append]; exact .inr h)
  obtain ⟨kept, joined, previous⟩ : ∃ kept joined,
      mergePrevious (below is ⟨seq, seq⟩) ⟨seq, seq⟩ = (kept, joined) := ⟨_, _, rfl⟩
  obtain ⟨merged, rest, following⟩ : ∃ merged rest,
      mergeFollowing joined (fromBound is ⟨seq, seq⟩) = (merged, rest) := ⟨_, _, rfl⟩
  obtain ⟨keptApart, start, last, keptBelow, keptCover⟩ := mergePrevious_spec
    (separated.below ⟨seq, seq⟩) (fun _ => start_lt_of_mem_below separated) freeBelow
    (by omega) previous
  have above : ∀ j ∈ fromBound is ⟨seq, seq⟩, joined.last < j.start := by
    intro j member
    have bound := le_start_of_mem_fromBound separated member
    have nonempty := (separated.fromBound ⟨seq, seq⟩).nonempty j member
    by_contra reach
    exact freeAbove ⟨j, member, by omega, by omega⟩
  have words : ∀ j ∈ fromBound is ⟨seq, seq⟩, j.last + 1 < 2 ^ 64 := by
    intro j member
    have := within j (by rw [← split]; simp [member])
    omega
  obtain ⟨restApart, mergedStart, mergedLast, restAbove, restCover⟩ := mergeFollowing_spec
    (separated.fromBound ⟨seq, seq⟩) (by omega) above (by omega) words following
  have result : add is seq = kept ++ merged :: rest := by
    simp only [add, previous, following]
    apply insert_between (by omega)
    · intro j member
      have nonempty := keptApart.nonempty j member
      grind
    · grind
  rw [result]
  constructor
  · refine Separated.append_iff.mpr ⟨keptApart,
      Separated.cons_iff.mpr ⟨by omega, restAbove, restApart⟩, ?_⟩
    grind
  · intro n
    rw [covered_append, covered_cons, restCover n, ← or_assoc, keptCover n, or_assoc,
      ← covered_append, split]

/-- From a position on, the gaps hold the numbers that no interval holds. -/
theorem mem_gapsFrom {size pos : Nat} (separated : Separated is)
    (within : ∀ i ∈ is, i.last < size) (word : size < 2 ^ 64) (starts : ∀ i ∈ is, pos ≤ i.start)
    (n : Nat) : (∃ gap ∈ gapsFrom size pos is, gap.1 ≤ n ∧ n ≤ gap.2) ↔
      pos ≤ n ∧ n < size ∧ ¬Covered is n := by
  induction is generalizing pos with
  | nil =>
    simp only [gapsFrom, covered_nil, not_false_eq_true, and_true]
    split
    · simp only [mem_singleton, exists_eq_left]; omega
    · simp only [not_mem_nil, false_and, exists_false, false_iff]; omega
  | cons i rest ih =>
    obtain ⟨nonempty, next, later⟩ := Separated.cons_iff.mp separated
    have last := within i (by simp)
    have wraps : (i.last + 1) % 2 ^ 64 = i.last + 1 := Nat.mod_eq_of_lt (by omega)
    have tail := @ih (i.last + 1) later (fun j member => within j (by simp [member]))
      (fun j member => by have := next j member; omega)
    have beyond : Covered rest n → i.last + 1 < n := by
      rintro ⟨j, member, low, _⟩
      have := next j member
      omega
    simp only [gapsFrom, wraps, mem_append, or_and_right, exists_or, tail, covered_cons]
    split
    · simp only [mem_singleton, exists_eq_left]
      grind
    · simp only [not_mem_nil, false_and, exists_false, false_or]
      grind

end Interval

namespace Inventory

/-- `std::out_of_range`, and the exceptions a session raises itself. -/
inductive SessionError
  | outOfRange (what : String)
  | agentSessionException (what : String)
  deriving DecidableEq, Repr

structure GapSet where
  size : Nat
  observedCount : Nat
  allObserved : Bool
  intervals : List Interval
  deriving DecidableEq, Repr

namespace GapSet

def ofSize (size : Nat) : GapSet :=
  { size, observedCount := 0, allObserved := size == 0, intervals := [] }

/-- The part of `observe` for a number that no interval holds. -/
def observeNew (g : GapSet) (seq : Nat) : GapSet :=
  let intervals := Interval.add g.intervals seq
  { g with
    observedCount := (g.observedCount + 1) % 2 ^ 64
    intervals
    allObserved := g.allObserved || intervals == [⟨0, g.size - 1⟩] }

def observe (g : GapSet) (seq : Nat) : Except SessionError GapSet :=
  if g.size ≤ seq then .error (.outOfRange "Sequence number out of range")
  else if g.allObserved then .ok g
  else if Interval.holds g.intervals seq then .ok g
  else .ok (g.observeNew seq)

def empty (g : GapSet) : Bool := if g.size == 0 then true else g.allObserved

def contains (g : GapSet) (seq : Nat) : Bool :=
  if g.size ≤ seq then false
  else if g.allObserved then true
  else Interval.holds g.intervals seq

def ranges (g : GapSet) : List (Nat × Nat) :=
  if g.size == 0 || g.allObserved then []
  else if g.intervals.isEmpty then [(0, g.size - 1)]
  else Interval.gapsFrom g.size 0 g.intervals

/-- The set stands for the numbers observed so far: its intervals are separated, lie below the
size and hold exactly these numbers. -/
structure Records (g : GapSet) (observed : Finset Nat) : Prop where
  word : g.size < 2 ^ 64
  separated : Interval.Separated g.intervals
  within : ∀ i ∈ g.intervals, i.last < g.size
  covered : ∀ n, Interval.Covered g.intervals n ↔ n ∈ observed
  all : g.allObserved = true ↔ ∀ n < g.size, n ∈ observed
  count : g.observedCount = observed.card

namespace Records

variable {g : GapSet} {observed : Finset Nat} {seq : Nat}

theorem ofSize {size : Nat} (word : size < 2 ^ 64) : Records (ofSize size) ∅ where
  word := word
  separated := .nil
  within := by simp [GapSet.ofSize]
  covered := by simp [GapSet.ofSize]
  all := by
    simp only [GapSet.ofSize, beq_iff_eq, Finset.notMem_empty, imp_false, not_lt]
    constructor
    · intro zero n; omega
    · intro none; have := none 0; omega
  count := rfl

theorem lt_size (records : Records g observed) {n : Nat} (member : n ∈ observed) : n < g.size := by
  obtain ⟨i, present, _, high⟩ := (records.covered n).mpr member
  have := records.within i present
  omega

theorem observe_error (out : g.size ≤ seq) :
    g.observe seq = .error (.outOfRange "Sequence number out of range") := by
  simp [observe, out]

theorem exists_observe (bound : seq < g.size) : ∃ g', g.observe seq = .ok g' := by
  simp only [observe, Nat.not_le.mpr bound, if_false]
  split
  · exact ⟨_, rfl⟩
  · split <;> exact ⟨_, rfl⟩

section

variable (records : Records g observed)
include records

theorem observe_again (member : seq ∈ observed) : g.observe seq = .ok g := by
  have bound := records.lt_size member
  have held : Interval.holds g.intervals seq = true :=
    (Interval.holds_iff records.separated).mpr ((records.covered seq).mpr member)
  simp [observe, held, Nat.not_le.mpr bound]

theorem observe_ok (bound : seq < g.size) :
    ∃ g', g.observe seq = .ok g' ∧ g'.size = g.size ∧ Records g' (insert seq observed) := by
  by_cases member : seq ∈ observed
  · exact ⟨g, records.observe_again member, rfl, by rwa [Finset.insert_eq_of_mem member]⟩
  have free : ¬Interval.Covered g.intervals seq := by rwa [records.covered]
  have missing : g.allObserved = false := by
    by_contra all
    exact member (records.all.mp (by simpa using all) seq bound)
  have unheld : Interval.holds g.intervals seq = false := by
    rw [Bool.eq_false_iff, ne_eq, Interval.holds_iff records.separated]
    exact free
  obtain ⟨separated, cover⟩ := Interval.add_spec records.separated records.within records.word
    bound free
  have covered : ∀ n, Interval.Covered (Interval.add g.intervals seq) n ↔
      n ∈ insert seq observed := by
    intro n
    rw [cover n, records.covered n, Finset.mem_insert]
  have below : ∀ n ∈ insert seq observed, n < g.size := by
    intro n inserted
    rcases Finset.mem_insert.mp inserted with rfl | old
    · exact bound
    · exact records.lt_size old
  refine ⟨g.observeNew seq, by simp [observe, missing, unheld, Nat.not_le.mpr bound], rfl, ?_⟩
  have spans : Interval.add g.intervals seq = [⟨0, g.size - 1⟩] ↔
      ∀ n < g.size, n ∈ insert seq observed := by
    constructor
    · intro eq n small
      rw [← covered n, eq]
      exact ⟨⟨0, g.size - 1⟩, by simp, Nat.zero_le n, Nat.le_sub_one_of_lt small⟩
    · intro all
      apply separated.eq_singleton
      intro n
      rw [covered n]
      exact ⟨fun inserted => by have := below n inserted; omega, fun small => all n (by omega)⟩
  constructor
  · exact records.word
  · exact separated
  · intro i present
    exact below _ ((covered _).mp ⟨i, present, separated.nonempty i present, le_refl _⟩)
  · exact covered
  · simpa [observeNew, missing] using spans
  · have fits : (insert seq observed).card ≤ g.size := by
      have sub : insert seq observed ⊆ Finset.range g.size := fun n inserted =>
        Finset.mem_range.mpr (below n inserted)
      simpa using Finset.card_le_card sub
    have word := records.word
    rw [Finset.card_insert_of_notMem member] at fits ⊢
    simp only [observeNew, records.count]
    exact Nat.mod_eq_of_lt (by omega)

theorem empty_iff : g.empty = true ↔ ∀ n < g.size, n ∈ observed := by
  simp only [empty]
  split
  · rename_i zero
    simp only [beq_iff_eq] at zero
    simp [zero]
  · exact records.all

theorem contains_iff : g.contains seq = true ↔ seq ∈ observed := by
  have held := @Interval.holds_iff _ seq records.separated
  have inside : seq ∈ observed → seq < g.size := records.lt_size
  have all := records.all
  have covered := records.covered seq
  grind [contains]

/-- The reported ranges hold exactly the numbers still missing. -/
theorem mem_ranges (n : Nat) :
    (∃ gap ∈ g.ranges, gap.1 ≤ n ∧ n ≤ gap.2) ↔ n < g.size ∧ n ∉ observed := by
  simp only [ranges]
  split
  · rename_i done
    have all : ∀ n < g.size, n ∈ observed := by
      rcases Bool.or_eq_true .. |>.mp done with zero | all
      · simp only [beq_iff_eq] at zero
        omega
      · exact records.all.mp all
    simp only [not_mem_nil, false_and, exists_false, false_iff, not_and, not_not]
    exact all n
  · have gaps := Interval.mem_gapsFrom records.separated records.within records.word
      (fun i _ => Nat.zero_le i.start) n
    rw [records.covered n] at gaps
    split
    · rename_i done none
      have positive : 0 < g.size := by
        simp only [Bool.or_eq_true, beq_iff_eq, not_or] at done
        omega
      rw [isEmpty_iff.mp none] at gaps
      simpa [Interval.gapsFrom, positive] using gaps
    · simpa using gaps

end

end Records

end GapSet

end Inventory

end GuardSarm
