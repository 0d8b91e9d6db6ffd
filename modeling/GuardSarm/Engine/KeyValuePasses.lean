import GuardSarm.Engine.KeyValue

/-!
# The two passes over a list of keys and values

The passes cut a text at the same places as long as nothing inside a separator
catches the eye of the search that starts at the key: a quote, which would flip
the flag of one pass only, or the start of a delimiter.

* `findNext_skip`: a search passes over places where there is nothing to see.
-/

namespace GuardSarm.Hlp.Kv

open List

variable {kv : Kv} {target text : Text} {i j : Nat}

/-- A quote that is not escaped. -/
def QuoteAt (kv : Kv) (text : Text) (i : Nat) : Prop :=
  text[i]? = some kv.quote ∧ kv.isEscaped text i = false

/-- The target, not escaped. -/
def TargetAt (kv : Kv) (target text : Text) (i : Nat) : Prop :=
  target <+: text.drop i ∧ kv.isEscaped text i = false

section search

theorem findNext_step (inside : i < text.length) (noQuote : ¬ kv.QuoteAt text i)
    (noTarget : ¬ kv.TargetAt target text i) (inQuotes : Bool) :
    kv.findNext target text inQuotes i = kv.findNext target text inQuotes (i + 1) := by
  rw [QuoteAt] at noQuote
  rw [findNext, if_pos inside, if_neg noQuote, if_neg]
  intro seen
  simp only [Bool.and_eq_true, isPrefixOf_iff_prefix, Bool.not_eq_true'] at seen
  exact noTarget ⟨seen.1.1, seen.2⟩

theorem findNext_here (inside : i < text.length) (noQuote : ¬ kv.QuoteAt text i)
    (there : kv.TargetAt target text i) : kv.findNext target text false i = (some i, false) := by
  rw [QuoteAt] at noQuote
  rw [findNext, if_pos inside, if_neg noQuote, if_pos]
  simp [there.1, there.2, isPrefixOf_iff_prefix]

variable {stop : Nat}

theorem findNext_skip (from_le : i ≤ stop) (inside : stop ≤ text.length)
    (noQuote : ∀ k, i ≤ k → k < stop → ¬ kv.QuoteAt text k)
    (noTarget : ∀ k, i ≤ k → k < stop → ¬ kv.TargetAt target text k) (inQuotes : Bool) :
    kv.findNext target text inQuotes i = kv.findNext target text inQuotes stop := by
  induction from_le using Nat.decreasingInduction with
  | self => rfl
  | of_succ k below ih =>
    rw [findNext_step (by omega) (noQuote k le_rfl below) (noTarget k le_rfl below)]
    exact ih (fun m above => noQuote m (by omega)) fun m above => noTarget m (by omega)

variable {inQuotes flag : Bool}

theorem of_findNext (found : kv.findNext target text inQuotes i = (some j, flag)) :
    i ≤ j ∧ j < text.length ∧ ¬ kv.QuoteAt text j ∧ kv.TargetAt target text j ∧ flag = false := by
  fun_induction findNext kv target text inQuotes i with
  | case1 inQuotes i inside quote double ih
  | case2 inQuotes i inside quote single ih => obtain ⟨le, rest⟩ := ih found; exact ⟨by omega, rest⟩
  | case3 inQuotes i inside noQuote seen =>
    cases found
    simp only [Bool.and_eq_true, isPrefixOf_iff_prefix, Bool.not_eq_true'] at seen
    exact ⟨le_rfl, inside, noQuote, ⟨seen.1.1, seen.2⟩, seen.1.2⟩
  | case4 inQuotes i inside noQuote unseen ih => obtain ⟨le, rest⟩ := ih found; exact ⟨by omega, rest⟩
  | case5 => cases found

/-- Without quotes, a search does not pass over a target. -/
theorem findNext_le (from_le : i ≤ j) (inside : j < text.length)
    (noQuote : ∀ k, i ≤ k → k ≤ j → ¬ kv.QuoteAt text k) (there : kv.TargetAt target text j) :
    ∃ k, k ≤ j ∧ kv.findNext target text false i = (some k, false) := by
  induction from_le using Nat.decreasingInduction with
  | self => exact ⟨j, le_rfl, findNext_here inside (noQuote j le_rfl le_rfl) there⟩
  | of_succ k below ih =>
    obtain ⟨m, bound, found⟩ := ih fun m above => noQuote m (by omega)
    by_cases here : kv.TargetAt target text k
    · exact ⟨k, below.le, findNext_here (by omega) (noQuote k le_rfl below.le) here⟩
    · exact ⟨m, bound, by rw [findNext_step (by omega) (noQuote k le_rfl below.le) here, found]⟩

/-- Two searches from the same place are in the same state where the first one ends. -/
theorem findNext_sync {other : Text} (found : kv.findNext target text inQuotes i = (some j, flag))
    (later : ∀ k, (kv.findNext other text inQuotes i).1 = some k → j ≤ k) :
    kv.findNext other text inQuotes i = kv.findNext other text false j := by
  fun_induction findNext kv target text inQuotes i with
  | case1 inQuotes i inside quote double ih =>
    have same : kv.findNext other text inQuotes i = kv.findNext other text inQuotes (i + 2) := by
      rw [findNext, if_pos inside, if_pos quote, if_pos double]
    rw [same] at later ⊢
    exact ih found later
  | case2 inQuotes i inside quote single ih =>
    have same : kv.findNext other text inQuotes i = kv.findNext other text (!inQuotes) (i + 1) := by
      rw [findNext, if_pos inside, if_pos quote, if_neg single]
    rw [same] at later ⊢
    exact ih found later
  | case3 inQuotes i inside noQuote seen =>
    cases found
    simp only [Bool.and_eq_true, Bool.not_eq_true'] at seen
    rw [seen.1.2]
  | case4 inQuotes i inside noQuote unseen ih =>
    obtain ⟨above, -⟩ := of_findNext found
    by_cases seen : (other.isPrefixOf (text.drop i) && !inQuotes && !kv.isEscaped text i) = true
    · have here : kv.findNext other text inQuotes i = (some i, inQuotes) := by
        rw [findNext, if_pos inside, if_neg noQuote, if_pos seen]
      rw [here] at later
      have := later i rfl
      omega
    · have same : kv.findNext other text inQuotes i = kv.findNext other text inQuotes (i + 1) := by
        rw [findNext, if_pos inside, if_neg noQuote, if_neg seen]
      rw [same] at later ⊢
      exact ih found later
  | case5 => cases found

theorem isEscaped_take {n : Nat} (bound : i ≤ n) :
    kv.isEscaped (text.take n) i = kv.isEscaped text i := by
  by_cases first : i = 0
  · simp [isEscaped, first]
  · rw [isEscaped, isEscaped, getElem?_take_of_lt (by omega)]

/-- A search finds the same place in a prefix that holds the target there. -/
theorem findNext_take {n : Nat} (nonempty : target ≠ [])
    (found : kv.findNext target text inQuotes i = (some j, flag)) (fits : j + target.length ≤ n) :
    kv.findNext target (text.take n) inQuotes i = (some j, flag) := by
  have long : 0 < target.length := length_pos_iff.mpr nonempty
  fun_induction findNext kv target text inQuotes i with
  | case1 inQuotes i inside quote double ih =>
    obtain ⟨above, -⟩ := of_findNext found
    rw [findNext, if_pos (by rw [length_take]; omega), isEscaped_take (by omega),
      getElem?_take_of_lt (by omega), getElem?_take_of_lt (by omega), if_pos quote,
      if_pos double]
    exact ih found
  | case2 inQuotes i inside quote single ih =>
    obtain ⟨above, -⟩ := of_findNext found
    rw [findNext, if_pos (by rw [length_take]; omega), isEscaped_take (by omega),
      getElem?_take_of_lt (by omega), getElem?_take_of_lt (by omega), if_pos quote,
      if_neg single]
    exact ih found
  | case3 inQuotes i inside noQuote seen =>
    cases found
    rw [findNext, if_pos (by rw [length_take]; omega), isEscaped_take (by omega),
      getElem?_take_of_lt (by omega), if_neg noQuote, if_pos]
    simp only [Bool.and_eq_true, isPrefixOf_iff_prefix] at seen ⊢
    refine ⟨⟨?_, seen.1.2⟩, seen.2⟩
    rw [drop_take]
    exact (prefix_take_iff.mpr ⟨seen.1.1, by omega⟩)
  | case4 inQuotes i inside noQuote unseen ih =>
    obtain ⟨above, -⟩ := of_findNext found
    rw [findNext, if_pos (by rw [length_take]; omega), isEscaped_take (by omega),
      getElem?_take_of_lt (by omega), if_neg noQuote, if_neg]
    · exact ih found
    · intro seen
      apply unseen
      simp only [Bool.and_eq_true, isPrefixOf_iff_prefix] at seen ⊢
      rw [drop_take] at seen
      exact ⟨⟨seen.1.1.trans ( take_prefix _ _), seen.1.2⟩, seen.2⟩
  | case5 => cases found

end search

section pairs

/-- The two texts of a pair. -/
def Pair.raw (pair : Pair) : Text × Text := (pair.key, pair.value)

/-- A pair that the syntactic pass delimits at `pos`, with the place where it goes on. -/
inductive Delimited (kv : Kv) (text : Text) (pos sepPos : Nat) : Text → Nat → Prop
  | delimiter {delimPos : Nat} :
      kv.findNext kv.delim text false pos = (some delimPos, false) → sepPos ≤ delimPos →
      Delimited kv text pos sepPos (cut text (sepPos + kv.sep.length) delimPos)
        (delimPos + kv.delim.length)
  | last : kv.findNext kv.delim text false pos = (none, false) →
      Delimited kv text pos sepPos (text.drop (sepPos + kv.sep.length)) text.length

/-- What the syntactic pass makes of a text from `pos` on. -/
inductive Chain (kv : Kv) (text : Text) : Nat → List Pair → Nat → Prop
  | stop {pos : Nat} : Chain kv text pos [] pos
  | pair {pos sepPos next last : Nat} {value : Text} {pairs : List Pair} :
      pos < text.length → kv.findNext kv.sep text false pos = (some sepPos, false) → pos < sepPos →
      Delimited kv text pos sepPos value next → Chain kv text next pairs last →
      Chain kv text pos (⟨pos, sepPos, cut text pos sepPos, value⟩ :: pairs) last

/-- A pair that is accepted leaves the quote flag down. -/
theorem of_validateKeyValue {pos next : Nat} {pair : Pair} {flag : Bool}
    (valid : kv.validateKeyValue text pos false = .ok (pair, next, flag)) :
    ∃ sepPos value, pair = ⟨pos, sepPos, cut text pos sepPos, value⟩ ∧ flag = false ∧
      kv.findNext kv.sep text false pos = (some sepPos, false) ∧ pos < sepPos ∧
      Delimited kv text pos sepPos value next := by
  rw [validateKeyValue] at valid
  cases separator : kv.findNext kv.sep text false pos with
  | mk sepPos sepFlag =>
    rw [separator] at valid
    cases sepPos with
    | none => cases valid
    | some sepPos =>
      obtain ⟨above, -, -, -, rfl⟩ := of_findNext separator
      cases delimiter : kv.findNext kv.delim text false pos with
      | mk delimPos delimFlag =>
        simp only [delimiter] at valid
        cases delimPos with
        | none =>
          dsimp only at valid
          split at valid
          · cases valid
          · rename_i other
            split at valid
            · cases valid
            · rename_i closed
              obtain rfl : delimFlag = false := by simpa using closed
              cases valid
              exact ⟨sepPos, _, rfl, rfl, rfl, by omega, .last delimiter⟩
        | some delimPos =>
          obtain ⟨-, -, -, -, rfl⟩ := of_findNext delimiter
          dsimp only at valid
          split at valid
          · cases valid
          · rename_i inOrder
            cases valid
            exact ⟨sepPos, _, rfl, rfl, rfl, by omega, .delimiter delimiter (by omega)⟩

variable {pairs : List Pair}

theorem chain_of_synLoop (rounds : Nat) {pos last : Nat}
    (read : kv.synLoop text rounds pos false = (pairs, last)) : Chain kv text pos pairs last := by
  induction rounds generalizing pos pairs with
  | zero => cases read; exact .stop
  | succ rounds ih =>
    rw [synLoop] at read
    split at read
    · rename_i inside
      split at read
      · cases read; exact .stop
      · rename_i pair next flag valid
        obtain ⟨sepPos, value, rfl, rfl, found, after, delimited⟩ := of_validateKeyValue valid
        cases read
        exact .pair inside found after delimited (ih rfl)
    · cases read; exact .stop

/-- Nothing inside the separator of a pair catches the eye: no quote, and no delimiter except one
that ends the text. -/
structure Clean (kv : Kv) (text : Text) (pair : Pair) : Prop where
  noQuote : ∀ k, pair.sepPos ≤ k → k < pair.sepPos + kv.sep.length → ¬ kv.QuoteAt text k
  noDelim : ∀ k, pair.sepPos ≤ k → k < pair.sepPos + kv.sep.length →
    kv.TargetAt kv.delim text k → k + kv.delim.length = text.length

section

variable {pos sepPos next last : Nat} {value : Text}

theorem TargetAt.length_le (there : kv.TargetAt target text i) (inside : i ≤ text.length) :
    i + target.length ≤ text.length := by
  have length := there.1.length_le
  rw [length_drop] at length
  omega

theorem Delimited.search (delimited : Delimited kv text pos sepPos value next)
    (separator : kv.findNext kv.sep text false pos = (some sepPos, false)) :
    kv.findNext kv.delim text false pos = kv.findNext kv.delim text false sepPos := by
  apply findNext_sync separator
  cases delimited with
  | delimiter found after => intro k same; rw [found] at same; cases same; exact after
  | last found => intro k same; rw [found] at same; cases same

/-- No delimiter begins inside the separator if the search goes beyond it. -/
theorem not_targetAt_of_beyond (inside : stop ≤ text.length)
    (noQuote : ∀ k, i ≤ k → k < stop → ¬ kv.QuoteAt text k)
    (beyond : ∀ k, (kv.findNext target text false i).1 = some k → stop ≤ k) :
    ∀ k, i ≤ k → k < stop → ¬ kv.TargetAt target text k := by
  intro k above below there
  obtain ⟨m, bound, found⟩ := findNext_le above (by omega)
    (fun l le lt => noQuote l le (by omega)) there
  have := beyond m (by rw [found])
  omega

theorem Delimited.next_le (delimited : Delimited kv text pos sepPos value next) :
    next ≤ text.length := by
  cases delimited with
  | delimiter found _ =>
    obtain ⟨-, inside, -, there, -⟩ := of_findNext found
    exact there.length_le inside.le
  | last => exact le_rfl

theorem Delimited.lt_next (delimited : Delimited kv text pos sepPos value next)
    (separator : kv.findNext kv.sep text false pos = (some sepPos, false))
    (delim : kv.delim ≠ []) : pos < next := by
  obtain ⟨above, inside, -⟩ := of_findNext separator
  have long : 0 < kv.delim.length := length_pos_iff.mpr delim
  cases delimited with
  | delimiter _ after => omega
  | last => omega

theorem Chain.bounds (chain : Chain kv text pos pairs last)
    (delim : kv.delim ≠ []) (inside : pos ≤ text.length) : pos ≤ last ∧ last ≤ text.length := by
  induction chain with
  | stop => exact ⟨le_rfl, inside⟩
  | pair _ separator _ delimited _ ih =>
    obtain ⟨above, below⟩ := ih delimited.next_le
    exact ⟨(delimited.lt_next separator delim).le.trans above, below⟩

theorem cut_wrapped (wrapped : stop < i) : cut text i stop = text.drop i :=
  if_pos wrapped

theorem cut_take {n stop : Nat} (inOrder : i ≤ stop) (bound : stop ≤ n) :
    cut (text.take n) i stop = cut text i stop := by
  rw [cut, cut, if_neg (by omega), if_neg (by omega), drop_take, take_take,
    min_eq_left (by omega)]

theorem semLoop_end (rounds : Nat) (behind : text.length ≤ pos) :
    kv.semLoop text rounds pos = [] := by
  cases rounds with
  | zero => rfl
  | succ rounds => rw [semLoop, if_neg (by omega)]

theorem semLoop_last {flag : Bool} (inside : pos < text.length)
    (separator : kv.findNext kv.sep text false pos = (some sepPos, flag))
    (none : (kv.findNext kv.delim text false (sepPos + kv.sep.length)).1 = none) (rounds : Nat) :
    kv.semLoop text (rounds + 1) pos =
      [(cut text pos sepPos, text.drop (sepPos + kv.sep.length))] := by
  simp only [semLoop, if_pos inside, separator, none]

theorem findNext_short {inQuotes : Bool} (short : text.length < i + target.length) :
    (kv.findNext target text inQuotes i).1 = none := by
  cases found : kv.findNext target text inQuotes i with
  | mk place flag =>
    cases place with
    | none => rfl
    | some j =>
      obtain ⟨above, inside, -, there, -⟩ := of_findNext found
      have := there.length_le inside.le
      omega

/-- One round of the semantic pass, on a pair that is clean. -/
theorem semLoop_pair (sep : kv.sep ≠ []) (delim : kv.delim ≠ [])
    (separator : kv.findNext kv.sep text false pos = (some sepPos, false))
    (delimited : Delimited kv text pos sepPos value next) (bound : next ≤ last)
    (whole : last ≤ text.length)
    (clean : Clean kv text ⟨pos, sepPos, cut text pos sepPos, value⟩) (rounds : Nat) :
    kv.semLoop (text.take last) (rounds + 1) pos =
      (cut text pos sepPos, value) :: kv.semLoop (text.take last) rounds next := by
  obtain ⟨above, inside, -, sepAt, -⟩ := of_findNext separator
  have valStart := sepAt.length_le inside.le
  have search := delimited.search separator
  -- the searches from the key and from the value agree if nothing is found inside the separator
  have skip : (∀ k, (kv.findNext kv.delim text false pos).1 = some k →
      sepPos + kv.sep.length ≤ k) → kv.findNext kv.delim text false pos =
        kv.findNext kv.delim text false (sepPos + kv.sep.length) := by
    intro beyond
    rw [search] at beyond ⊢
    exact findNext_skip (Nat.le_add_right _ _) valStart clean.noQuote
      (not_targetAt_of_beyond valStart clean.noQuote beyond) false
  cases delimited with
  | last none =>
    obtain rfl : last = text.length := le_antisymm whole bound
    have same := skip (by simp [none])
    rw [take_length, semLoop_end rounds le_rfl,
      semLoop_last (by omega) separator (by rw [← same, none])]
  | @delimiter delimPos found after =>
    by_cases beyond : sepPos + kv.sep.length ≤ delimPos
    · have same := skip (by simpa [found] using beyond)
      have place := findNext_take sep separator (by omega : sepPos + kv.sep.length ≤ last)
      have stop := findNext_take delim (same.symm.trans found) bound
      have long : 0 < kv.delim.length := length_pos_iff.mpr delim
      have inPrefix : pos < (text.take last).length := by rw [length_take]; omega
      simp only [semLoop, if_pos inPrefix, place, stop]
      rw [cut_take above (by omega), cut_take beyond (by omega)]
    · obtain ⟨-, within, -, there, -⟩ := of_findNext found
      have ends : delimPos + kv.delim.length = text.length :=
        clean.noDelim delimPos after (not_le.mp beyond) there
      obtain rfl : last = text.length := by omega
      rw [take_length, semLoop_end rounds ends.ge, cut_wrapped (not_le.mp beyond),
        semLoop_last (by omega) separator (findNext_short (by omega))]

/-- The semantic pass reads the pairs of the syntactic one. -/
theorem semLoop_eq (sep : kv.sep ≠ []) (delim : kv.delim ≠ [])
    (chain : Chain kv text pos pairs last) (inside : pos ≤ text.length)
    (clean : ∀ pair ∈ pairs, Clean kv text pair) {rounds : Nat} (enough : last ≤ pos + rounds) :
    kv.semLoop (text.take last) rounds pos = pairs.map Pair.raw := by
  induction chain generalizing rounds with
  | stop => exact semLoop_end rounds (length_take_le _ _)
  | @pair pos sepPos next last value pairs _ separator _ delimited chain ih =>
    have progress := delimited.lt_next separator delim
    obtain ⟨bound, whole⟩ := chain.bounds delim delimited.next_le
    cases rounds with
    | zero => omega
    | succ rounds =>
      rw [semLoop_pair sep delim separator delimited bound whole (clean _ mem_cons_self),
        ih delimited.next_le (fun pair member => clean pair (mem_cons_of_mem _ member))
          (by omega), map_cons]
      rfl

theorem length_cut (inOrder : i ≤ stop) (bound : stop ≤ text.length) :
    (cut text i stop).length = stop - i := by
  rw [cut, if_neg (by omega), length_take, length_drop]
  omega

theorem cut_injective {other : Text} {stop stop' : Nat} (inOrder : i ≤ stop)
    (bound : stop ≤ text.length) (inOrder' : i ≤ stop') (bound' : stop' ≤ other.length)
    (same : cut text i stop = cut other i stop') : stop = stop' := by
  have lengths := congrArg List.length same
  rw [length_cut inOrder bound, length_cut inOrder' bound'] at lengths
  omega

theorem place_bounds {inQuotes : Bool} (found : (kv.findNext target text inQuotes i).1 = some j) :
    i ≤ j ∧ j < text.length ∧ j + target.length ≤ text.length := by
  cases place : kv.findNext target text inQuotes i with
  | mk result flag =>
    rw [place] at found
    cases found
    obtain ⟨above, inside, -, there, -⟩ := of_findNext place
    exact ⟨above, inside, there.length_le inside.le⟩

/-- A delimiter inside a separator shows in the value, unless it ends the text. -/
theorem ends_of_semLoop {delimPos rounds : Nat} (delim : kv.delim ≠ [])
    (separator : kv.findNext kv.sep text false pos = (some sepPos, false))
    (overlaps : delimPos < sepPos + kv.sep.length)
    (chain : Chain kv text (delimPos + kv.delim.length) pairs last)
    (bound : delimPos + kv.delim.length ≤ text.length)
    (read : kv.semLoop (text.take last) rounds pos =
      (cut text pos sepPos, cut text (sepPos + kv.sep.length) delimPos) :: pairs.map Pair.raw) :
    delimPos + kv.delim.length = text.length := by
  obtain ⟨above, inside, -, sepAt, -⟩ := of_findNext separator
  rw [cut_wrapped overlaps] at read
  cases rounds with
  | zero => cases read
  | succ rounds =>
    rw [semLoop] at read
    split at read
    · split at read
      · cases read
      · rename_i place found
        obtain ⟨from_le, inPrefix, fits⟩ := place_bounds found
        rw [length_take] at inPrefix fits
        dsimp only at read
        split at read
        · rename_i none
          rw [List.cons.injEq, Prod.mk.injEq] at read
          obtain ⟨⟨key, value⟩, others⟩ := read
          obtain rfl : place = sepPos :=
            cut_injective from_le (by rw [length_take]; omega) above inside.le key
          have lengths := congrArg List.length value
          rw [length_drop, length_drop, length_take] at lengths
          obtain rfl : pairs = [] := by simpa using others.symm
          cases chain
          omega
        · rename_i stop delimiter
          obtain ⟨after, within, -⟩ := place_bounds delimiter
          rw [length_take] at within
          rw [List.cons.injEq, Prod.mk.injEq] at read
          obtain ⟨⟨key, value⟩, -⟩ := read
          obtain rfl : place = sepPos :=
            cut_injective from_le (by rw [length_take]; omega) above inside.le key
          have lengths := congrArg List.length value
          rw [length_cut after (by rw [length_take]; omega), length_drop] at lengths
          omega
    · cases read

theorem clean_of_semLoop (sep : kv.sep ≠ []) (delim : kv.delim ≠ [])
    (chain : Chain kv text pos pairs last) (inside : pos ≤ text.length)
    (noQuote : ∀ pair ∈ pairs, ∀ k, pair.sepPos ≤ k → k < pair.sepPos + kv.sep.length →
      ¬ kv.QuoteAt text k) {rounds : Nat}
    (read : kv.semLoop (text.take last) rounds pos = pairs.map Pair.raw) :
    ∀ pair ∈ pairs, Clean kv text pair := by
  induction chain generalizing rounds with
  | stop => simp
  | @pair pos sepPos next last value pairs _ separator _ delimited chain ih =>
    obtain ⟨bound, whole⟩ := chain.bounds delim delimited.next_le
    have first : Clean kv text ⟨pos, sepPos, cut text pos sepPos, value⟩ := by
      have plain := noQuote _ mem_cons_self
      refine ⟨plain, ?_⟩
      intro k above below there
      obtain ⟨-, separated, -, sepAt, -⟩ := of_findNext separator
      have valStart := sepAt.length_le separated.le
      have fits := there.length_le (below.le.trans valStart)
      obtain ⟨m, le, found⟩ := findNext_le above (below.trans_le valStart)
        (fun l from_le to_le => plain l from_le (to_le.trans_lt below)) there
      rw [← delimited.search separator] at found
      cases delimited with
      | last none => rw [none] at found; cases found
      | delimiter same after =>
        rw [same] at found
        cases found
        have ends := ends_of_semLoop delim separator (le.trans_lt below) chain (by omega) read
        omega
    cases rounds with
    | zero => cases read
    | succ rounds =>
      rw [semLoop_pair sep delim separator delimited bound whole first, map_cons,
        List.cons.injEq] at read
      intro pair member
      obtain rfl | member := mem_cons.mp member
      · exact first
      · exact ih delimited.next_le (fun pair member => noQuote pair (mem_cons_of_mem _ member))
          read.2 pair member

end

end pairs

section passes

theorem getKvParser_nonempty {options : List Text} (configured : getKvParser options = .ok kv) :
    kv.sep ≠ [] ∧ kv.delim ≠ [] := by
  unfold getKvParser at configured
  split at configured
  · split at configured
    · cases configured
    · rename_i nonempty
      split at configured
      · split at configured
        · cases configured
        · cases configured
          exact not_or.mp nonempty
      · cases configured
  · cases configured

theorem chain_of_synParser {input : Text} {last : Nat}
    (accepted : kv.synParser input = .ok (pairs, last)) : Chain kv input 0 pairs last := by
  rw [synParser] at accepted
  split at accepted
  · cases accepted
  · split at accepted
    · split at accepted <;> cases accepted
    · exact chain_of_synLoop input.length (Except.ok.inj accepted)

end passes

end GuardSarm.Hlp.Kv
