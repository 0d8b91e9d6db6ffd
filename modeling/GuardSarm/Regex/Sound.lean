import GuardSarm.Regex.Language

/-!
# When a reported match is one

The flag `matched` tells that the class at `pt` has matched before, so that
`+` may be left. Two things go wrong with it. A look-ahead over a class
without repetition moves `pt` on and leaves the flag set for whatever class
comes next (`staleAfter` follows this along a run), and at the end of the
string the pointer is moved over classes by conditions that then fail. Besides,
of two parentheses in a row the second one is compared with the string. A pass
of this kind leaves a part of the pattern out: `skipsItem`, `finishSkips`.

A run without such a pass keeps `Reading` in every state, and what it reports
is an occurrence of the pattern.
-/

namespace GuardSarm.Regex

open List

open Pattern

variable (cfg : Config)

/-- The flag that a pass leaves is that of another class than the one at the pointer. -/
def staleAfter (stale : Bool) (s : State) (c : Char) : Bool :=
  match s.pt with
  | [] => false
  | '\\' :: _ =>
    if regex (charAt s.pt 1) c then
      if !isPlus (charAt s.pt 2) then stale
      else (s.matched || charAt s.pt 2 == '*') && lookAhead c (skipParen (s.pt.drop 3)) == some 2
    else false
  | p :: _ => p == charmap c && stale

/-- The pass moves over a class with `+` for the flag of another class, reports a match for it, or
reads a parenthesis of the pattern as a character of the string. -/
def skipsItem (stale : Bool) (s : State) (c : Char) : Bool :=
  match s.pt with
  | [] => false
  | '\\' :: _ =>
    let next := skipParen (s.pt.drop 3)
    if regex (charAt s.pt 1) c then
      isPlus (charAt s.pt 2) && (s.matched || charAt s.pt 2 == '*') &&
        (lookAhead c next).isSome && next != [] &&
        (charAt next 0 == '(' || (charAt s.pt 2 == '+' && stale))
    else
      stale && s.matched && charAt s.pt 2 != '*' &&
        (if s.pt.drop 3 = [] ∧ s.rCode.isSome then !cfg.endSet else charAt s.pt 2 == '+')
  | p :: _ => p == '(' && charmap c == '('

def plainClass (pt : Text) : Bool := charAt pt 0 == '\\' && !isPlus (charAt pt 2)

/-- Where the pointer is when the last condition is tested. -/
def lastPointer (s : State) : Text := skipParen (if cfg.closures then skipStars s.pt else s.pt)

/-- At the end of the string the flag is used for another class than its own, or a class without
repetition is left out. -/
def finishSkips (stale : Bool) (s : State) : Bool :=
  let pt := lastPointer cfg s
  let stale := stale || (cfg.closures && skipStars s.pt != s.pt)
  s.matched && charAt pt 0 == '\\' &&
    (plainClass pt || (charAt pt 2 == '+' && stale) || plainClass (skipParen (pt.drop 3)))

/-- No pass of the run leaves a part of the pattern out. -/
def readsItemsFrom : Nat → Bool → State → Bool
  | 0, _, _ => true
  | fuel + 1, stale, s =>
    match s.st with
    | [] => !finishSkips cfg stale s
    | c :: _ =>
      let entered := { s with pt := skipParen s.pt }
      !skipsItem cfg stale entered c &&
        match iterate cfg s with
        | .returns _ => true
        | .continues s' => readsItemsFrom fuel (staleAfter stale entered c) s'

def readsItems (fuel : Nat) : Bool := readsItemsFrom cfg fuel false (start cfg)

section items

variable {pt : Text}

@[simp]
theorem charAt_zero (p : Char) (pt : Text) : charAt (p :: pt) 0 = p := rfl

@[simp]
theorem charAt_one (p k : Char) (pt : Text) : charAt (p :: k :: pt) 1 = k := rfl

@[simp]
theorem charAt_two (p k q : Char) (pt : Text) : charAt (p :: k :: q :: pt) 2 = q := rfl

@[simp]
theorem charAt_drop (pt : Text) (i j : Nat) : charAt (pt.drop i) j = charAt pt (i + j) := by
  simp [charAt]

@[simp]
theorem textItems_skipParen (pt : Text) : textItems (skipParen pt) = textItems pt := by
  fun_cases skipParen pt with
  | case1 pt => rw [textItems]
  | case2 => rfl

theorem skipParen_class {pt : Text} (h : charAt pt 0 = '\\') : skipParen pt = pt := by
  fun_cases skipParen pt with
  | case1 => cases h
  | case2 => rfl

theorem exists_of_charAt (escape : charAt pt 0 = '\\') : ∃ rest, pt = '\\' :: rest := by
  cases pt with
  | nil => cases escape
  | cons p rest => exact ⟨rest, congrArg (· :: rest) escape⟩

theorem textItems_plain (escape : charAt pt 0 = '\\') (plain : isPlus (charAt pt 2) = false) :
    textItems pt = ⟨fun x => regex (charAt pt 1) x = true, .once⟩ :: textItems (pt.drop 2) := by
  obtain ⟨rest, rfl⟩ := exists_of_charAt escape
  cases rest with
  | nil =>
    rw [textItems]
    rfl
  | cons k rest => exact textItems_class plain

theorem repeated_of_isPlus (escape : charAt pt 0 = '\\') (repeated : isPlus (charAt pt 2) = true) :
    ∃ k q rest, pt = '\\' :: k :: q :: rest ∧ (q = '+' ∨ q = '*') := by
  obtain ⟨rest, rfl⟩ := exists_of_charAt escape
  match rest with
  | [] | [k] => cases repeated
  | k :: q :: rest => exact ⟨k, q, rest, rfl, by simpa [isPlus, charAt] using repeated⟩

theorem textItems_plus (k : Char) (rest : Text) : textItems ('\\' :: k :: '+' :: rest) =
    ⟨fun x => regex k x = true, .plus⟩ :: textItems rest := by rw [textItems]

theorem textItems_star (k : Char) (rest : Text) : textItems ('\\' :: k :: '*' :: rest) =
    ⟨fun x => regex k x = true, .star⟩ :: textItems rest := by rw [textItems]

end items

abbrev Config.At (pt st : Text) : Prop :=
  Here (textItems cfg.pattern) cfg.beginSet cfg.str (textItems pt) st

/-- The class at the pointer has been read, so that it may be left. -/
def Config.ReadOnce (pt st : Text) : Prop :=
  ∃ k q rest, pt = '\\' :: k :: q :: rest ∧ (q = '+' ∨ q = '*') ∧ cfg.At ('\\' :: k :: '*' :: rest) st

structure Reading (stale : Bool) (s : State) : Prop where
  here : cfg.At s.pt s.st
  read : s.matched = true → stale = false → cfg.ReadOnce s.pt s.st
  saved : ∀ point ∈ s.ptError, cfg.ReadOnce point.1 point.2.tail
  error : ∀ st, s.stError = some st → st <:+ cfg.str
  pending : s.matched = true → stale = true → s.ptError ≠ []

def Step.Sound (stale : Bool) : Step → Prop
  | .returns none => True
  | .returns (some _) => Occurs (textItems cfg.pattern) cfg.beginSet cfg.endSet cfg.str
  | .continues s => Reading cfg stale s

section passes

variable {cfg} {stale : Bool} {s : State} {pt st : Text} {c : Char}

theorem Config.ReadOnce.here (h : cfg.ReadOnce pt st) : cfg.At pt st := by
  obtain ⟨k, q, rest, rfl, rfl | rfl, here⟩ := h
  · rw [Config.At, textItems_star] at here
    rw [Config.At, textItems_plus]
    exact here.plus_of_star
  · exact here

theorem Config.ReadOnce.isPlus (h : cfg.ReadOnce pt st) :
    charAt pt 0 = '\\' ∧ Regex.isPlus (charAt pt 2) = true := by
  obtain ⟨k, q, rest, rfl, rfl | rfl, _⟩ := h
  · exact ⟨rfl, rfl⟩
  · exact ⟨rfl, rfl⟩

theorem Config.ReadOnce.left {k q : Char} {rest : Text} (h : cfg.ReadOnce ('\\' :: k :: q :: rest) st) :
    cfg.At ('\\' :: k :: '*' :: rest) st := by
  obtain ⟨k, q, rest, same, _, here⟩ := h
  cases same
  exact here

/-- A class with a repetition that reads a character has been read. -/
theorem readOnce_of_regex {k q : Char} {rest tail : Text} (repeated : q = '+' ∨ q = '*')
    (here : cfg.At ('\\' :: k :: q :: rest) (c :: tail)) (reads : regex k c = true) :
    cfg.ReadOnce ('\\' :: k :: q :: rest) tail := by
  refine ⟨k, q, rest, rfl, repeated, ?_⟩
  rw [Config.At, textItems_star]
  obtain rfl | rfl := repeated
  · rw [Config.At, textItems_plus] at here
    exact here.first reads
  · rw [Config.At, textItems_star] at here
    exact here.again reads

theorem suffix_of_here {items : List (Item Char)}
    (here : Here (textItems cfg.pattern) cfg.beginSet cfg.str items st) : st <:+ cfg.str := by
  obtain ⟨before, word, split, _⟩ := here
  exact ⟨before ++ word, split.symm⟩

/-- A saved point is one where the class has been read, and a restart begins anew. -/
theorem errorHandling_sound (reading : Reading cfg stale s)
    (pending : s.matched = true → s.ptError ≠ []) : (errorHandling cfg s).Sound cfg false := by
  unfold errorHandling
  cases points : s.ptError with
  | cons point ptError =>
    have read := reading.saved point (by simp [points])
    refine ⟨read.here, fun _ _ => read, fun other member => ?_, reading.error, fun _ => nofun⟩
    exact reading.saved other (by simpa [points] using .inr member)
  | nil =>
    have unset : s.matched = false := by simpa [points] using pending
    cases anchored : cfg.beginSet with
    | true => exact trivial
    | false =>
      have back : s.stError.getD s.st <:+ cfg.str := by
        cases error : s.stError with
        | none => exact suffix_of_here reading.here
        | some st => exact reading.error st error
      obtain ⟨before, split⟩ := (tail_suffix _).trans back
      refine ⟨.start split.symm fun begins => by simp [anchored] at begins, ?_, ?_, nofun, ?_⟩
      · simp [unset]
      · simp
      · simp [unset]

variable {tail : Text}

theorem at_class (here : cfg.At pt (c :: tail)) (escape : charAt pt 0 = '\\')
    (plain : isPlus (charAt pt 2) = false) (reads : regex (charAt pt 1) c = true) :
    cfg.At (pt.drop 2) tail := by
  rw [Config.At, textItems_plain escape plain] at here
  exact here.next reads

theorem at_literal {p : Char} (here : cfg.At (p :: pt) (c :: tail))
    (escape : p ≠ '\\') (paren : p ≠ '(') (same : p = charmap c) : cfg.At pt tail := by
  rw [Config.At, textItems_literal escape paren] at here
  exact here.next same

theorem at_leave {k : Char} {rest : Text} (here : cfg.At ('\\' :: k :: '*' :: rest) st) :
    cfg.At rest st := by
  rw [Config.At, textItems_star] at here
  exact here.leave

/-- What `ok_here` tells of the pattern behind a class. -/
inductive Ahead (c : Char) : Text → Nat → Prop where
  | repeated {next : Text} (escape : charAt next 0 = '\\') (again : isPlus (charAt next 2) = true)
      (reads : regex (charAt next 1) c = true) : Ahead c next 0
  | plain {next : Text} (escape : charAt next 0 = '\\') (once : isPlus (charAt next 2) = false)
      (reads : regex (charAt next 1) c = true) : Ahead c next 2
  | literal {p : Char} {next : Text} (escape : p ≠ '\\') (same : p = charmap c) : Ahead c (p :: next) 1

theorem ahead_of_lookAhead {next : Text} {okHere : Nat} (ahead : lookAhead c next = some okHere)
    (more : next ≠ []) : Ahead c next okHere := by
  unfold lookAhead at ahead
  rw [if_neg more] at ahead
  split_ifs at ahead with escape reads again same
  · cases ahead
    exact .repeated escape again reads
  · cases ahead
    exact .plain escape (by simpa using again) reads
  · obtain ⟨p, next, rfl⟩ := exists_cons_of_ne_nil more
    cases ahead
    exact .literal escape same

theorem save_ne_nil (point : Text × Text) (ptError : List (Text × Text)) :
    save point ptError ≠ [] := by
  unfold save
  split
  · simp
  · rintro rfl
    simp_all

theorem save_read {point : Text × Text} {ptError : List (Text × Text)}
    (read : cfg.ReadOnce point.1 point.2.tail)
    (saved : ∀ point ∈ ptError, cfg.ReadOnce point.1 point.2.tail) :
    ∀ other ∈ save point ptError, cfg.ReadOnce other.1 other.2.tail := by
  unfold save
  split
  · exact forall_mem_cons.mpr ⟨read, saved⟩
  · exact saved

/-- The class at the pointer is left for what reads the character behind it. -/
theorem advance_sound {next tail : Text} {okHere : Nat} {rCode : Option Int}
    {stError : Option Text} {ptError : List (Text × Text)}
    (error : ∀ st, stError = some st → st <:+ cfg.str)
    (saved : ∀ point ∈ ptError, cfg.ReadOnce point.1 point.2.tail) (full : ptError ≠ [])
    (here : cfg.At next (c :: tail)) (ahead : Ahead c next okHere) (paren : charAt next 0 ≠ '(') :
    Reading cfg (okHere == 2)
      ⟨tail, next.drop okHere, charAt next 0 == '\\', rCode, stError, ptError⟩ := by
  cases ahead with
  | repeated escape again reads =>
    obtain ⟨k, q, rest, rfl, repeated⟩ := repeated_of_isPlus escape again
    have read := readOnce_of_regex repeated here reads
    exact ⟨read.here, fun _ _ => read, saved, error, fun _ => nofun⟩
  | plain escape once reads =>
    exact ⟨at_class here escape once reads, fun _ => nofun, saved, error, fun _ _ => full⟩
  | @literal p next escape same =>
    have unset : (p == '\\') = false := by simpa using escape
    refine ⟨at_literal here escape paren same, fun set => ?_, saved, error, fun _ => nofun⟩
    cases unset.symm.trans set

theorem Reading.error_or (reading : Reading cfg stale s) :
    ∀ st, s.stError.or (some s.st) = some st → st <:+ cfg.str := by
  intro st start
  obtain given | ⟨-, same⟩ := Option.or_eq_some_iff.mp start
  · exact reading.error st given
  · cases same
    exact suffix_of_here reading.here

/-- A class without repetition has read the character. The flag cannot be its own. -/
theorem classOnce_sound (reading : Reading cfg stale s) (at_ : s.st = c :: tail)
    (escape : charAt s.pt 0 = '\\') (once : isPlus (charAt s.pt 2) = false)
    (reads : regex (charAt s.pt 1) c = true) : (classMatched cfg s c).Sound cfg stale := by
  have next : classMatched cfg s c = .continues { s with
      pt := s.pt.drop 2, st := s.st.tail, rCode := some (cfg.offset s.st),
      stError := s.stError.or (some s.st) } := by
    simp only [classMatched, charAt_drop, once, Bool.not_false, if_true]
  rw [next]
  refine ⟨?_, fun set own => ?_, reading.saved, ?_, reading.pending⟩
  · have here := reading.here
    rw [at_] at here ⊢
    exact at_class here escape once reads
  · have other := (reading.read set own).isPlus.2
    cases once.symm.trans other
  · exact reading.error_or

/-- A class with a repetition has read the character. -/
theorem classRepeated_sound (reading : Reading cfg stale s) (at_ : s.st = c :: tail)
    (escape : charAt s.pt 0 = '\\') (again : isPlus (charAt s.pt 2) = true)
    (reads : regex (charAt s.pt 1) c = true) (kept : skipsItem cfg stale s c = false) :
    (classMatched cfg s c).Sound cfg (staleAfter stale s c) := by
  obtain ⟨st, pt, matched, rCode, stError, ptError⟩ := s
  obtain ⟨here, read, saved, error, pending⟩ := reading
  dsimp only at *
  subst at_
  obtain ⟨k, q, rest, rfl, repeated⟩ := repeated_of_isPlus escape again
  have read' := readOnce_of_regex repeated here reads
  have stay : ∀ rCode, Reading cfg false ⟨tail, '\\' :: k :: q :: rest, true, rCode, stError, ptError⟩ :=
    fun _ => ⟨read'.here, fun _ _ => read', saved, error, fun _ => nofun⟩
  rw [charAt_one] at reads
  rw [charAt_two] at again
  simp only [classMatched, staleAfter, skipsItem, charAt_one, charAt_two, charAt_zero, reads, again,
    drop_succ_cons, drop_zero, tail_cons, if_true, Bool.true_and, Bool.not_true,
    Bool.false_eq_true, if_false] at kept ⊢
  cases set : matched || q == '*' with
  | false => exact stay _
  | true =>
    simp only [set, Bool.true_and, if_true] at kept ⊢
    cases ahead : lookAhead c (skipParen rest) with
    | none => exact stay _
    | some okHere =>
      by_cases more : skipParen rest = []
      · have one : okHere = 1 := by simpa [more, lookAhead, eq_comm] using ahead
        subst one
        dsimp only
        rw [if_pos more]
        exact stay _
      · simp only [ahead, Option.isSome_some, Bool.true_and, bne_iff_ne.mpr more,
          Bool.or_eq_false_iff, beq_eq_false_iff_ne, Bool.and_eq_false_iff] at kept
        obtain ⟨paren, own⟩ := kept
        have left : cfg.At ('\\' :: k :: '*' :: rest) (c :: tail) := by
          obtain rfl | rfl := repeated
          · have flag : matched = true := by simpa using set
            exact (read flag (own.resolve_left (by simp))).left
          · exact here
        have next : cfg.At (skipParen rest) (c :: tail) := by
          rw [Config.At, textItems_skipParen]
          exact at_leave left
        have points : ∀ point ∈ save ('\\' :: k :: q :: rest, c :: tail) ptError,
            cfg.ReadOnce point.1 point.2.tail := save_read read' saved
        dsimp only
        rw [if_neg more]
        exact advance_sound error points (save_ne_nil _ _) next (ahead_of_lookAhead ahead more) paren

theorem errorHandling_unset {rCode : Option Int} (reading : Reading cfg stale s) :
    (errorHandling cfg { s with matched := false, rCode := rCode }).Sound cfg false := by
  refine @errorHandling_sound cfg false _ ⟨reading.here, nofun, reading.saved, reading.error, nofun⟩ ?_
  nofun

/-- A class may be left when it has `*`, or has been read. -/
theorem at_left (here : cfg.At pt st) (escape : charAt pt 0 = '\\')
    (own : charAt pt 2 = '*' ∨ cfg.ReadOnce pt st) :
    ∃ k q rest, pt = '\\' :: k :: q :: rest ∧ cfg.At ('\\' :: k :: '*' :: rest) st := by
  obtain star | ⟨k, q, rest, same, _, left⟩ := own
  · obtain ⟨k, q, rest, rfl, _⟩ := repeated_of_isPlus escape (by rw [star]; rfl)
    rw [charAt_two] at star
    subst star
    exact ⟨k, '*', rest, rfl, here⟩
  · exact ⟨k, q, rest, same, left⟩

theorem skipsItem_failed (escape : charAt s.pt 0 = '\\') (fails : regex (charAt s.pt 1) c = false) :
    skipsItem cfg stale s c = (stale && s.matched && charAt s.pt 2 != '*' &&
      (if s.pt.drop 3 = [] ∧ s.rCode.isSome then !cfg.endSet else charAt s.pt 2 == '+')) := by
  obtain ⟨st, pt, matched, rCode, stError, ptError⟩ := s
  obtain ⟨rest, rfl⟩ := exists_of_charAt escape
  simp only [skipsItem, fails, Bool.false_eq_true, if_false]

/-- The class at the pointer has not read the character. -/
theorem classFailed_sound (reading : Reading cfg stale s)
    (escape : charAt s.pt 0 = '\\') (fails : regex (charAt s.pt 1) c = false)
    (kept : skipsItem cfg stale s c = false) : (classFailed cfg s).Sound cfg false := by
  rw [skipsItem_failed escape fails] at kept
  unfold classFailed
  split
  case isTrue last =>
    cases ends : cfg.endSet with
    | true => exact errorHandling_unset reading
    | false =>
      obtain ⟨last, set, some⟩ := last
      have own : charAt s.pt 2 = '*' ∨ cfg.ReadOnce s.pt s.st := by
        rw [if_pos ⟨last, some⟩, ends, set] at kept
        cases fresh : stale with
        | false => exact .inr (reading.read set fresh)
        | true => exact .inl (by simpa [fresh] using kept)
      obtain ⟨k, q, rest, same, left⟩ := at_left reading.here escape own
      have nothing : rest = [] := by simpa [same] using last
      subst nothing
      exact (at_leave left).done .nil (by simp [ends])
  case isFalse more =>
    split
    case isTrue plus =>
      obtain ⟨plus, set⟩ := plus
      have fresh : stale = false := by
        have branch : ¬(s.pt.drop 3 = [] ∧ s.rCode.isSome) := fun last => more ⟨last.1, set, last.2⟩
        rw [if_neg branch, plus, set] at kept
        simpa using kept
      obtain ⟨k, q, rest, same, left⟩ := at_left reading.here escape (.inr (reading.read set fresh))
      refine ⟨?_, nofun, reading.saved, reading.error, nofun⟩
      rw [same]
      exact at_leave left
    case isFalse =>
      split
      case isTrue star =>
        obtain ⟨k, q, rest, same, left⟩ := at_left reading.here escape (.inl star)
        refine ⟨?_, nofun, reading.saved, reading.error, nofun⟩
        rw [same]
        exact at_leave left
      case isFalse => exact @errorHandling_unset cfg stale s s.rCode reading

theorem staleAfter_class (escape : charAt s.pt 0 = '\\') : staleAfter stale s c =
    if regex (charAt s.pt 1) c then if !isPlus (charAt s.pt 2) then stale
      else (s.matched || charAt s.pt 2 == '*') && lookAhead c (skipParen (s.pt.drop 3)) == some 2
    else false := by
  obtain ⟨st, pt, matched, rCode, stError, ptError⟩ := s
  obtain ⟨rest, rfl⟩ := exists_of_charAt escape
  rfl

/-- The flag of a class is not set where the pointer is at no class. -/
theorem Reading.pending_of_ne (reading : Reading cfg stale s) (other : charAt s.pt 0 ≠ '\\')
    (set : s.matched = true) : s.ptError ≠ [] := by
  cases fresh : stale with
  | true => exact reading.pending set fresh
  | false => exact absurd (reading.read set fresh).isPlus.1 other

theorem body_sound (reading : Reading cfg stale s) (at_ : s.st = c :: tail)
    (kept : skipsItem cfg stale s c = false) : (body cfg s c).Sound cfg (staleAfter stale s c) := by
  fun_cases body cfg s c with
  | case1 same =>
    have after : staleAfter stale s c = false := by simp [staleAfter, same]
    rw [after]
    exact errorHandling_sound reading (reading.pending_of_ne (by rw [same]; decide))
  | case2 rest same reads =>
    have escape : charAt s.pt 0 = '\\' := by rw [same, charAt_zero]
    cases again : isPlus (charAt s.pt 2) with
    | true => exact classRepeated_sound reading at_ escape again reads kept
    | false =>
      rw [staleAfter_class escape, if_pos reads, again]
      exact classOnce_sound reading at_ escape again reads
  | case3 rest same fails =>
    have escape : charAt s.pt 0 = '\\' := by rw [same, charAt_zero]
    rw [staleAfter_class escape, if_neg fails]
    exact classFailed_sound reading escape (by simpa using fails) kept
  | case4 pt escape same =>
    have after : staleAfter stale s c = stale := by simp [staleAfter, same]
    have paren : charmap c ≠ '(' := by simpa [skipsItem, same] using kept
    rw [after]
    refine ⟨?_, fun set fresh => ?_, reading.saved, reading.error_or, reading.pending⟩
    · have here := reading.here
      rw [at_, same] at here
      rw [at_]
      exact at_literal here escape paren rfl
    · have read := (reading.read set fresh).isPlus.1
      rw [same] at read
      exact absurd read escape
  | case5 p pt escape same other =>
    have after : staleAfter stale s c = false := by simp [staleAfter, same, other]
    rw [after]
    exact errorHandling_sound reading (reading.pending_of_ne (by rw [same]; exact escape))

theorem Reading.entered (reading : Reading cfg stale s) :
    Reading cfg stale { s with pt := skipParen s.pt } := by
  refine ⟨?_, fun set fresh => ?_, reading.saved, reading.error, reading.pending⟩
  · rw [Config.At, textItems_skipParen]
    exact reading.here
  · have read := reading.read set fresh
    rw [skipParen_class read.isPlus.1]
    exact read

theorem at_skipStars (here : cfg.At pt st) : cfg.At (skipStars pt) st := by
  fun_induction skipStars pt with
  | case1 k pt ih => exact ih (at_leave here)
  | case2 => exact here

/-- A class with `*` at the end of the pattern needs no character. -/
theorem matches_of_lastStar (h : (lastStar pt).1 = true) : Matches (textItems pt) [] := by
  unfold lastStar at h
  split_ifs at h with escape star
  rw [charAt_drop] at star
  obtain ⟨k, q, rest, rfl, _⟩ := repeated_of_isPlus escape (by rw [star]; rfl)
  rw [charAt_two] at star
  subst star
  have nothing : skipParen rest = [] := by simpa [endOfFile] using h
  rw [textItems_star, ← textItems_skipParen, nothing]
  exact .starNil .nil

/-- The pointer may move over classes with `*` twice. -/
theorem matches_of_lastStar_twice (plain : plainClass pt = false)
    (h : (lastStar (lastStar pt).2).1 = true) : Matches (textItems pt) [] := by
  by_cases escape : charAt pt 0 = '\\'
  · have again : isPlus (charAt pt 2) = true := by simpa [plainClass, escape] using plain
    obtain ⟨k, q, rest, rfl, rfl | rfl⟩ := repeated_of_isPlus escape again
    · cases h
    · have moved : (lastStar ('\\' :: k :: '*' :: rest)).2 = skipParen rest := rfl
      rw [moved] at h
      rw [textItems_star, ← textItems_skipParen]
      exact .starNil (matches_of_lastStar h)
  · have stays : (lastStar pt).2 = pt := by
      unfold lastStar
      rw [if_neg escape]
    rw [stays] at h
    exact matches_of_lastStar h

/-- What stands behind a class that the end of the string leaves needs no character. -/
theorem matches_of_lastRepeated {k q : Char} {rest : Text} (repeated : q = '+' ∨ q = '*')
    (plain : plainClass (skipParen rest) = false)
    (h : (lastRepeated true ('\\' :: k :: q :: rest)).1 = true ∨
      (lastStar (lastRepeated true ('\\' :: k :: q :: rest)).2).1 = true) :
    Matches (textItems rest) [] := by
  have again : isPlus q = true := by obtain rfl | rfl := repeated <;> rfl
  have step : lastRepeated true ('\\' :: k :: q :: rest) =
      if skipParen rest == [] then (true, skipParen rest) else lastStar (skipParen rest) := by
    simp [lastRepeated, again, endOfFile]
  rw [step] at h
  rw [← textItems_skipParen]
  by_cases nothing : skipParen rest = []
  · rw [nothing]
    exact .nil
  · rw [if_neg (by simpa using nothing)] at h
    obtain h | h := h
    · exact matches_of_lastStar h
    · exact matches_of_lastStar_twice plain h

theorem finish_cases {r : Int} (ends : finish cfg s = some r) :
    lastPointer cfg s = [] ∨ (lastRepeated s.matched (lastPointer cfg s)).1 = true ∨
      (lastStar (lastRepeated s.matched (lastPointer cfg s)).2).1 = true := by
  by_contra none
  simp only [not_or, Bool.not_eq_true] at none
  obtain ⟨more, first, second⟩ := none
  simp only [lastPointer] at more first second
  simp [finish, endOfFile, more, first, second] at ends

theorem Reading.lastPointer (reading : Reading cfg stale s) : cfg.At (lastPointer cfg s) s.st := by
  rw [Config.At, Regex.lastPointer, textItems_skipParen]
  split
  · exact at_skipStars reading.here
  · exact reading.here

theorem finish_sound {r : Int} (reading : Reading cfg stale s) (at_ : s.st = [])
    (kept : finishSkips cfg stale s = false) (ends : finish cfg s = some r) :
    Occurs (textItems cfg.pattern) cfg.beginSet cfg.endSet cfg.str := by
  have here := reading.lastPointer
  rw [at_] at here
  have cases_ := finish_cases ends
  by_cases flagged : charAt (lastPointer cfg s) 0 = '\\' ∧ s.matched = true
  · obtain ⟨escape, set⟩ := flagged
    simp only [finishSkips, escape, set, beq_self_eq_true, Bool.true_and, Bool.or_eq_false_iff,
      Bool.and_eq_false_iff, beq_eq_false_iff_ne, bne_eq_false_iff_eq] at kept
    obtain ⟨⟨repeated, own⟩, plain⟩ := kept
    have again : isPlus (charAt (lastPointer cfg s) 2) = true := by
      simpa [plainClass, escape] using repeated
    have own' : charAt (lastPointer cfg s) 2 = '*' ∨ cfg.ReadOnce (lastPointer cfg s) [] := by
      obtain other | ⟨fresh, stays⟩ := own
      · left
        simpa [isPlus, other] using again
      · right
        have same : lastPointer cfg s = skipParen s.pt := by
          unfold lastPointer
          obtain off | stays := stays
          · rw [off, if_neg (by simp)]
          · rw [stays, ite_self]
        rw [same, ← at_]
        exact reading.entered.read set fresh
    obtain ⟨k, q, rest, same, left⟩ := at_left here escape own'
    rw [same] at again plain cases_
    rw [set] at cases_
    have behind := matches_of_lastRepeated (by simpa [isPlus] using again) plain
      (cases_.resolve_left (by simp))
    exact (at_leave left).done behind fun _ => rfl
  · have moved : lastRepeated s.matched (lastPointer cfg s) = (false, lastPointer cfg s) := by
      unfold lastRepeated
      rw [if_neg flagged]
    rw [moved] at cases_
    obtain nothing | nope | last := cases_
    · rw [nothing] at here
      exact here.done .nil fun _ => rfl
    · cases nope
    · exact here.done (matches_of_lastStar last) fun _ => rfl

theorem iterate_sound (reading : Reading cfg stale s) (at_ : s.st = c :: tail)
    (kept : skipsItem cfg stale { s with pt := skipParen s.pt } c = false) :
    (iterate cfg s).Sound cfg (staleAfter stale { s with pt := skipParen s.pt } c) := by
  have switch : iterate cfg s = if skipParen s.pt = [] ∧ !cfg.endSet then .returns s.rCode
      else body cfg { s with pt := skipParen s.pt } c := by
    unfold iterate
    rw [at_]
  rw [switch]
  split
  case isTrue last =>
    obtain ⟨nothing, open'⟩ := last
    have here := reading.entered.here
    dsimp only at here
    rw [nothing] at here
    cases s.rCode with
    | none => trivial
    | some r => exact here.done .nil fun ends => by simp [ends] at open'
  case isFalse => exact body_sound reading.entered at_ kept

theorem reading_start : Reading cfg false (start cfg) :=
  ⟨@Here.start _ _ _ _ _ [] rfl fun _ => rfl, nofun, nofun, nofun, nofun⟩

/-- Along a run that reads every item, what is reported is an occurrence. -/
theorem osRegexFrom_sound {fuel : Nat} {r : Int} (reading : Reading cfg stale s)
    (kept : readsItemsFrom cfg fuel stale s = true)
    (found : osRegexFrom cfg fuel s = some (some r)) :
    Occurs (textItems cfg.pattern) cfg.beginSet cfg.endSet cfg.str := by
  induction fuel generalizing stale s with
  | zero => cases found
  | succ fuel ih =>
    unfold readsItemsFrom at kept
    unfold osRegexFrom at found
    cases at_ : s.st with
    | nil =>
      rw [at_] at kept
      have last : iterate cfg s = .returns (finish cfg s) := by
        unfold iterate
        rw [at_]
      rw [last] at found
      exact finish_sound reading at_ (by simpa using kept) (Option.some.inj found)
    | cons c tail =>
      rw [at_] at kept
      simp only [Bool.and_eq_true, Bool.not_eq_true'] at kept
      have sound := iterate_sound reading at_ kept.1
      cases pass : iterate cfg s with
      | returns r =>
        rw [pass] at sound found
        cases found
        exact sound
      | continues s' =>
        rw [pass] at sound found kept
        exact ih sound kept.2 found

end passes

/-- The sub pattern whose run reports the match. -/
def reporting (fuel : Nat) (reg : OSRegex) (str : Text) : Option SubPattern :=
  reg.patterns.find? fun sub => (osRegex (reg.config str sub) fuel).join.isSome

/-- The run that reports the match reads every item of its sub pattern. -/
def readsPattern (fuel : Nat) (reg : OSRegex) (str : Text) : Bool :=
  (reporting fuel reg str).all fun sub => readsItems (reg.config str sub) fuel

theorem execute_reports {fuel : Nat} {reg : OSRegex} {str : Text} {r : Int}
    (found : execute fuel reg str = some (some r)) :
    ∃ sub ∈ reg.patterns, reporting fuel reg str = some sub ∧
      osRegex (reg.config str sub) fuel = some (some r) := by
  unfold execute at found
  unfold reporting
  generalize reg.patterns = patterns at found ⊢
  induction patterns with
  | nil => cases found
  | cons sub patterns ih =>
    rw [foldr_cons] at found
    rw [find?_cons]
    cases run : osRegex (reg.config str sub) fuel with
    | none =>
      rw [run] at found
      cases found
    | some result =>
      cases result with
      | none =>
        rw [run] at found
        obtain ⟨sub', member, first, reports⟩ := ih found
        exact ⟨sub', mem_cons_of_mem _ member, first, reports⟩
      | some r' =>
        rw [run] at found
        cases found
        exact ⟨sub, mem_cons_self, rfl, run⟩

end GuardSarm.Regex
