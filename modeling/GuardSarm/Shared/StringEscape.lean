import GuardSarm.Lib.Marked

/-! Escaping into a buffer. `wstr_escape` writes an escape character before each reserved character
and stops where the buffer ends, never inside a pair. It also stops two bytes before the end where a
pair ends there, although one more plain character would fit. -/
namespace GuardSarm.Engine

open List

/-- The loop of `wstr_escape`, with `str` from the read position on and `j` the write position. A
span without reserved characters is copied, and then one reserved character with its mark. -/
def wstrEscapeLoop (dstSize : Nat) (escape found : Char) (str : Text) (j : Nat) : Text :=
  let span := str.takeWhile fun c => c != escape && c != found
  let last := span.take
    (if span.length + j ≤ dstSize - 1 then span.length else dstSize - j - 1)
  match _after : str.dropWhile fun c => c != escape && c != found with
  | [] => last
  | c :: rest =>
    if dstSize - 2 ≤ j + span.length then last
    else
      span ++ escape :: (if c = escape then escape else found) ::
        if rest ≠ [] ∧ j + span.length + 2 < dstSize - 2 then
          wstrEscapeLoop dstSize escape found rest (j + span.length + 2)
        else []
termination_by str.length
decreasing_by
  have shorter := List.length_dropWhile_le (fun c => c != escape && c != found) str
  rw [_after, List.length_cons] at shorter
  exact shorter

def wstrEscape (dstSize : Nat) (str : Text) (escape found : Char) : Text :=
  wstrEscapeLoop dstSize escape found str 0

/-- The loop of `wstr_unescape`. A single escape character at the end stays, and one before another
character is passed over. -/
def wstrUnescapeLoop (dstSize : Nat) (escape : Char) (str : Text) (j : Nat) : Text :=
  let z := (str.takeWhile (· != escape)).length
  let z := if z + j ≤ dstSize - 1 then z else dstSize - j - 1
  match _after : str.drop z with
  | [] => str.take z
  | c :: rest =>
    if j + z < dstSize - 1 then
      match rest with
      | [] => str.take z ++ [c]
      | d :: more =>
        if d = escape then
          str.take z ++ c ::
            if more ≠ [] ∧ j + z + 1 < dstSize - 1 then
              wstrUnescapeLoop dstSize escape more (j + z + 1) else []
        else str.take z ++ wstrUnescapeLoop dstSize escape (d :: more) (j + z)
    else str.take z
termination_by str.length
decreasing_by
  all_goals
    have shorter := congrArg List.length _after
    simp only [List.length_drop, List.length_cons] at shorter ⊢
    omega

def wstrUnescape (dstSize : Nat) (str : Text) (escape : Char) : Text :=
  wstrUnescapeLoop dstSize escape str 0

/-- The loop stops before the last character: the write position is two short of the buffer after a
reserved character, and one character is left. -/
def CutAt (escape found : Char) (dstSize j : Nat) (text : Text) : Prop :=
  ∃ start reserved last, text = start ++ [reserved, last] ∧ (reserved = escape ∨ reserved = found) ∧
    j + (marked escape found (start ++ [reserved])).length + 2 = dstSize

variable {escape found c : Char} {dstSize j : Nat} {span rest : Text}

section

variable (plain : ∀ c ∈ span, ¬(c = escape ∨ c = found))
include plain

theorem wstrEscapeLoop_span :
    wstrEscapeLoop dstSize escape found span j = span.take (dstSize - 1 - j) := by
  have all : ∀ c ∈ span, (c != escape && c != found) = true := fun c member => by
    simpa [not_or] using plain c member
  have taken : span.takeWhile (fun c => c != escape && c != found) = span :=
    takeWhile_eq_self_iff.mpr all
  have dropped : span.dropWhile (fun c => c != escape && c != found) = [] :=
    dropWhile_eq_nil_iff.mpr all
  rw [wstrEscapeLoop, taken]
  split
  · split
    · rw [take_of_length_le (Nat.le_refl _), take_of_length_le (by omega)]
    · rw [Nat.sub_right_comm]
  · rename_i after
    rw [dropped] at after
    cases after

/-- One turn of the loop, where a reserved character follows the span. -/
theorem wstrEscapeLoop_reserved (reserved : c = escape ∨ c = found) :
    wstrEscapeLoop dstSize escape found (span ++ c :: rest) j =
      if dstSize ≤ j + span.length + 2 then span.take (dstSize - 1 - j)
      else span ++ escape :: c ::
        if rest ≠ [] ∧ j + span.length + 2 < dstSize - 2 then
          wstrEscapeLoop dstSize escape found rest (j + span.length + 2) else [] := by
  have all : ∀ c ∈ span, (c != escape && c != found) = true := fun c member => by
    simpa [not_or] using plain c member
  have stop : (c != escape && c != found) = false := by rcases reserved with rfl | rfl <;> simp
  have taken : (span ++ c :: rest).takeWhile (fun c => c != escape && c != found) = span := by
    rw [takeWhile_append_of_pos all, takeWhile_cons, stop]
    exact append_nil span
  have dropped : (span ++ c :: rest).dropWhile (fun c => c != escape && c != found) = c :: rest := by
    rw [dropWhile_append_of_pos all, dropWhile_cons, stop]
    rfl
  have same : (if c = escape then escape else found) = c := by grind
  rw [wstrEscapeLoop, taken]
  split
  · rename_i after
    rw [dropped] at after
    cases after
  · rename_i after
    rw [dropped] at after
    cases after
    by_cases full : dstSize ≤ j + span.length + 2
    · rw [if_pos (by omega), if_pos full]
      split
      · rw [take_of_length_le (Nat.le_refl _), take_of_length_le (by omega)]
      · rw [Nat.sub_right_comm]
    · rw [if_neg (by omega), if_neg full, same]

theorem marked_span_reserved (reserved : c = escape ∨ c = found) (text : Text) :
    marked escape found (span ++ c :: text) = span ++ escape :: c :: marked escape found text := by
  rw [marked_append, marked_span plain, marked_reserved reserved]

end

/-- The loop stops before the last character where the buffer is two short after a mark. -/
theorem wstrEscapeLoop_cut (start : Text) (reserved : c = escape ∨ c = found) (last : Char)
    (full : j + (marked escape found (start ++ [c])).length + 2 = dstSize) :
    wstrEscapeLoop dstSize escape found (start ++ [c, last]) j = marked escape found (start ++ [c]) := by
  induction start using span_induction escape found generalizing j with
  | span start plain =>
    rw [marked_span_reserved plain reserved] at full ⊢
    simp only [marked, flatMap_nil, length_append, length_cons, length_nil] at full
    rw [wstrEscapeLoop_reserved plain reserved, if_neg (by omega), if_neg (by omega)]
    rfl
  | reserved span d start plain mark ih =>
    have positive := length_le_marked escape found (start ++ [c])
    rw [append_assoc, cons_append, marked_span_reserved plain mark] at full
    simp only [length_append, length_cons, length_nil] at full positive
    rw [append_assoc, cons_append, wstrEscapeLoop_reserved plain mark, if_neg (by omega),
      if_pos ⟨by simp, by omega⟩, ih (by omega), append_assoc, cons_append,
      marked_span_reserved plain mark]

/-- What is written is a start of the text with its marks. Where it is not the whole text, the text
does not fit or the buffer is two short after a mark. -/
theorem wstrEscapeLoop_marked (escape found : Char) (str : Text) (j : Nat) (inside : j < dstSize) :
    ∃ kept, kept <+: str ∧ wstrEscapeLoop dstSize escape found str j = marked escape found kept ∧
      j + (marked escape found kept).length < dstSize ∧
      (j + (marked escape found str).length < dstSize → kept = str ∨ ∃ start c, kept = start ++ [c] ∧
        (c = escape ∨ c = found) ∧ j + (marked escape found kept).length + 2 = dstSize) := by
  have taken {span : Text} (plain : ∀ c ∈ span, ¬(c = escape ∨ c = found)) (n : Nat) :
      marked escape found (span.take n) = span.take n :=
    marked_span fun c member => plain c (mem_of_mem_take member)
  induction str using span_induction escape found generalizing j with
  | span str plain =>
    refine ⟨_, take_prefix (dstSize - 1 - j) str, ?_⟩
    rw [wstrEscapeLoop_span plain, taken plain, length_take, marked_span plain]
    exact ⟨rfl, by omega, fun fits => .inl (take_of_length_le (by omega))⟩
  | reserved span c rest plain reserved ih =>
    have whole := marked_span_reserved plain reserved
    have length (text : Text) : (marked escape found (span ++ c :: text)).length =
        span.length + 2 + (marked escape found text).length := by
      rw [whole]
      simp only [length_append, length_cons]
      omega
    rw [wstrEscapeLoop_reserved plain reserved, length]
    split
    · refine ⟨_, ( take_prefix (dstSize - 1 - j) span).trans (prefix_append _ _), ?_⟩
      rw [taken plain, length_take]
      exact ⟨rfl, by omega, fun fits => by omega⟩
    · split
      · obtain ⟨kept, ⟨more, rfl⟩, written, short, outcome⟩ := ih (j + span.length + 2) (by omega)
        refine ⟨span ++ c :: kept, ⟨more, by simp⟩, by rw [written, whole], ?_⟩
        rw [length]
        refine ⟨by omega, fun fits => ?_⟩
        rcases outcome (by omega) with whole | ⟨start, d, rfl, mark, full⟩
        · exact .inl (by rw [← whole])
        · exact .inr ⟨span ++ c :: start, d, by simp, mark, by omega⟩
      · rename_i stopped
        have longer := length_le_marked escape found rest
        refine ⟨span ++ [c], ⟨rest, by simp⟩, (whole []).symm, ?_⟩
        rw [length, show (marked escape found []).length = 0 from rfl]
        refine ⟨by omega, fun fits => ?_⟩
        by_cases nothing : rest = []
        · exact .inl (by rw [nothing])
        · have positive := length_pos_of_ne_nil nothing
          have full : ¬j + span.length + 2 < dstSize - 2 := fun room => stopped ⟨nothing, room⟩
          exact .inr ⟨span, c, rfl, reserved, by omega⟩

/-- A text that fits is written whole, unless it is cut before the last character. -/
theorem wstrEscapeLoop_eq (dstSize : Nat) (escape found : Char) (str : Text) (j : Nat)
    (short : j + (marked escape found str).length < dstSize) :
    ¬CutAt escape found dstSize j str ∧
        wstrEscapeLoop dstSize escape found str j = marked escape found str ∨
      CutAt escape found dstSize j str ∧
        wstrEscapeLoop dstSize escape found str j = marked escape found str.dropLast := by
  by_cases cut : CutAt escape found dstSize j str
  · refine .inr ⟨cut, ?_⟩
    obtain ⟨start, c, last, rfl, reserved, full⟩ := cut
    rw [wstrEscapeLoop_cut start reserved last full]
    simp
  · refine .inl ⟨cut, ?_⟩
    obtain ⟨kept, ⟨more, rfl⟩, written, _, outcome⟩ :=
      wstrEscapeLoop_marked escape found str j (show j < dstSize by omega)
    rcases outcome short with whole | ⟨start, c, rfl, reserved, full⟩
    · rw [written, ← whole]
    · -- one character is left, and it has no mark
      rw [marked_append, length_append] at short
      have longer := length_le_marked escape found more
      rcases more with _ | ⟨last, _ | ⟨next, more⟩⟩
      · simpa using written
      · exact absurd ⟨start, c, last, by simp, reserved, full⟩ cut
      · simp only [length_cons] at longer
        omega

section

variable {before : Text} (outside : escape ∉ before)
include outside

theorem wstrUnescapeLoop_span (room : j + before.length < dstSize) :
    wstrUnescapeLoop dstSize escape before j = before := by
  have taken : before.takeWhile (· != escape) = before :=
    takeWhile_eq_self_iff.mpr fun c member =>
      bne_iff_ne.mpr (ne_of_mem_of_not_mem member outside)
  rw [wstrUnescapeLoop, taken, if_pos (by omega)]
  split
  · exact take_length
  · rename_i after
    simp at after

/-- One turn of the loop, where two characters follow the span and the first is the mark. -/
theorem wstrUnescapeLoop_mark (room : j + before.length + 1 < dstSize) (d : Char) (more : Text) :
    wstrUnescapeLoop dstSize escape (before ++ escape :: d :: more) j =
      if d = escape then before ++ escape ::
        if more ≠ [] ∧ j + before.length + 1 < dstSize - 1 then
          wstrUnescapeLoop dstSize escape more (j + before.length + 1) else []
      else before ++ wstrUnescapeLoop dstSize escape (d :: more) (j + before.length) := by
  have taken : (before ++ escape :: d :: more).takeWhile (· != escape) = before := by
    rw [takeWhile_append_of_pos fun c member =>
      bne_iff_ne.mpr (ne_of_mem_of_not_mem member outside)]
    simp
  rw [wstrUnescapeLoop, taken, if_pos (by omega), take_left']
  split
  · rename_i after
    simp at after
  · rename_i after
    rw [drop_left' rfl] at after
    cases after
    rw [if_pos (by omega)]
  · rfl

/-- A marked text is read back where there is room for it. -/
theorem wstrUnescapeLoop_marked (kept : Text) (room : j + before.length + kept.length < dstSize) :
    wstrUnescapeLoop dstSize escape (before ++ marked escape found kept) j = before ++ kept := by
  induction kept generalizing before j with
  | nil =>
    rw [marked, flatMap_nil, append_nil]
    exact wstrUnescapeLoop_span outside room
  | cons c kept ih =>
    rw [length_cons] at room
    by_cases reserved : c = escape ∨ c = found
    · rw [marked_reserved reserved, wstrUnescapeLoop_mark outside (by omega)]
      split
      · rename_i same
        subst same
        split
        · rw [← nil_append (marked _ _ _), ih not_mem_nil (by simp; omega)]
          rfl
        · rename_i stopped
          have longer := length_le_marked c found kept
          have nothing : kept.length = 0 := by
            by_contra some
            exact stopped ⟨ne_nil_of_length_pos (by omega), by omega⟩
          rw [length_eq_zero_iff.mp nothing]
      · rename_i other
        rw [← singleton_append, ih (by simpa using Ne.symm other) (by simp; omega)]
        rfl
    · rw [marked_plain reserved, ← singleton_append, ← append_assoc, ih _ (by simp; omega),
        append_assoc, singleton_append]
      exact fun member => (mem_append.mp member).elim outside fun new =>
        reserved (.inl (mem_singleton.mp new).symm)

end

/-- What is written fits into the buffer with its terminator and holds whole pairs only, and reading
it back gives a start of the string, the whole string where its marked form fits. -/
def EscapesWell (escape found : Char) (dstSize : Nat) (str : Text) : Prop :=
  (wstrEscape dstSize str escape found).length < dstSize ∧
  (∃ kept, wstrEscape dstSize str escape found = marked escape found kept) ∧
  ∀ size, (wstrEscape dstSize str escape found).length < size →
    wstrUnescape size (wstrEscape dstSize str escape found) escape <+: str ∧
    ((marked escape found str).length < dstSize →
      wstrUnescape size (wstrEscape dstSize str escape found) escape = str)

theorem wstrUnescape_marked {kept : Text} {size : Nat}
    (room : (marked escape found kept).length < size) :
    wstrUnescape size (marked escape found kept) escape = kept := by
  have longer := length_le_marked escape found kept
  exact wstrUnescapeLoop_marked not_mem_nil kept (by simp; omega)

/-- **Escaping is exact up to the size of the buffer, unless the loop stops before a last character
that would fit.** -/
theorem escapes_well_iff (escape found : Char) (dstSize : Nat) (str : Text) (large : 3 ≤ dstSize) :
    EscapesWell escape found dstSize str ↔
      ¬(CutAt escape found dstSize 0 str ∧ (marked escape found str).length < dstSize) := by
  have fitting (fits : (marked escape found str).length < dstSize) :=
    wstrEscapeLoop_eq dstSize escape found str 0 (by omega)
  constructor
  · rintro ⟨_, _, back⟩ ⟨cut, fits⟩
    rcases fitting fits with ⟨uncut, _⟩ | ⟨_, written⟩
    · exact uncut cut
    · have same := (back _ (Nat.lt_succ_self _)).2 fits
      rw [show wstrEscape dstSize str escape found = _ from written,
        wstrUnescape_marked (Nat.lt_succ_self _)] at same
      obtain ⟨start, reserved, last, rfl, _⟩ := cut
      simpa using congrArg List.length same
  · intro uncut
    obtain ⟨kept, start, written, short⟩ :=
      wstrEscapeLoop_marked escape found str 0 (show 0 < dstSize by omega)
    rw [EscapesWell, show wstrEscape dstSize str escape found = _ from written]
    refine ⟨by omega, ⟨kept, rfl⟩, fun size room => ?_⟩
    rw [wstrUnescape_marked room]
    refine ⟨start, fun fits => ?_⟩
    rcases fitting fits with ⟨_, whole⟩ | ⟨cut, _⟩
    · rw [written] at whole
      rw [← wstrUnescape_marked room, whole]
      exact wstrUnescape_marked (whole ▸ room)
    · exact absurd ⟨cut, fits⟩ uncut

theorem escapes_well_truncated :
    3 ≤ 3 ∧ EscapesWell '\\' '"' 3 ['"', 'b', 'c'] :=
  ⟨by decide, (escapes_well_iff _ _ _ _ (by decide)).mpr fun both => absurd both.2 (by decide)⟩

/-- Three characters and the terminator are the size of the buffer, and the last one is lost. -/
theorem last_character_lost :
    wstrEscape 4 ['"', 'x'] '\\' '"' = ['\\', '"'] ∧ ¬EscapesWell '\\' '"' 4 ['"', 'x'] := by
  have written : wstrEscape 4 ['"', 'x'] '\\' '"' = ['\\', '"'] := by decide +kernel
  refine ⟨written, fun well => ?_⟩
  have back := (well.2.2 4 (by rw [written]; decide)).2 (by decide)
  exact absurd back (by decide +kernel)

end GuardSarm.Engine
