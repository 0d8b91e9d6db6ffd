import GuardSarm.Shared.Bqueue

/-!
# The binary queue is a bounded byte string

`Represents q s`: the block of `q` holds the string `s` from the head on, round
its end, with at least one free byte.
-/

namespace GuardSarm.Bqueue

open List

open Block

variable {α : Type} {q : Queue α} {s : List α}

structure Represents (q : Queue α) (s : List α) : Prop where
  block : q.memory.length = q.length
  bounded : q.length ≤ q.maxLength
  place : (q.length = 0 ∧ q.head = 0 ∧ s = []) ∨ (q.head < q.length ∧ s.length < q.length)
  tail : q.tail = (q.head + s.length) % q.length
  elements : ∀ i < s.length, q.memory[(q.head + i) % q.length]? = s[i]?

theorem mod_wrap {a n : Nat} (once : a < 2 * n) : a % n = if a < n then a else a - n := by
  split
  next less => exact Nat.mod_eq_of_lt less
  next past => rw [Nat.mod_eq_sub_mod (by omega), Nat.mod_eq_of_lt (by omega)]

namespace Represents

theorem wrap (represents : Represents q s) (filled : 0 < q.length) :
    q.head < q.length ∧ s.length < q.length ∧
      q.tail = if q.head + s.length < q.length then q.head + s.length
        else q.head + s.length - q.length := by
  obtain ⟨none, -⟩ | ⟨head, length⟩ := represents.place
  · omega
  · have tail := represents.tail
    rw [mod_wrap (by omega)] at tail
    exact ⟨head, length, tail⟩

theorem used_eq (represents : Represents q s) : q.used = s.length := by
  unfold Queue.used
  split
  next filled =>
    obtain ⟨head, length, tail⟩ := represents.wrap filled
    rw [mod_wrap (by split_ifs at tail <;> omega)]
    split_ifs at tail ⊢ <;> omega
  next none =>
    obtain ⟨-, -, rfl⟩ | ⟨head, -⟩ := represents.place
    · rfl
    · omega

theorem empty_iff (represents : Represents q s) : q.empty = true ↔ s = [] := by
  rw [Queue.empty, beq_iff_eq, ← length_eq_zero_iff]
  obtain ⟨none, zero, rfl⟩ | ⟨filled, -⟩ := represents.place
  · have tail := represents.tail
    simp [zero, tail]
  · obtain ⟨head, length, tail⟩ := represents.wrap (by omega)
    split_ifs at tail <;> omega

theorem length_lt (represents : Represents q s) (limit : 1 < q.maxLength) :
    s.length < q.maxLength := by
  have bounded := represents.bounded
  obtain ⟨-, -, rfl⟩ | ⟨-, length⟩ := represents.place
  · simpa using by omega
  · omega

theorem trim (q : Queue α) : Represents q.trim [] where
  block := rfl
  bounded := Nat.zero_le _
  place := .inl ⟨rfl, rfl, rfl⟩
  tail := rfl
  elements := by simp

/-- The elements of the string, without the remainder. -/
theorem element (represents : Represents q s) (filled : 0 < q.length) {i : Nat}
    (inside : i < s.length) :
    q.memory[if q.head + i < q.length then q.head + i else q.head + i - q.length]? = s[i]? := by
  obtain ⟨head, length, -⟩ := represents.wrap filled
  rw [← mod_wrap (by omega)]
  exact represents.elements i inside

end Represents

/-- The string is represented if its elements stand where they should. -/
theorem represents_of {memory : List α} {head tail length maxLength : Nat} {shrinks : Bool}
    (block : memory.length = length) (bounded : length ≤ maxLength) (inside : head < length)
    (fits : s.length < length) (tails : tail = if head + s.length < length then head + s.length
      else head + s.length - length) (elements : ∀ i < s.length,
      memory[if head + i < length then head + i else head + i - length]? = s[i]?) :
    Represents ⟨memory, head, tail, length, maxLength, shrinks⟩ s where
  block := block
  bounded := bounded
  place := .inr ⟨inside, fits⟩
  tail := by
    rw [mod_wrap (by simp only; omega)]
    exact tails
  elements := by
    intro i small
    rw [mod_wrap (by simp only; omega)]
    exact elements i small

/-- Where the elements of the string stand in a block of `length`. -/
def pos (head length i : Nat) : Nat := if head + i < length then head + i else head + i - length

/-- The free bytes are those that the tail comes to: they are none of the string, and
they are in the order in which the string goes on. -/
theorem Represents.free (represents : Represents q s) {n : Nat} (room : n + s.length < q.length) :
    (∀ i < s.length, ¬ (q.tail ≤ pos q.head q.length i ∧ pos q.head q.length i < q.tail + n) ∧
        q.tail + n ≤ q.length + pos q.head q.length i) ∧
      ∀ i < n, pos q.head q.length (s.length + i) = pos q.tail q.length i := by
  obtain ⟨head, length, tail⟩ := represents.wrap (by omega)
  unfold pos
  by_cases ahead : q.head + s.length < q.length
  · rw [if_pos ahead] at tail
    constructor
    · intro i small
      rw [if_pos (by omega)]
      omega
    · intro i small
      rw [tail, Nat.add_assoc]
  · rw [if_neg ahead] at tail
    constructor
    · intro i small
      split <;> omega
    · intro i small
      rw [if_neg (by omega), if_pos (by omega)]
      omega

theorem insert_spec (represents : Represents q s) {data : List α}
    (room : data.length + s.length < q.length) :
    ∃ memory tail, q.insert data = some { q with memory, tail } ∧
      Represents { q with memory, tail } (s ++ data) := by
  have block := represents.block
  obtain ⟨head, length, -⟩ := represents.wrap (by omega)
  obtain ⟨apart, onward⟩ := represents.free room
  have inside : q.tail < q.length := by
    rw [represents.tail]
    exact Nat.mod_lt _ (by omega)
  have after : (q.tail + data.length) % q.length = if q.head + (s ++ data).length < q.length
      then q.head + (s ++ data).length else q.head + (s ++ data).length - q.length := by
    rw [← mod_wrap (by rw [length_append]; omega), represents.tail, Nat.mod_add_mod,
      length_append, Nat.add_assoc]
  have filled : ¬ q.length = 0 := by omega
  have fits' : (s ++ data).length < q.length := by
    rw [length_append]
    omega
  unfold Queue.insert
  by_cases fits : q.tail + data.length ≤ q.length
  · obtain ⟨memory, done, size, stands⟩ :=
      copyIn_spec (show q.tail + data.length ≤ q.memory.length by omega)
    simp only [if_pos fits, done, Option.bind_eq_bind, Option.bind_some, if_neg filled,
      Option.pure_def]
    refine ⟨_, _, rfl, represents_of (by omega) represents.bounded head fits' after ?_⟩
    intro i small
    rw [length_append] at small
    rw [stands, getElem?_append]
    by_cases old : i < s.length
    · rw [if_pos old, ← represents.element (by omega) old]
      exact if_neg (apart i old).1
    · have new := onward (i - s.length) (by omega)
      rw [Nat.add_sub_cancel' (by omega), pos, pos,
        if_pos (show q.tail + (i - s.length) < q.length by omega)] at new
      rw [if_neg old, new, if_pos (by omega), Nat.add_sub_cancel_left]
  · have first : (data.take (q.length - q.tail)).length = q.length - q.tail := by
      rw [length_take]
      omega
    have second : (data.drop (q.length - q.tail)).length = data.length - (q.length - q.tail) :=
      length_drop
    obtain ⟨front, done, size, stands⟩ :=
      copyIn_spec (show q.tail + (data.take (q.length - q.tail)).length ≤ q.memory.length by omega)
    obtain ⟨memory, also, size', stands'⟩ :=
      copyIn_spec (show 0 + (data.drop (q.length - q.tail)).length ≤ front.length by omega)
    simp only [if_neg fits, done, also, Option.bind_eq_bind, Option.bind_some, if_neg filled,
      Option.pure_def]
    refine ⟨_, _, rfl, represents_of (by omega) represents.bounded head fits' after ?_⟩
    intro i small
    rw [length_append] at small
    rw [stands', stands, getElem?_append, first, second]
    by_cases old : i < s.length
    · have free := apart i old
      rw [pos] at free
      rw [if_pos old, ← represents.element (by omega) old, if_neg (by omega), if_neg (by omega)]
    · have new := onward (i - s.length) (by omega)
      rw [Nat.add_sub_cancel' (by omega), pos, pos] at new
      rw [if_neg old, new]
      by_cases ahead : q.tail + (i - s.length) < q.length
      · rw [if_pos ahead, if_neg (by omega), if_pos (by omega), Nat.add_sub_cancel_left,
          getElem?_take_of_lt (by omega)]
      · rw [if_neg ahead, if_pos (by omega), getElem?_drop]
        congr 1
        omega

theorem expand_spec (represents : Represents q s) {newLength : Nat} (fresh : Nat → α)
    (longer : q.length < newLength) (limit : newLength ≤ q.maxLength) :
    ∃ memory tail, q.expand newLength fresh = some { q with memory, tail, length := newLength } ∧
      Represents { q with memory, tail, length := newLength } s := by
  have block := represents.block
  have grown := length_realloc q.memory newLength fresh
  have kept : ∀ {i j}, i = j → j < q.length →
      (realloc q.memory newLength fresh)[i]? = q.memory[j]? := by
    intro i j same inside
    subst same
    exact getElem?_realloc fresh (by omega) (by omega)
  unfold Queue.expand
  obtain ⟨none, zero, rfl⟩ | ⟨filled, -⟩ := represents.place
  · have tail : q.tail = 0 := by
      have tail := represents.tail
      rw [none, zero] at tail
      simpa using tail
    simp only [if_neg (show ¬ q.tail < q.head by omega)]
    refine ⟨_, _, rfl, represents_of grown limit (by omega) (by simp; omega) ?_ (by simp)⟩
    simp [tail, zero]
  obtain ⟨head, length, tail⟩ := represents.wrap (by omega)
  by_cases wrapped : q.tail < q.head
  · have around : ¬ q.head + s.length < q.length := by split_ifs at tail <;> omega
    rw [if_neg around] at tail
    by_cases short : q.tail ≤ newLength - q.length
    · obtain ⟨memory, done, size, stands⟩ := memcpy_spec
        (show 0 + q.tail ≤ (realloc q.memory newLength fresh).length by omega)
        (show q.length + q.tail ≤ (realloc q.memory newLength fresh).length by omega)
        (.inr (by omega))
      simp only [if_pos wrapped, if_pos short, done, Option.bind_eq_bind, Option.pure_def,
        Option.bind_some]
      refine ⟨_, _, rfl, represents_of (by omega) limit (by omega) (by omega) ?_ ?_⟩
      · rw [mod_wrap (by omega)]
        split_ifs <;> omega
      · intro i small
        rw [← represents.element (by omega) small, stands]
        exact kept (by split_ifs <;> omega) (by split_ifs <;> omega)
    · obtain ⟨front, done, size, stands⟩ := memcpy_spec
        (show 0 + (newLength - q.length) ≤ (realloc q.memory newLength fresh).length by omega)
        (show q.length + (newLength - q.length) ≤ (realloc q.memory newLength fresh).length
          by omega) (.inr (by omega))
      obtain ⟨memory, also, size', stands'⟩ := memmove_spec
        (show newLength - q.length + (q.tail - (newLength - q.length)) ≤ front.length by omega)
        (show 0 + (q.tail - (newLength - q.length)) ≤ front.length by omega)
      simp only [if_pos wrapped, if_neg short, done, also, Option.bind_eq_bind, Option.pure_def,
        Option.bind_some]
      refine ⟨_, _, rfl, represents_of (by omega) limit (by omega) (by omega) ?_ ?_⟩
      · rw [if_neg (by omega)]
        omega
      · intro i small
        rw [← represents.element (by omega) small, stands', stands]
        exact kept (by split_ifs <;> omega) (by split_ifs <;> omega)
  · have before : q.head + s.length < q.length := by split_ifs at tail <;> omega
    rw [if_pos before] at tail
    simp only [if_neg wrapped]
    refine ⟨_, _, rfl, represents_of grown limit (by omega) (by omega) ?_ ?_⟩
    · rw [if_pos (by omega), tail]
    · intro i small
      rw [← represents.element (by omega) small, if_pos (by omega), if_pos (by omega)]
      exact kept rfl (by omega)

/-- The string stands in the part of the block that will be kept. -/
theorem represents_cut {memory : List α} {head tail length maxLength newLength : Nat}
    {shrinks : Bool} (block : newLength ≤ memory.length) (bounded : newLength ≤ maxLength)
    (inside : head < newLength) (fits : s.length < newLength)
    (tails : tail = if head + s.length < newLength then head + s.length
      else head + s.length - newLength) (elements : ∀ i < s.length,
      memory[if head + i < newLength then head + i else head + i - newLength]? = s[i]?) :
    Represents (Queue.cut ⟨memory, head, tail, length, maxLength, shrinks⟩ newLength) s := by
  refine represents_of ?_ bounded inside fits tails ?_
  · simp only [length_take]
    omega
  · intro i small
    have kept : (if head + i < newLength then head + i else head + i - newLength) < newLength := by
      split_ifs <;> omega
    rw [getElem?_take_of_lt kept]
    exact elements i small

/-- The copies of `_bqueue_shrink` bring the string into the part that is kept. -/
theorem gather_spec (represents : Represents q s) {newLength : Nat} (filled : s ≠ [])
    (room : s.length < newLength) (shorter : newLength ≤ q.length) :
    ∃ memory head tail, q.gather newLength = some { q with memory, head, tail } ∧
      Represents (Queue.cut { q with memory, head, tail } newLength) s := by
  have block := represents.block
  have bounded := represents.bounded
  obtain ⟨head, length, tail⟩ := represents.wrap (by omega)
  have busy : ¬ q.empty = true := mt represents.empty_iff.1 filled
  have some : 0 < s.length := length_pos_iff.2 filled
  unfold Queue.gather
  simp only [if_neg busy, Option.bind_eq_bind, Option.pure_def]
  by_cases contiguous : q.head < q.tail
  · have before : q.head + s.length < q.length := by split_ifs at tail <;> omega
    rw [if_pos before] at tail
    have element : ∀ {i}, i < s.length → q.memory[q.head + i]? = s[i]? := by
      intro i small
      rw [← represents.element (by omega) small, if_pos (by omega)]
    by_cases right : newLength ≤ q.head
    · obtain ⟨memory, done, size, stands⟩ := memcpy_spec
        (show q.head + (q.tail - q.head) ≤ q.memory.length by omega)
        (show 0 + (q.tail - q.head) ≤ q.memory.length by omega) (.inl (by omega))
      simp only [if_pos contiguous, if_pos right, done, Option.bind_some]
      refine ⟨_, _, _, rfl, represents_cut (by omega) (by omega) (by omega) room ?_ ?_⟩
      · rw [if_pos (by omega)]
        omega
      · intro i small
        rw [← element small, stands]
        congr 1
        split_ifs <;> omega
    · by_cases across : newLength ≤ q.tail
      · obtain ⟨memory, done, size, stands⟩ := memcpy_spec
          (show q.tail - (q.tail - newLength) + (q.tail - newLength) ≤ q.memory.length by omega)
          (show 0 + (q.tail - newLength) ≤ q.memory.length by omega) (.inl (by omega))
        simp only [if_pos contiguous, if_neg right, if_pos across, done, Option.bind_some]
        refine ⟨_, _, _, rfl, represents_cut (by omega) (by omega) (by omega) room ?_ ?_⟩
        · rw [if_neg (by omega)]
          omega
        · intro i small
          rw [← element small, stands]
          congr 1
          split_ifs <;> omega
      · simp only [if_pos contiguous, if_neg right, if_neg across]
        refine ⟨_, _, _, rfl, represents_cut (by omega) (by omega) (by omega) room ?_ ?_⟩
        · rw [if_pos (by omega), tail]
        · intro i small
          rw [← element small, if_pos (by omega)]
  · have wrapped : ¬ q.head + s.length < q.length := by split_ifs at tail <;> omega
    rw [if_neg wrapped] at tail
    have moves : ∃ memory, (if q.head < newLength then
          memmove q.memory (q.head - (q.length - newLength)) q.head (q.length - q.head)
        else memcpy q.memory (q.head - (q.length - newLength)) q.head (q.length - q.head)) =
          Option.some memory ∧ memory.length = q.memory.length ∧
        ∀ i, memory[i]? = q.memory[if q.head - (q.length - newLength) ≤ i ∧
            i < q.head - (q.length - newLength) + (q.length - q.head) then
          q.head + (i - (q.head - (q.length - newLength))) else i]? := by
      split
      · exact memmove_spec (by omega) (by omega)
      · exact memcpy_spec (by omega) (by omega) (.inl (by omega))
    obtain ⟨memory, done, size, stands⟩ := moves
    simp only [if_neg contiguous, done, Option.bind_some]
    refine ⟨_, _, _, rfl, represents_cut (by omega) (by omega) (by omega) room ?_ ?_⟩
    · rw [if_neg (by omega)]
      omega
    · intro i small
      rw [stands, ← represents.element (by omega) small]
      congr 1
      split_ifs <;> omega

/-- The string is one piece of the block, or two. -/
theorem Represents.pieces (represents : Represents q s) (filled : 0 < q.length) :
    s = if q.tail < q.head then slice q.memory q.head (q.length - q.head) ++ slice q.memory 0 q.tail
      else slice q.memory q.head (q.tail - q.head) := by
  have block := represents.block
  obtain ⟨head, length, tail⟩ := represents.wrap filled
  apply ext_getElem?
  intro i
  by_cases small : i < s.length
  · rw [← represents.element filled small]
    by_cases around : q.head + s.length < q.length
    · rw [if_pos around] at tail
      rw [if_pos (by omega), if_neg (by omega), getElem?_slice, if_pos (by omega)]
    · rw [if_neg around] at tail
      rw [if_pos (show q.tail < q.head by omega), getElem?_append, length_slice (by omega),
        getElem?_slice, getElem?_slice]
      by_cases first : q.head + i < q.length
      · rw [if_pos first, if_pos (by omega), if_pos (by omega)]
      · rw [if_neg first, if_neg (by omega), if_pos (by omega)]
        congr 1
        omega
  · rw [getElem?_eq_none (by omega), getElem?_eq_none]
    split_ifs at tail ⊢ <;>
      simp only [slice, length_append, length_take, length_drop] <;> omega

theorem extract_spec (represents : Represents q s) (filled : s ≠ []) (n : Nat) :
    q.extract n = some (s.take n) := by
  have block := represents.block
  obtain ⟨none, -, rfl⟩ | ⟨head, length⟩ := represents.place
  · exact absurd rfl filled
  have pieces := represents.pieces (by omega)
  obtain ⟨-, -, tail⟩ := represents.wrap (by omega)
  have inside : q.tail < q.length := by split_ifs at tail <;> omega
  simp only [Queue.extract]
  split
  next wrapped =>
    rw [if_pos wrapped] at pieces
    have front := length_slice (show q.head + (q.length - q.head) ≤ q.memory.length by omega)
    split
    next part =>
      rw [copyOut_eq (by omega), pieces, take_append_of_le_length (by omega), take_slice,
        Nat.min_eq_left (by omega)]
    next whole =>
      simp only [copyOut_eq (show q.head + (q.length - q.head) ≤ q.memory.length by omega),
        copyOut_eq (show 0 + min (n - (q.length - q.head)) q.tail ≤ q.memory.length by omega),
        Option.bind_eq_bind, Option.bind_some, Option.pure_def]
      rw [pieces, take_append, take_of_length_le (by omega), front, take_slice]
  next straight =>
    rw [if_neg straight] at pieces
    rw [copyOut_eq (by omega), pieces, take_slice]

/-- `after` is `q` with another string: the limit and the flag are the same. -/
structure Becomes (q after : Queue α) (s : List α) : Prop where
  represents : Represents after s
  maxLength : after.maxLength = q.maxLength
  shrinks : after.shrinks = q.shrinks

section

variable (represents : Represents q s)
include represents

theorem moveHead_spec (filled : s ≠ []) {n : Nat}
    (inside : n ≤ s.length) :
    Represents { q with head := (q.head + n) % q.length } (s.drop n) := by
  obtain ⟨-, -, rfl⟩ | ⟨head, length⟩ := represents.place
  · exact absurd rfl filled
  refine ⟨represents.block, represents.bounded, .inr ⟨Nat.mod_lt _ (by omega), ?_⟩, ?_, ?_⟩
  · rw [length_drop]
    simp only
    omega
  · rw [length_drop, Nat.mod_add_mod, represents.tail]
    congr 1
    omega
  · intro i small
    rw [length_drop] at small
    rw [Nat.mod_add_mod, Nat.add_assoc, represents.elements (n + i) (by omega), getElem?_drop]

theorem advance_spec (filled : s ≠ []) {n : Nat}
    (inside : n ≤ s.length) : ∃ after, q.advance n = some after ∧ Becomes q after (s.drop n) := by
  have moved := moveHead_spec represents filled inside
  have positive : ¬ q.length = 0 := by
    obtain ⟨-, -, rfl⟩ | ⟨head, -⟩ := represents.place
    · exact absurd rfl filled
    · omega
  unfold Queue.advance
  simp only [if_neg positive]
  split
  next empty =>
    refine ⟨_, rfl, ?_, rfl, rfl⟩
    rw [moved.empty_iff.1 empty]
    exact .trim _
  next busy =>
    have left : s.drop n ≠ [] := mt moved.empty_iff.2 busy
    split
    next small =>
      rw [moved.used_eq] at small
      obtain ⟨memory, head, tail, gathered, kept⟩ :=
        gather_spec moved left small.2 (Nat.div_le_self _ _)
      refine ⟨_, ?_, kept, rfl, rfl⟩
      simp only [Queue.shrink, gathered, Option.bind_eq_bind, Option.bind_some, Option.pure_def]
    next => exact ⟨_, rfl, moved, rfl, rfl⟩

theorem push_spec (limit : 1 < q.maxLength) (data : List α) (fresh : Nat → α) :
    ∃ after, q.push data fresh =
        some (if s.length + data.length ≤ q.maxLength - 1 then 0 else -1, after) ∧
      Becomes q after (if s.length + data.length ≤ q.maxLength - 1 then s ++ data else s) := by
  have used := represents.used_eq
  unfold Queue.push
  by_cases fits : s.length + data.length ≤ q.maxLength - 1
  · simp only [if_neg (show ¬ q.maxLength ≤ data.length by omega),
      if_neg (show ¬ q.maxLength ≤ data.length + q.used by omega), if_pos fits]
    by_cases short : q.length ≤ data.length + q.used
    · obtain ⟨memory, tail, grown, kept⟩ := expand_spec represents fresh
        (show q.length < data.length + q.used + 1 by omega) (by omega)
      obtain ⟨memory', tail', inserted, final⟩ :=
        insert_spec kept (show data.length + s.length < data.length + q.used + 1 by omega)
      refine ⟨_, ?_, final, rfl, rfl⟩
      simp only [if_pos short, grown, inserted, Option.bind_eq_bind, Option.bind_some,
        Option.pure_def]
    · obtain ⟨memory, tail, inserted, final⟩ :=
        insert_spec represents (show data.length + s.length < q.length by omega)
      refine ⟨_, ?_, final, rfl, rfl⟩
      simp only [if_neg short, inserted, Option.bind_eq_bind, Option.bind_some, Option.pure_def]
  · simp only [if_pos (show q.maxLength ≤ data.length + q.used by omega), if_neg fits, ite_self]
    exact ⟨q, rfl, represents, rfl, rfl⟩

theorem peek_spec (n : Nat) : q.peek n = some (s.take n) := by
  unfold Queue.peek
  split
  next empty => rw [represents.empty_iff.1 empty, take_nil]
  next busy => exact extract_spec represents (mt represents.empty_iff.2 busy) n

theorem pop_spec (n : Nat) :
    ∃ after, q.pop n = some (s.take n, after) ∧ Becomes q after (s.drop n) := by
  unfold Queue.pop
  split
  next empty =>
    have nothing := represents.empty_iff.1 empty
    subst nothing
    exact ⟨q, by rw [take_nil], by rw [drop_nil]; exact ⟨represents, rfl, rfl⟩⟩
  next busy =>
    have filled : s ≠ [] := mt represents.empty_iff.2 busy
    obtain ⟨after, moved, becomes⟩ :=
      advance_spec represents filled (show (s.take n).length ≤ s.length by simp)
    have same : s.drop (s.take n).length = s.drop n := by
      rw [length_take]
      obtain less | more := Nat.le_total n s.length
      · rw [Nat.min_eq_left less]
      · rw [Nat.min_eq_right more, drop_length, drop_eq_nil_of_le more]
    rw [same] at becomes
    refine ⟨after, ?_, becomes⟩
    simp only [extract_spec represents filled, moved, Option.bind_eq_bind, Option.bind_some,
      Option.pure_def]

theorem drop_spec {n : Nat} (positive : 1 ≤ n)
    (inside : n ≤ s.length) : ∃ after, q.drop n = some (0, after) ∧ Becomes q after (s.drop n) := by
  have filled : s ≠ [] := by
    rintro rfl
    rw [length_nil] at inside
    omega
  obtain ⟨after, moved, becomes⟩ := advance_spec represents filled inside
  refine ⟨after, ?_, becomes⟩
  simp only [Queue.drop, represents.used_eq, if_pos inside, moved, Option.bind_eq_bind,
    Option.bind_some, Option.pure_def]

end

/-- A drop takes at least one byte. -/
def Call.Admissible : Call α → Prop
  | .drop length => 1 ≤ length
  | _ => True

theorem perform_spec (represents : Represents q s) (limit : 1 < q.maxLength) {call : Call α}
    (admissible : call.Admissible) :
    ∃ after, perform q call = some ((Spec.perform q.maxLength s call).1, after) ∧
      Becomes q after (Spec.perform q.maxLength s call).2 := by
  cases call with
  | push data fresh =>
    obtain ⟨after, done, becomes⟩ := push_spec represents limit data fresh
    by_cases fits : s.length + data.length ≤ q.maxLength - 1
    · rw [if_pos fits] at done becomes
      exact ⟨after, by simp [perform, done, Spec.perform, fits], by
        rwa [Spec.perform, if_pos fits]⟩
    · rw [if_neg fits] at done becomes
      exact ⟨after, by simp [perform, done, Spec.perform, fits], by
        rwa [Spec.perform, if_neg fits]⟩
  | pop n =>
    obtain ⟨after, done, becomes⟩ := pop_spec represents n
    exact ⟨after, by rw [perform, done]; rfl, becomes⟩
  | peek n => exact ⟨q, by rw [perform, peek_spec represents]; rfl, represents, rfl, rfl⟩
  | drop n =>
    by_cases inside : n ≤ s.length
    · obtain ⟨after, done, becomes⟩ := drop_spec represents admissible inside
      refine ⟨after, ?_, by rwa [Spec.perform, if_pos inside]⟩
      rw [perform, done, Spec.perform, if_pos inside]
      rfl
    · refine ⟨q, ?_, by rw [Spec.perform, if_neg inside]; exact ⟨represents, rfl, rfl⟩⟩
      rw [perform, Queue.drop, represents.used_eq, if_neg inside, Spec.perform, if_neg inside]
      rfl
  | clear => exact ⟨_, rfl, .trim q, rfl, rfl⟩

theorem run_spec (represents : Represents q s) (limit : 1 < q.maxLength) {calls : List (Call α)}
    (admissible : ∀ call ∈ calls, call.Admissible) :
    ∃ after, run q calls = some ((Spec.run q.maxLength s calls).1, after) ∧
      Becomes q after (Spec.run q.maxLength s calls).2 := by
  induction calls generalizing q s with
  | nil => exact ⟨q, rfl, represents, rfl, rfl⟩
  | cons call calls ih =>
    obtain ⟨next, done, becomes⟩ :=
      perform_spec represents limit (admissible call mem_cons_self)
    obtain ⟨after, rest, final⟩ := ih becomes.represents (by rw [becomes.maxLength]; exact limit)
      (fun call member => admissible call (mem_cons_of_mem _ member))
    rw [becomes.maxLength] at rest final
    refine ⟨after, ?_, final.represents, by rw [final.maxLength, becomes.maxLength],
      by rw [final.shrinks, becomes.shrinks]⟩
    simp [run, done, rest, Spec.run]

/-- **The binary queue is a bounded byte string.** For every limit above 1, with or
without the flag, and every sequence of calls without waiting (a drop takes at
least one byte), no copy leaves the block, no `memcpy` has overlapping ranges, and
the answers are those of a string of at most `maxLength - 1` bytes. Head and tail
are inside the block whenever there is one. -/
theorem bqueue_refines (maxLength : Nat) (shrinks : Bool) (limit : 1 < maxLength)
    (calls : List (Call α)) (admissible : ∀ call ∈ calls, call.Admissible) :
    ∃ start after, bqueueInit maxLength shrinks = some start ∧
      run start calls = some ((Spec.run maxLength [] calls).1, after) ∧
      Represents after (Spec.run maxLength [] calls).2 ∧
      (Spec.run maxLength [] calls).2.length ≤ maxLength - 1 ∧
      (after.length = 0 ∧ after.head = 0 ∧ after.tail = 0 ∨
        after.head < after.length ∧ after.tail < after.length) := by
  have start : Represents (⟨[], 0, 0, 0, maxLength, shrinks⟩ : Queue α) [] :=
    ⟨rfl, Nat.zero_le _, .inl ⟨rfl, rfl, rfl⟩, rfl, by simp⟩
  obtain ⟨after, done, final⟩ := run_spec start limit admissible
  refine ⟨_, after, if_neg (by omega), done, final.represents, ?_, ?_⟩
  · have bounded := final.represents.length_lt (by rw [final.maxLength]; exact limit)
    rw [final.maxLength] at bounded
    simp only at bounded ⊢
    omega
  · have tail := final.represents.tail
    obtain ⟨none, zero, empty⟩ | ⟨head, -⟩ := final.represents.place
    · rw [none, zero, empty] at tail
      exact .inl ⟨none, zero, by simpa using tail⟩
    · exact .inr ⟨head, by rw [tail]; exact Nat.mod_lt _ (by omega)⟩

/-- A queue that wraps round, grows, and shrinks. -/
theorem bqueue_refines_wrapped : ∃ start after : Queue Nat, bqueueInit 12 true = some start ∧
      run start [.push [1, 2, 3, 4] id, .pop 3, .push [5, 6] id, .push [7, 8, 9, 10] id, .drop 3,
        .push [11, 12] id, .pop 5] =
          some ([.code 0, .bytes [1, 2, 3], .code 0, .code 0, .code 0, .code 0,
            .bytes [7, 8, 9, 10, 11]], after) ∧ Represents after [12] := by
  obtain ⟨start, after, created, done, represents, -⟩ := bqueue_refines 12 true (by decide)
    [.push [1, 2, 3, 4] id, .pop 3, .push [5, 6] id, .push [7, 8, 9, 10] id, .drop 3,
      .push [11, 12] id, .pop 5] (by simp [Call.Admissible])
  exact ⟨start, after, created, done, represents⟩

end GuardSarm.Bqueue
