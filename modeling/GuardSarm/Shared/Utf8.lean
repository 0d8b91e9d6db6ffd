import Mathlib

/-!
# UTF-8 filtering

`utf8_op.c`. A string is its bytes before the terminating zero; reading behind
that zero and writing behind the end of an allocated block have no result.
-/

namespace GuardSarm.Utf8

open List Option

abbrev Bytes := List UInt8

/-- A string of C: no byte is zero. -/
def CString := { s : Bytes // 0 ∉ s }

section macros

/-- `x[k]`: a byte of the string or its terminator. -/
def read (x : Bytes) (k : Nat) : Option UInt8 := (x ++ [0])[k]?

/-- `(x[k] & mask) == bits` and what comes behind the `&&`. -/
def masked (x : Bytes) (k : Nat) (mask bits : UInt8) (rest : UInt8 → Option Bool) : Option Bool := do
  let b ← read x k
  if b &&& mask = bits then rest b else some false

/-- `<=` on `char`, which is signed. -/
def charLe (m n : UInt8) : Bool := m.toInt8 ≤ n.toInt8

def valid1 (x : Bytes) : Option Bool := masked x 0 0x80 0 fun _ => some true

def valid2 (x : Bytes) : Option Bool :=
  masked x 0 0xE0 0xC0 fun a =>
    if charLe 0xC2 a then masked x 1 0xC0 0x80 fun _ => some true else some false

def valid3 (x : Bytes) : Option Bool :=
  masked x 0 0xF0 0xE0 fun a => masked x 1 0xC0 0x80 fun b => masked x 2 0xC0 0x80 fun _ =>
    some ((a != 0xE0 || 0xA0 ≤ b) && (a != 0xED || b < 0xA0) && (a != 0xEF || b ≤ 0xBF))

def valid4 (x : Bytes) : Option Bool :=
  masked x 0 0xF8 0xF0 fun a =>
    if a ≤ 0xF4 then
      masked x 1 0xC0 0x80 fun b => masked x 2 0xC0 0x80 fun _ => masked x 3 0xC0 0x80 fun _ =>
        some ((a != 0xF0 || 0x90 ≤ b) && (a != 0xF4 || b ≤ 0x8F))
    else some false

/-- The cascade of the loops: the bytes of the sequence at `x`, 0 if there is none. -/
def sequence (x : Bytes) : Option Nat := do
  if ← valid1 x then return 1
  if ← valid2 x then return 2
  if ← valid3 x then return 3
  if ← valid4 x then return 4
  return 0

end macros

/-- `w_utf8_drop`. -/
def utf8Drop (string : Bytes) : Option Bytes :=
  match string with
  | [] => some []
  | a :: rest => do
    match ← sequence (a :: rest) with
    | 0 => some (a :: rest)
    | n + 1 => utf8Drop (rest.drop n)
termination_by string.length
decreasing_by simp

def utf8Valid (string : Bytes) : Option Bool := do
  let valid ← utf8Drop string
  return valid.isEmpty

/-- `copy[i++] = byte` in a block of `size` bytes. -/
def put (size : Nat) (copy : Bytes) (byte : UInt8) : Option Bytes :=
  if copy.length < size then some (copy ++ [byte]) else none

def replacementInc : Nat := 4096

def replacementBytes : Bytes := [0xEF, 0xBF, 0xBD]

/-- The loop of `w_utf8_filter`, up to the terminator it writes. -/
def filterLoop (replacement : Bool) (valid copy : Bytes) (size repl : Nat) : Option Bytes :=
  match valid with
  | [] => if copy.length < size then some copy else none
  | a :: rest => do
    match ← sequence (a :: rest) with
    | n + 1 =>
      let copy ← ((a :: rest).take (n + 1)).foldlM (put size) copy
      filterLoop replacement (rest.drop n) copy size repl
    | 0 =>
      if replacement then
        let grown := if repl < 3 then replacementInc else 0
        let copy ← replacementBytes.foldlM (put (size + grown)) copy
        filterLoop replacement rest copy (size + grown) (repl + grown - 3)
      else filterLoop replacement rest copy size repl
termination_by valid.length
decreasing_by all_goals simp

def utf8Filter (string : Bytes) (replacement : Bool) : Option Bytes := do
  let valid ← utf8Drop string
  if valid.isEmpty then return string
  let i := string.length - valid.length
  filterLoop replacement valid (string.take i) (string.length + 1) 0

/-- `UTF8-tail`. -/
def tail (b : UInt8) : Bool := 0x80 ≤ b && b ≤ 0xBF

/-- `UTF8-char` of RFC 3629. -/
def isEncoding : Bytes → Bool
  | [a] => a ≤ 0x7F
  | [a, b] => 0xC2 ≤ a && a ≤ 0xDF && tail b
  | [a, b, c] =>
    ((a == 0xE0 && 0xA0 ≤ b && b ≤ 0xBF) || (0xE1 ≤ a && a ≤ 0xEC && tail b) ||
      (a == 0xED && 0x80 ≤ b && b ≤ 0x9F) || (0xEE ≤ a && a ≤ 0xEF && tail b)) && tail c
  | [a, b, c, d] =>
    ((a == 0xF0 && 0x90 ≤ b && b ≤ 0xBF) || (0xF1 ≤ a && a ≤ 0xF3 && tail b) ||
      (a == 0xF4 && 0x80 ≤ b && b ≤ 0x8F)) && tail c && tail d
  | _ => false

/-- `UTF8-octets`. -/
inductive WellFormed : Bytes → Prop
  | nil : WellFormed []
  | cons {c rest} : isEncoding c = true → WellFormed rest → WellFormed (c ++ rest)

/-- The text with each byte at which no encoding starts replaced. -/
inductive Filtered (by' : Bytes) : Bytes → Bytes → Prop
  | nil : Filtered by' [] []
  | keep {c rest out} : isEncoding c = true → Filtered by' rest out → Filtered by' (c ++ rest) (c ++ out)
  | bad {b rest out} : (∀ c, isEncoding c = true → ¬ c <+: b :: rest) → Filtered by' rest out →
      Filtered by' (b :: rest) (by' ++ out)

/-- The length of an encoding, from its first byte. -/
def width (a : UInt8) : Nat := if a ≤ 0x7F then 1 else if a ≤ 0xDF then 2 else if a ≤ 0xEF then 3 else 4

theorem mask_iff (b : UInt8) : (b &&& 0x80 = 0 ↔ b ≤ 0x7F) ∧
    (b &&& 0xE0 = 0xC0 ↔ 0xC0 ≤ b ∧ b ≤ 0xDF) ∧ (b &&& 0xF0 = 0xE0 ↔ 0xE0 ≤ b ∧ b ≤ 0xEF) ∧
    (b &&& 0xF8 = 0xF0 ↔ 0xF0 ≤ b ∧ b ≤ 0xF7) ∧ (b &&& 0xC0 = 0x80 ↔ 0x80 ≤ b ∧ b ≤ 0xBF) ∧
    (0xC0 ≤ b → (charLe 0xC2 b = true ↔ 0xC2 ≤ b)) := by
  have all : ∀ v : BitVec 8, (v &&& 0x80#8 = 0#8 ↔ v ≤ 0x7F#8) ∧
      (v &&& 0xE0#8 = 0xC0#8 ↔ 0xC0#8 ≤ v ∧ v ≤ 0xDF#8) ∧
      (v &&& 0xF0#8 = 0xE0#8 ↔ 0xE0#8 ≤ v ∧ v ≤ 0xEF#8) ∧
      (v &&& 0xF8#8 = 0xF0#8 ↔ 0xF0#8 ≤ v ∧ v ≤ 0xF7#8) ∧
      (v &&& 0xC0#8 = 0x80#8 ↔ 0x80#8 ≤ v ∧ v ≤ 0xBF#8) ∧
      (0xC0#8 ≤ v → ((0xC2#8).sle v = true ↔ 0xC2#8 ≤ v)) := by decide
  obtain ⟨one, two, three, four, continued, signed⟩ := all b.toBitVec
  simp only [← UInt8.toBitVec_inj]
  exact ⟨one, two, three, four, continued, fun large => decide_eq_true_iff.trans (signed large)⟩

/-- **The cascade finds the encoding at a position**, whatever stands before the terminator. -/
theorem sequence_eq (a : UInt8) (rest : Bytes) : sequence (a :: rest) =
    some (if isEncoding ((a :: rest).take (width a)) then width a else 0) := by
  obtain ⟨one, two, three, four, -, signed⟩ := mask_iff a
  have continued := fun b => (mask_iff b).2.2.2.2.1
  -- the macros look at up to four bytes
  match rest with
  | [] | [b] | [b, c] | b :: c :: d :: rest =>
    simp [sequence, valid1, valid2, valid3, valid4, masked, read, one, two, three, four, continued,
      width]
    grind [isEncoding, tail]

theorem length_of_isEncoding {a : UInt8} {c : Bytes} (encoding : isEncoding (a :: c) = true) :
    c.length + 1 = width a := by
  match c, encoding with
  | [], encoding | [b], encoding | [b, d], encoding | [b, d, e], encoding =>
    simp only [isEncoding, width, tail] at encoding ⊢
    grind

/-- A string begins with an encoding that the cascade measures, or with a bad byte. -/
theorem sequence_cases (a : UInt8) (rest : Bytes) :
    (∃ c rest', isEncoding (a :: c) = true ∧ rest = c ++ rest' ∧
        sequence (a :: rest) = some (c.length + 1)) ∨
      ((∀ c, isEncoding c = true → ¬ c <+: a :: rest) ∧ sequence (a :: rest) = some 0) := by
  rw [sequence_eq]
  obtain ⟨n, more⟩ : ∃ n, width a = n + 1 := Nat.exists_eq_succ_of_ne_zero (by grind [width])
  by_cases encoding : isEncoding ((a :: rest).take (width a)) = true
  · left
    rw [if_pos encoding]
    rw [more, take_succ_cons] at encoding
    exact ⟨rest.take n, rest.drop n, encoding, (rest.take_append_drop n).symm,
      by rw [length_of_isEncoding encoding]⟩
  · refine .inr ⟨fun c isC start => encoding ?_, by rw [if_neg encoding]⟩
    obtain ⟨rest', same⟩ := start
    cases c with
    | nil => cases isC
    | cons b c =>
      rw [cons_append, List.cons.injEq] at same
      obtain ⟨rfl, rfl⟩ := same
      rw [← length_of_isEncoding isC, ← cons_append, ← length_cons, take_left]
      exact isC

theorem not_wellFormed_of_bad {a : UInt8} {rest : Bytes}
    (bad : ∀ c, isEncoding c = true → ¬ c <+: a :: rest) : ¬ WellFormed (a :: rest) := by
  intro wellFormed
  generalize same : a :: rest = s at wellFormed bad
  cases wellFormed with
  | nil => cases same
  | cons encoding _ => exact bad _ encoding ( prefix_append _ _)

/-- An encoding is told from its first byte, so no other one begins where it does. -/
theorem WellFormed.behind {a : UInt8} {c rest : Bytes} (encoding : isEncoding (a :: c) = true) :
    WellFormed (a :: c ++ rest) ↔ WellFormed rest := by
  constructor
  · intro wellFormed
    generalize same : a :: c ++ rest = s at wellFormed
    cases wellFormed with
    | nil => cases same
    | @cons c' rest' encoding' formed =>
      cases c' with
      | nil => cases encoding'
      | cons b c' =>
        obtain rfl : a = b := (List.cons.inj same).1
        have length : (a :: c).length = (a :: c').length := by
          rw [length_cons, length_cons, length_of_isEncoding encoding,
            length_of_isEncoding encoding']
        rw [(append_inj same length).2]
        exact formed
  · exact .cons encoding

/-- The loop of `w_utf8_drop` passes over a well-formed part and stops at a bad byte. -/
theorem utf8Drop_spec (s : Bytes) : ∃ front back, utf8Drop s = some back ∧ s = front ++ back ∧
    WellFormed front ∧ (back = [] ↔ WellFormed s) := by
  fun_induction utf8Drop s with
  | case1 => exact ⟨[], [], rfl, rfl, .nil, by simp [WellFormed.nil]⟩
  | case2 a rest ih =>
    rcases sequence_cases a rest with ⟨c, rest', encoding, rfl, found⟩ | ⟨bad, found⟩
    · rw [found]
      obtain ⟨front, back, dropped, same, formed, whole⟩ := ih c.length
      rw [drop_left] at dropped same whole
      refine ⟨a :: c ++ front, back, ?_, by simp [same], .cons encoding formed, ?_⟩
      · simpa using dropped
      · rw [whole, ← WellFormed.behind encoding, cons_append]
    · exact ⟨[], a :: rest, by rw [found]; rfl, rfl, .nil, by simp [not_wellFormed_of_bad bad]⟩

theorem foldlM_put {size : Nat} {copy bytes : Bytes} (room : copy.length + bytes.length ≤ size) :
    bytes.foldlM (put size) copy = some (copy ++ bytes) := by
  induction bytes generalizing copy with
  | nil => simp
  | cons b bytes ih =>
    rw [length_cons] at room
    have here : put size copy b = some (copy ++ [b]) := if_pos (by omega)
    have next := @ih (copy ++ [b]) (by simp; omega)
    simp [here, next]

def replacementFor (replacement : Bool) : Bytes := if replacement then replacementBytes else []

/-- **The loop of `w_utf8_filter` has room for every byte it writes.** The block holds what is
written, what is still to be read, the terminator and the credit `repl`. -/
theorem filterLoop_spec (replacement : Bool) (valid copy : Bytes) (size repl : Nat)
    (room : copy.length + valid.length + 1 + repl ≤ size) :
    ∃ out, filterLoop replacement valid copy size repl = some (copy ++ out) ∧
      Filtered (replacementFor replacement) valid out := by
  induction length : valid.length using Nat.strong_induction_on generalizing valid copy size repl with
  | _ n ih =>
    subst length
    cases valid with
    | nil =>
      rw [length_nil] at room
      exact ⟨[], by rw [filterLoop, if_pos (by omega), append_nil], .nil⟩
    | cons a rest =>
      rw [filterLoop]
      rcases sequence_cases a rest with ⟨c, rest', encoding, rfl, found⟩ | ⟨bad, found⟩
      · have room' : (copy ++ a :: c).length + rest'.length + 1 + repl ≤ size := by
          simp at room ⊢
          omega
        obtain ⟨out, written, filtered⟩ := ih _ (by simp) rest' _ size repl room' rfl
        refine ⟨a :: c ++ out, ?_, .keep encoding filtered⟩
        have taken : (a :: (c ++ rest')).take (c.length + 1) = a :: c := by simp
        have put := @foldlM_put size copy (a :: c) (by simp at room ⊢; omega)
        simp only [found, bind_eq_bind, bind_some, taken, put, drop_left, written,
          append_assoc]
      · cases replacement with
        | false =>
          obtain ⟨out, written, filtered⟩ := ih _ (by simp) rest copy size repl
            (by simp at room; omega) rfl
          exact ⟨out, by simp [found, written], .bad bad filtered⟩
        | true =>
          -- the credit covers three bytes once the block has grown
          obtain ⟨grown, credit, enough⟩ : ∃ grown, grown = (if repl < 3 then replacementInc else 0) ∧
              3 ≤ repl + grown := ⟨_, rfl, by unfold replacementInc; split <;> omega⟩
          have put := @foldlM_put (size + grown) copy replacementBytes
            (by simp [replacementBytes] at room ⊢; omega)
          obtain ⟨out, written, filtered⟩ := ih _ (by simp) rest (copy ++ replacementBytes)
            (size + grown) (repl + grown - 3) (by simp [replacementBytes] at room ⊢; omega) rfl
          refine ⟨replacementBytes ++ out, ?_, .bad bad filtered⟩
          simp only [found, bind_eq_bind, bind_some, if_true, ← credit, put, written,
            append_assoc]

theorem Filtered.wellFormed {replacement : Bool} {s out : Bytes}
    (filtered : Filtered (replacementFor replacement) s out) : WellFormed out := by
  induction filtered with
  | nil => exact .nil
  | keep encoding _ ih => exact .cons encoding ih
  | bad _ _ ih =>
    cases replacement with
    | false => exact ih
    | true => exact .cons (by decide) ih

theorem Filtered.cString {replacement : Bool} {s out : Bytes}
    (filtered : Filtered (replacementFor replacement) s out) (plain : 0 ∉ s) : 0 ∉ out := by
  induction filtered with
  | nil => exact plain
  | keep _ _ ih =>
    rw [mem_append, not_or] at plain ⊢
    exact ⟨plain.1, ih plain.2⟩
  | bad _ _ ih =>
    rw [mem_append, not_or]
    exact ⟨by cases replacement <;> decide, ih (not_mem_of_not_mem_cons plain)⟩

theorem Filtered.append {by' front s out : Bytes} (formed : WellFormed front)
    (filtered : Filtered by' s out) : Filtered by' (front ++ s) (front ++ out) := by
  induction formed with
  | nil => exact filtered
  | cons encoding _ ih =>
    rw [append_assoc, append_assoc]
    exact .keep encoding ih

theorem utf8Filter_of_wellFormed {s : Bytes} (formed : WellFormed s) (replacement : Bool) :
    utf8Filter s replacement = some s := by
  obtain ⟨front, back, dropped, -, -, whole⟩ := utf8Drop_spec s
  rw [whole.mpr formed] at dropped
  simp [utf8Filter, dropped]

theorem utf8Filter_spec (s : Bytes) (replacement : Bool) :
    ∃ out, utf8Filter s replacement = some out ∧ Filtered (replacementFor replacement) s out := by
  obtain ⟨front, back, dropped, same, formed, whole⟩ := utf8Drop_spec s
  by_cases valid : back = []
  · refine ⟨s, utf8Filter_of_wellFormed (whole.mp valid) replacement, ?_⟩
    simpa using Filtered.append (whole.mp valid) Filtered.nil
  · have length : s.length - back.length = front.length := by simp [same]
    have front_eq : s.take front.length = front := by simp [same]
    obtain ⟨out, written, filtered⟩ := filterLoop_spec replacement back front (s.length + 1) 0
      (by simp [same])
    refine ⟨front ++ out, ?_, by rw [same]; exact filtered.append formed⟩
    simp [utf8Filter, dropped, valid, length, front_eq, written]

/-- **`w_utf8_valid` decides UTF-8 and `w_utf8_filter` makes UTF-8 of any string**, changing
nothing but the bytes at which no encoding starts. All reads are within the string and its
terminator and all writes within the allocated block, or there would be no result. -/
theorem utf8_filtering (s : CString) (replacement : Bool) :
    (∃ answer, utf8Valid s.1 = some answer ∧ (answer = true ↔ WellFormed s.1)) ∧
    ∃ out : CString, utf8Filter s.1 replacement = some out.1 ∧ WellFormed out.1 ∧
      (WellFormed s.1 → out = s) ∧
      Filtered (if replacement then [0xEF, 0xBF, 0xBD] else []) s.1 out.1 ∧
      utf8Filter out.1 replacement = some out.1 := by
  constructor
  · obtain ⟨front, back, dropped, -, -, whole⟩ := utf8Drop_spec s.1
    exact ⟨back.isEmpty, by simp [utf8Valid, dropped], by rw [List.isEmpty_iff, whole]⟩
  · obtain ⟨out, written, filtered⟩ := utf8Filter_spec s.1 replacement
    refine ⟨⟨out, filtered.cString s.2⟩, written, filtered.wellFormed, fun formed => ?_, filtered,
      utf8Filter_of_wellFormed filtered.wellFormed replacement⟩
    rw [utf8Filter_of_wellFormed formed] at written
    exact Subtype.ext (Option.some.inj written).symm

end GuardSarm.Utf8
