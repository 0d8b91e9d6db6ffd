import GuardSarm.Lib.Text

/-!
# Digit texts compared without converting them

The value of a run of digits has no bound, and programs that compare such runs
do not compute it: without leading zeros the longer run is the greater one,
and runs of one length are ordered as texts.

* `compare_digits`: runs without leading zeros.
-/

namespace GuardSarm

open List

open Std

/-- The number that a run of digits stands for. -/
def digitsValue (digits : Text) : Nat := Nat.ofDigitChars 10 digits 0

def AllDigits (text : Text) : Prop := ∀ c ∈ text, c.isDigit = true

/-- Characters by their codes. -/
def compareCode : Char → Char → Ordering := compareOn Char.toNat

instance : TransCmp compareCode := inferInstanceAs (TransCmp (compareOn _))

/-- `strcmp`. -/
def strcmp : Text → Text → Ordering := List.compareLex compareCode

instance : TransCmp strcmp := inferInstanceAs (TransCmp (List.compareLex _))

theorem compareCode_eq_iff {c d : Char} : compareCode c d = .eq ↔ c = d := by
  rw [compareCode, compareOn, Nat.compare_eq_eq, Char.toNat_inj]

theorem compareLex_cons {α : Type} (cmp : α → α → Ordering) (x y : α) (xs ys : List α) :
    (x :: xs).compareLex cmp (y :: ys) = (cmp x y).then (xs.compareLex cmp ys) := by
  simp only [List.compareLex]
  cases cmp x y <;> rfl

theorem strcmp_cons (c d : Char) (left right : Text) :
    strcmp (c :: left) (d :: right) = (compareCode c d).then (strcmp left right) :=
  compareLex_cons compareCode c d left right

theorem strcmp_swap (left right : Text) : strcmp left right = (strcmp right left).swap :=
  OrientedCmp.eq_swap

theorem strcmp_eq_iff {left right : Text} : strcmp left right = .eq ↔ left = right := by
  induction left generalizing right with
  | nil => cases right <;> simp [strcmp, List.compareLex]
  | cons c left ih =>
    cases right with
    | nil => simp [strcmp, List.compareLex]
    | cons d right => rw [strcmp_cons, Ordering.then_eq_eq, ih, compareCode_eq_iff, List.cons.injEq]

theorem strcmp_append_left (common left right : Text) :
    strcmp (common ++ left) (common ++ right) = strcmp left right := by
  induction common with
  | nil => rfl
  | cons c common ih =>
    rw [cons_append, cons_append, strcmp_cons, compareCode_eq_iff.mpr rfl, ih]
    rfl

section

variable {left right : Text}

variable {c : Char}

theorem digit_code (digit : c.isDigit = true) : 48 ≤ c.toNat ∧ c.toNat ≤ 57 := by
  simpa [Char.isDigit, UInt32.le_iff_toNat_le] using digit

theorem alpha_code (alpha : c.isAlpha = true) : 65 ≤ c.toNat ∧ c.toNat ≤ 122 := by
  simp only [Char.isAlpha, Char.isUpper, Char.isLower, Bool.or_eq_true, Bool.and_eq_true,
    decide_eq_true_eq, ge_iff_le, UInt32.le_iff_toNat_le] at alpha
  rcases alpha with upper | lower
  · exact ⟨upper.1, upper.2.trans (by decide)⟩
  · exact ⟨Nat.le_trans (by decide) lower.1, lower.2⟩

theorem not_isAlpha_of_isDigit (digit : c.isDigit = true) : c.isAlpha = false := by
  by_contra alpha
  have low := alpha_code (Bool.of_not_eq_false alpha)
  have high := digit_code digit
  omega

theorem AllDigits.tail {text : Text} (all : AllDigits (c :: text)) : AllDigits text :=
  fun d member => all d (List.mem_cons_of_mem c member)

/-- One more digit on each side, behind what was read so far. -/
theorem compare_digit {c d : Char} (left : c.isDigit = true) (right : d.isDigit = true)
    (x y : Nat) : compare (10 * x + (c.toNat - '0'.toNat)) (10 * y + (d.toNat - '0'.toNat)) =
      (compare x y).then (compareCode c d) := by
  have lower := digit_code left
  have upper := digit_code right
  have zero : '0'.toNat = 48 := rfl
  rw [compareCode, compareOn, zero]
  rcases Nat.lt_trichotomy x y with less | rfl | greater
  · rw [Nat.compare_eq_lt.mpr less, Nat.compare_eq_lt.mpr (by omega)]
    rfl
  · rw [Nat.compare_eq_eq.mpr rfl, Ordering.eq_then]
    simp only [Nat.compare_eq_ite_lt]
    split_ifs <;> first | rfl | omega
  · rw [Nat.compare_eq_gt.mpr greater, Nat.compare_eq_gt.mpr (by omega)]
    rfl

/-- Runs of one length are ordered as texts, behind what was read before them. -/
theorem compare_ofDigitChars (allLeft : AllDigits left) (allRight : AllDigits right)
    (same : left.length = right.length) (x y : Nat) :
    compare (Nat.ofDigitChars 10 left x) (Nat.ofDigitChars 10 right y) =
      (compare x y).then (strcmp left right) := by
  induction left generalizing right x y with
  | nil =>
    obtain rfl := length_eq_zero_iff.mp same.symm
    simp [strcmp, List.compareLex]
  | cons c left ih =>
    cases right with
    | nil => cases same
    | cons d right =>
      rw [Nat.ofDigitChars_cons, Nat.ofDigitChars_cons,
        ih allLeft.tail allRight.tail (Nat.succ.inj same),
        compare_digit (allLeft c mem_cons_self) (allRight d mem_cons_self), strcmp_cons,
        Ordering.then_assoc]

theorem digitsValue_lt (all : AllDigits left) : digitsValue left < 10 ^ left.length := by
  induction left with
  | nil => simp [digitsValue]
  | cons c left ih =>
    have code := digit_code (all c mem_cons_self)
    have rest := ih all.tail
    have first : c.toNat - '0'.toNat ≤ 9 := by change c.toNat - 48 ≤ 9; omega
    rw [digitsValue, Nat.ofDigitChars_cons, Nat.mul_zero, Nat.zero_add,
      Nat.ofDigitChars_eq_ofDigitChars_zero, length_cons, Nat.pow_succ]
    rw [digitsValue] at rest
    nlinarith

theorem le_digitsValue (all : AllDigits (c :: left)) (leading : c ≠ '0') :
    10 ^ left.length ≤ digitsValue (c :: left) := by
  have code := digit_code (all c mem_cons_self)
  have other : c.toNat ≠ 48 := fun same => leading (Char.toNat_inj.mp same)
  have first : 1 ≤ c.toNat - '0'.toNat := by change 1 ≤ c.toNat - 48; omega
  rw [digitsValue, Nat.ofDigitChars_cons, Nat.mul_zero, Nat.zero_add,
    Nat.ofDigitChars_eq_ofDigitChars_zero]
  exact (Nat.le_mul_of_pos_right _ first).trans (Nat.le_add_right _ _)

/-- A longer run without leading zeros is a greater number. -/
theorem digitsValue_lt_of_length (allLeft : AllDigits left) (allRight : AllDigits right)
    (leading : right.head? ≠ some '0') (shorter : left.length < right.length) :
    digitsValue left < digitsValue right := by
  cases right with
  | nil => cases shorter
  | cons d right =>
    have large := le_digitsValue allRight (by simpa using leading)
    have small := digitsValue_lt allLeft
    have power : 10 ^ left.length ≤ 10 ^ right.length :=
      Nat.pow_le_pow_right (by decide) (Nat.lt_succ_iff.mp shorter)
    omega

/-- Runs without leading zeros, which matter in the longer one: by length, and then as texts. -/
theorem compare_digits_of_longer (allLeft : AllDigits left) (allRight : AllDigits right)
    (leadingLeft : right.length < left.length → left.head? ≠ some '0')
    (leadingRight : left.length < right.length → right.head? ≠ some '0') :
    compare (digitsValue left) (digitsValue right) =
      (compare left.length right.length).then (strcmp left right) := by
  rcases Nat.lt_trichotomy left.length right.length with less | same | greater
  · rw [Nat.compare_eq_lt.mpr less, Nat.compare_eq_lt.mpr
      (digitsValue_lt_of_length allLeft allRight (leadingRight less) less)]
    rfl
  · rw [digitsValue, digitsValue, compare_ofDigitChars allLeft allRight same, same,
      Nat.compare_eq_eq.mpr rfl, Nat.compare_eq_eq.mpr rfl]
  · rw [Nat.compare_eq_gt.mpr greater, Nat.compare_eq_gt.mpr
      (digitsValue_lt_of_length allRight allLeft (leadingLeft greater) greater)]
    rfl

theorem compare_digits (allLeft : AllDigits left) (allRight : AllDigits right)
    (leadingLeft : left.head? ≠ some '0') (leadingRight : right.head? ≠ some '0') :
    compare (digitsValue left) (digitsValue right) =
      (compare left.length right.length).then (strcmp left right) :=
  compare_digits_of_longer allLeft allRight (fun _ => leadingLeft) fun _ => leadingRight

theorem digitsValue_dropZeros (digits : Text) :
    digitsValue (digits.dropWhile (· == '0')) = digitsValue digits := by
  induction digits with
  | nil => rfl
  | cons c digits ih =>
    rw [dropWhile_cons]
    split
    · rename_i zero
      rw [ih, beq_iff_eq.mp zero, digitsValue, digitsValue, Nat.ofDigitChars_cons]
      rfl
    · rfl

theorem head?_dropZeros (digits : Text) : (digits.dropWhile (· == '0')).head? ≠ some '0' := by
  intro zero
  have kept := head?_dropWhile_not (· == '0') digits
  rw [zero] at kept
  simp at kept

end

end GuardSarm
