import Mathlib

/-! Texts as the C code has them: the bytes before the terminating zero. A byte is written
as the character of its code. Numbers are printed by `decimal` and `padded` and read back
by `scanInt`, which stops at the first character that is no digit. -/
namespace GuardSarm

open List

abbrev Text := List Char

def nul : Char := Char.ofNat 0

/-- The string that a buffer with these bytes holds. -/
def cString (buffer : Text) : Text := buffer.takeWhile (· != nul)

theorem cString_eq_self {buffer : Text} (plain : nul ∉ buffer) : cString buffer = buffer := by
  rw [cString, takeWhile_eq_self_iff]
  intro c member
  simp only [bne_iff_ne]
  rintro rfl
  exact plain member

@[simp]
theorem cString_nul_cons (rest : Text) : cString (nul :: rest) = [] := by
  simp [cString]

/-- `%u`. -/
def decimal (n : Nat) : Text := Nat.toDigits 10 n

/-- `%0<width>u`. -/
def padded (width n : Nat) : Text := (decimal n).leftpad width '0'

def isSpace (c : Char) : Bool := c == ' ' || (decide (9 ≤ c.toNat) && decide (c.toNat ≤ 13))

def scanSign : Text → Bool × Text
  | '-' :: rest => (true, rest)
  | '+' :: rest => (false, rest)
  | text => (false, text)

/-- A number after blanks and a sign, and what follows it. -/
def scanInt (text : Text) : Option (Int × Text) :=
  let (negative, text) := scanSign (text.dropWhile isSpace)
  let digits := text.takeWhile Char.isDigit
  let number : Int := Nat.ofDigitChars 10 digits 0
  if digits = [] then none else some (if negative then -number else number, text.drop digits.length)

/-- A number as an `unsigned int`. -/
def unsigned (number : Int) : Nat := (number % 2 ^ 32).toNat

/-- `(unsigned int) atoi(text)`. -/
def atoiUnsigned (text : Text) : Nat := ((scanInt text).map fun scanned => unsigned scanned.1).getD 0

section numbers

variable {digits rest : Text}

theorem digit_cases {c : Char} (digit : c.isDigit = true) :
    isSpace c = false ∧ c ≠ '-' ∧ c ≠ '+' ∧ c ≠ ':' ∧ c ≠ nul := by
  have code : 48 ≤ c.toNat ∧ c.toNat ≤ 57 := by
    simp only [Char.isDigit, Bool.and_eq_true, decide_eq_true_eq, ge_iff_le,
      UInt32.le_iff_toNat_le] at digit
    exact digit
  have other {d : Char} (apart : d.toNat < 48 ∨ 57 < d.toNat) : c ≠ d := by
    rintro rfl
    omega
  refine ⟨?_, other (by decide), other (by decide), other (by decide), other (by decide)⟩
  have blank : c ≠ ' ' := other (by decide)
  simp only [isSpace, Bool.or_eq_false_iff, beq_eq_false_iff_ne, Bool.and_eq_false_iff,
    decide_eq_false_iff_not]
  exact ⟨blank, .inr (by omega)⟩

/-- A number is read up to the first character that is no digit. -/
theorem scanInt_digits (given : digits ≠ []) (all : ∀ c ∈ digits, c.isDigit = true)
    (stop : ∀ c, rest.head? = some c → c.isDigit = false) :
    scanInt (digits ++ rest) = some (((Nat.ofDigitChars 10 digits 0 : Nat) : Int), rest) := by
  obtain ⟨first, others, rfl⟩ := exists_cons_of_ne_nil given
  obtain ⟨space, minus, plus, _⟩ := digit_cases (all first mem_cons_self)
  have taken : (first :: others ++ rest).takeWhile Char.isDigit = first :: others := by
    rw [takeWhile_append_of_pos all]
    cases rest with
    | nil => simp
    | cons c rest => simp [stop c rfl]
  have start : (first :: others ++ rest).dropWhile isSpace = first :: others ++ rest := by
    rw [cons_append, dropWhile_cons, space]
    rfl
  have unsigned : scanSign (first :: others ++ rest) = (false, first :: others ++ rest) := by
    rw [cons_append, scanSign]
    · rintro rest ⟨⟩
      exact minus rfl
    · rintro rest ⟨⟩
      exact plus rfl
  simp only [scanInt, start, unsigned, taken, if_neg given, drop_left]
  rfl

theorem isDigit_of_mem_decimal {n : Nat} {c : Char} (member : c ∈ decimal n) : c.isDigit = true :=
  Nat.isDigit_of_mem_toDigits (by decide) (by decide) member

theorem isDigit_of_mem_padded {width n : Nat} {c : Char} (member : c ∈ padded width n) :
    c.isDigit = true := by
  rw [padded, List.leftpad, mem_append] at member
  rcases member with zero | digit
  · rw [eq_of_mem_replicate zero]
    rfl
  · exact isDigit_of_mem_decimal digit

theorem decimal_ne_nil (n : Nat) : decimal n ≠ [] := Nat.toDigits_ne_nil

theorem padded_ne_nil (width n : Nat) : padded width n ≠ [] := by
  rw [padded, List.leftpad]
  exact append_ne_nil_of_right_ne_nil _ (decimal_ne_nil n)

theorem length_padded {width n : Nat} (positive : 0 < width) (small : n < 10 ^ width) :
    (padded width n).length = width := by
  have short : (decimal n).length ≤ width :=
    (Nat.length_toDigits_le_iff (by decide) positive).mpr small
  rw [padded, List.leftpad, length_append, length_replicate]
  omega

theorem scanInt_decimal (n : Nat) (stop : ∀ c, rest.head? = some c → c.isDigit = false) :
    scanInt (decimal n ++ rest) = some ((n : Int), rest) := by
  rw [scanInt_digits (decimal_ne_nil n) (fun _ => isDigit_of_mem_decimal) stop, decimal,
    Nat.ofDigitChars_toDigits (by decide) (by decide)]

theorem scanInt_padded (width n : Nat) (stop : ∀ c, rest.head? = some c → c.isDigit = false) :
    scanInt (padded width n ++ rest) = some ((n : Int), rest) := by
  rw [scanInt_digits (padded_ne_nil width n) (fun _ => isDigit_of_mem_padded) stop, padded,
    List.leftpad, Nat.ofDigitChars_append, Nat.ofDigitChars_replicate_zero, Nat.mul_zero, decimal,
    Nat.ofDigitChars_toDigits (by decide) (by decide)]

theorem unsigned_natCast {n : Nat} (small : n < 2 ^ 32) : unsigned n = n := by
  rw [unsigned]
  omega

theorem atoiUnsigned_padded {width n : Nat} (small : n < 2 ^ 32)
    (stop : ∀ c, rest.head? = some c → c.isDigit = false) :
    atoiUnsigned (padded width n ++ rest) = n := by
  rw [atoiUnsigned, scanInt_padded width n stop]
  exact unsigned_natCast small

end numbers

end GuardSarm
