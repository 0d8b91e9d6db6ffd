import GuardSarm.Scanner.Conversion

/-!
# Calendar versions, and versions of two numbers

`VersionObjectCalVer` reads a year with an optional month, day and number; a
month or a day out of range makes it refuse the version. `VersionObjectMajorMinor`
reads two numbers.

* `CalVer.year_captured`, `CalVer.field_captured`, `CalVer.micro_captured`,
  `MajorMinor.number_captured`: what the groups of an accepted version hold.
-/

namespace GuardSarm

open List

open Regexp

structure CalVer where
  year : Nat
  month : Nat
  day : Nat
  micro : Nat
  deriving DecidableEq

namespace CalVer

/-- `(\.\d{1,2})?`, with its own group. -/
def shortField (index : Nat) : Regexp := opt (.group index (cat [this '.', digit, opt digit]))

def parserRegex : Regexp :=
  cat [.group 1 (.alt (cat [digit, digit]) (cat [digit, digit, digit, digit])), shortField 2,
    shortField 3, opt (.group 4 (.seq (this '.') (plus digit)))]

/-- The month or the day, 0 if it is missing. A field out of range is none. -/
def field (text : Text) (most : Nat) : Except VersionError (Option Nat) :=
  if text = [] then .ok (some 0)
  else do
    let value ← stoul text.tail
    -- `static_cast<uint8_t>`
    let value := value % 2 ^ 8
    return if value < 1 ∨ value > most then none else some value

/-- The fields in the order in which they are read. -/
def read (parserMatches : Captures) : Except VersionError (Option CalVer) := do
  let number ← stoul (parserMatches.str 1)
  -- `static_cast<uint16_t>`
  let number := number % 2 ^ 16
  let year := if (parserMatches.str 1).length = 2 then number + 2000 else number
  match ← field (parserMatches.str 2) 12 with
  | none => return none
  | some month => do
    match ← field (parserMatches.str 3) 31 with
    | none => return none
    | some day => do
      let micro ←
        if parserMatches.str 4 = [] then .ok 0 else stoul (parserMatches.str 4).tail
      return some ⟨year % 2 ^ 16, month, day, toUInt32 micro⟩

/-- `match`. -/
def matchVersion (version : Text) : Except VersionError (Option CalVer) :=
  match matchText parserRegex version with
  | none => .ok none
  | some parserMatches => read parserMatches

/-- `operator==`. -/
def equal (a b : CalVer) : Bool :=
  a.year == b.year && a.month == b.month && a.day == b.day && a.micro == b.micro

/-- `operator<`. -/
def less (a b : CalVer) : Bool :=
  if a.year < b.year then true
  else if a.year > b.year then false
  else if a.month < b.month then true
  else if a.month > b.month then false
  else if a.day < b.day then true
  else if a.day > b.day then false
  else a.micro < b.micro

def versionClass : VersionClass where
  Object := CalVer
  matchVersion := matchVersion
  equal := equal
  less := less

theorem groups_parserRegex : groups parserRegex =
    [(1, .alt (cat [digit, digit]) (cat [digit, digit, digit, digit])),
      (2, cat [this '.', digit, opt digit]), (3, cat [this '.', digit, opt digit]),
      (4, .seq (this '.') (plus digit))] := rfl

theorem required_parserRegex : required parserRegex = [1] := rfl

/-- A run of a few digits. -/
def ShortDigits (most : Nat) (text : Text) : Prop :=
  AllDigits text ∧ text ≠ [] ∧ text.length ≤ most

section

variable {version : Text} {captures : Captures}

section

variable (matched : matchText parserRegex version = some captures)
include matched

theorem year_captured : ShortDigits 4 (captures.str 1) := by
  obtain ⟨body, among, word⟩ := str_of_required matched (required_parserRegex ▸ mem_cons_self)
  rw [groups_parserRegex] at among
  obtain rfl : body = .alt (cat [digit, digit]) (cat [digit, digit, digit, digit]) := by
    simpa using among
  generalize captures.str 1 = text at word ⊢
  cases word with
  | inl two =>
    obtain ⟨_, ⟨a, first, rfl⟩, _, ⟨b, second, rfl⟩, rfl⟩ := Language.mem_mul.mp two
    simp [ShortDigits, AllDigits, first, second]
  | inr four =>
    obtain ⟨_, ⟨a, first, rfl⟩, _, three, rfl⟩ := Language.mem_mul.mp four
    obtain ⟨_, ⟨b, second, rfl⟩, _, two, rfl⟩ := Language.mem_mul.mp three
    obtain ⟨_, ⟨c, third, rfl⟩, _, ⟨d, fourth, rfl⟩, rfl⟩ := Language.mem_mul.mp two
    simp [ShortDigits, AllDigits, first, second, third, fourth]

theorem field_captured {index : Nat} (date : index ∈ [2, 3]) : captures.str index = [] ∨
      (captures.str index ≠ [] ∧ ShortDigits 2 (captures.str index).tail) := by
  refine (str_of_matched matched index).imp_right fun ⟨body, among, word⟩ => ?_
  obtain rfl : body = cat [this '.', digit, opt digit] := by
    rw [groups_parserRegex] at among
    simp only [mem_cons, not_mem_nil, or_false] at date
    rcases date with rfl | rfl <;> simpa using among
  generalize captures.str index = text at word ⊢
  obtain ⟨_, dot, _, more, rfl⟩ := Language.mem_mul.mp word
  obtain rfl := mem_lang_this.mp dot
  obtain ⟨_, ⟨a, first, rfl⟩, last, rest, rfl⟩ := Language.mem_mul.mp more
  cases rest with
  | inl another =>
    obtain ⟨b, second, rfl⟩ := another
    simp [ShortDigits, AllDigits, first, second]
  | inr none =>
    obtain rfl := Set.mem_singleton_iff.mp none
    simp [ShortDigits, AllDigits, first]

theorem micro_captured : captures.str 4 = [] ∨
      (captures.str 4 ≠ [] ∧ AllDigits (captures.str 4).tail ∧ (captures.str 4).tail ≠ []) := by
  refine (str_of_matched matched 4).imp_right fun ⟨body, among, word⟩ => ?_
  obtain rfl : body = .seq (this '.') (plus digit) := by
    rw [groups_parserRegex] at among
    simpa using among
  generalize captures.str 4 = text at word ⊢
  obtain ⟨_, dot, digits, number, rfl⟩ := Language.mem_mul.mp word
  obtain rfl := mem_lang_this.mp dot
  obtain ⟨some, all⟩ := of_mem_lang_plus_char number
  exact ⟨cons_ne_nil _ _, all, some⟩

end

end

end CalVer

structure MajorMinor where
  major : Nat
  minor : Nat
  deriving DecidableEq

namespace MajorMinor

def parserRegex : Regexp :=
  cat [.group 1 (plus digit), .char ".-".toList.contains, .group 2 (plus digit)]

/-- `match`. -/
def matchVersion (version : Text) : Except VersionError (Option MajorMinor) :=
  match matchText parserRegex version with
  | none => .ok none
  | some parserMatches => do
    let major ← stoul (parserMatches.str 1)
    let minor ← stoul (parserMatches.str 2)
    return some ⟨toUInt32 major, toUInt32 minor⟩

/-- `operator==`. -/
def equal (a b : MajorMinor) : Bool := a.major == b.major && a.minor == b.minor

/-- `operator<`. -/
def less (a b : MajorMinor) : Bool :=
  if a.major < b.major then true
  else if a.major > b.major then false
  else a.minor < b.minor

def versionClass : VersionClass where
  Object := MajorMinor
  matchVersion := matchVersion
  equal := equal
  less := less

theorem groups_parserRegex : groups parserRegex = [(1, plus digit), (2, plus digit)] := rfl

theorem number_captured {version : Text} {captures : Captures}
    (matched : matchText parserRegex version = some captures) {index : Nat}
    (number : index ∈ [1, 2]) : AllDigits (captures.str index) ∧ captures.str index ≠ [] := by
  have always : required parserRegex = [1, 2] := rfl
  obtain ⟨body, among, word⟩ := str_of_required matched (always ▸ number)
  have digits : body = plus digit := by
    rw [groups_parserRegex] at among
    simp only [mem_cons, not_mem_nil, or_false] at number
    rcases number with rfl | rfl <;> simpa using among
  exact (of_mem_lang_plus_char (digits ▸ word)).symm

end MajorMinor

end GuardSarm
