import GuardSarm.Scanner.Conversion

/-!
# Semantic versions

`VersionObjectSemVer`: three numbers, a pre-release and build metadata, read
with the regular expression of the SemVer specification. The numbers are kept
in 32 bits, the pre-release is kept and compared as one text.

* `number_captured`, `preRelease_captured`: what the groups of an accepted version hold.
-/

namespace GuardSarm

open List

structure SemVer where
  major : Nat
  minor : Nat
  patch : Nat
  preRelease : Text
  buildMetadata : Text
  deriving DecidableEq

namespace SemVer

open Regexp

def isPositiveDigit (c : Char) : Bool := c.isDigit && c != '0'

/-- `[a-zA-Z-]`. -/
def isLetter (c : Char) : Bool := c.isAlpha || c == '-'

/-- `[0-9a-zA-Z-]`. -/
def isIdentifierChar (c : Char) : Bool := c.isDigit || isLetter c

/-- `0|[1-9]\d*`. -/
def number : Regexp := .alt (this '0') (.seq (.char isPositiveDigit) (.star digit))

/-- `\d*[a-zA-Z-][0-9a-zA-Z-]*`. -/
def alphanumeric : Regexp :=
  cat [.star digit, .char isLetter, .star (.char isIdentifierChar)]

def preReleaseRegex : Regexp := separated '.' (.alt number alphanumeric)

def parserRegex : Regexp :=
  cat [.group 1 number, this '.', .group 2 number, this '.', .group 3 number,
    opt (.seq (this '-') (.group 4 preReleaseRegex)),
    opt (.seq (this '+') (.group 5 (separated '.' (plus (.char isIdentifierChar)))))]

/-- `match`. -/
def matchVersion (version : Text) : Except VersionError (Option SemVer) :=
  match matchText parserRegex version with
  | none => .ok none
  | some parserMatches => do
    let major ← stoul (parserMatches.str 1)
    let minor ← stoul (parserMatches.str 2)
    let patch ← stoul (parserMatches.str 3)
    return some ⟨toUInt32 major, toUInt32 minor, toUInt32 patch, parserMatches.str 4,
      parserMatches.str 5⟩

/-- `operator==`. -/
def equal (a b : SemVer) : Bool :=
  a.major == b.major && a.minor == b.minor && a.patch == b.patch && a.preRelease == b.preRelease

/-- `operator<`. -/
def less (a b : SemVer) : Bool :=
  if a.major < b.major then true
  else if a.major > b.major then false
  else if a.minor < b.minor then true
  else if a.minor > b.minor then false
  else if a.patch < b.patch then true
  else if a.patch > b.patch then false
  else if a.preRelease ≠ [] ∧ b.preRelease = [] then true
  else if a.preRelease ≠ [] ∧ b.preRelease ≠ [] then strcmp a.preRelease b.preRelease == .lt
  else false

def versionClass : VersionClass where
  Object := SemVer
  matchVersion := matchVersion
  equal := equal
  less := less

theorem of_mem_number {text : Text} (word : text ∈ lang number) :
    AllDigits text ∧ text ≠ [] ∧ (text.head? = some '0' → text = ['0']) := by
  cases word with
  | inl zero =>
    obtain rfl := mem_lang_this.mp zero
    exact ⟨by simp [AllDigits], cons_ne_nil _ _, fun _ => rfl⟩
  | inr positive =>
    obtain ⟨first, ⟨c, leading, rfl⟩, rest, digits, rfl⟩ := Language.mem_mul.mp positive
    rw [isPositiveDigit, Bool.and_eq_true, bne_iff_ne] at leading
    refine ⟨fun d member => ?_, cons_ne_nil _ _, fun zero => ?_⟩
    · cases mem_cons.mp member with
      | inl same => exact same ▸ leading.1
      | inr later => exact of_mem_lang_star_char digits d later
    · exact absurd (Option.some.inj zero) leading.2

theorem of_mem_alphanumeric {text : Text} (word : text ∈ lang alphanumeric) :
    (∀ c ∈ text, isIdentifierChar c = true) ∧ ∃ c ∈ text, isLetter c = true := by
  obtain ⟨digits, all, rest, more, rfl⟩ := Language.mem_mul.mp word
  obtain ⟨_, ⟨c, letter, rfl⟩, last, chars, rfl⟩ := Language.mem_mul.mp more
  constructor
  · intro d member
    rw [isIdentifierChar, Bool.or_eq_true]
    rcases mem_append.mp member with early | late
    · exact .inl (of_mem_lang_star_char all d early)
    · cases mem_cons.mp late with
      | inl same => exact .inr (same ▸ letter)
      | inr later => exact Bool.or_eq_true _ _ ▸ of_mem_lang_star_char chars d later
  · exact ⟨c, by simp, letter⟩

theorem groups_parserRegex : groups parserRegex =
    [(1, number), (2, number), (3, number), (4, preReleaseRegex),
      (5, separated '.' (plus (.char isIdentifierChar)))] := rfl

section

variable {version : Text} {captures : Captures}

theorem number_captured (matched : matchText parserRegex version = some captures) {index : Nat}
    (core : index ∈ [1, 2, 3]) : captures.str index ∈ lang number := by
  have always : required parserRegex = [1, 2, 3] := rfl
  obtain ⟨body, among, word⟩ := str_of_required matched (always ▸ core)
  rw [groups_parserRegex] at among
  simp only [mem_cons, not_mem_nil, or_false] at core
  rcases core with rfl | rfl | rfl <;> simp_all

theorem preRelease_captured (matched : matchText parserRegex version = some captures) :
    captures.str 4 = [] ∨ captures.str 4 ∈ lang preReleaseRegex := by
  refine (str_of_matched matched 4).imp_right fun ⟨body, among, word⟩ => ?_
  rw [groups_parserRegex] at among
  simp_all

end

example : matchVersion "1.2.3-rc.1+b7".toList =
    .ok (some ⟨1, 2, 3, "rc.1".toList, "b7".toList⟩) := by decide +kernel

end SemVer

end GuardSarm
