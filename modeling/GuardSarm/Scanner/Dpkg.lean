import GuardSarm.Scanner.VersionMatcher

/-!
# Debian versions

`VersionObjectDpkg`: an epoch, an upstream version and a revision, compared
in turn. `compareVersionAndRevision` walks over two texts at once, through
characters that are no digits and then through a number, until the texts
differ or end.
-/

namespace GuardSarm

open List

structure Dpkg where
  epoch : Nat
  version : Text
  revision : Text
  deriving DecidableEq

namespace Dpkg

/-- The value of a `char`, which is signed. -/
def charCode (chr : Char) : Int := if chr.toNat < 128 then chr.toNat else (chr.toNat : Int) - 256

/-- The weight of a character. -/
def order (chr : Char) : Int :=
  if chr.isDigit then 0
  else if chr.isAlpha then charCode chr
  else if chr = '~' then -1
  else if chr ≠ nul then charCode chr + 256
  else 0

/-- `*ptr && !std::isdigit(*ptr)`. -/
def atNonDigit : Text → Bool
  | [] => false
  | c :: _ => !c.isDigit

/-- `std::isdigit(*ptr)`. -/
def atDigit : Text → Bool
  | [] => false
  | c :: _ => c.isDigit

/-- The first inner loop: a difference, or where it leaves the two texts. -/
def skipNonDigits (leftSide rightSide : Text) : Except Int (Text × Text) :=
  if _go : atNonDigit leftSide || atNonDigit rightSide then
    let firstAux := order (leftSide.headD nul)
    let secondAux := order (rightSide.headD nul)
    if firstAux ≠ secondAux then .error (firstAux - secondAux)
    else skipNonDigits leftSide.tail rightSide.tail
  else .ok (leftSide, rightSide)
termination_by leftSide.length + rightSide.length
decreasing_by
  cases leftSide <;> cases rightSide <;> simp_all [atNonDigit]
  omega

/-- The last inner loop: the first difference of two numbers, and where it leaves the texts. -/
def skipDigits : Int → Text → Text → Int × Text × Text
  | firstDiff, l :: leftSide, r :: rightSide =>
    if l.isDigit && r.isDigit then
      skipDigits (if firstDiff = 0 then charCode l - charCode r else firstDiff) leftSide rightSide
    else (firstDiff, l :: leftSide, r :: rightSide)
  | firstDiff, leftSide, rightSide => (firstDiff, leftSide, rightSide)

theorem skipNonDigits_ok {leftSide rightSide l r : Text}
    (h : skipNonDigits leftSide rightSide = .ok (l, r)) :
    l.length ≤ leftSide.length ∧ r.length ≤ rightSide.length ∧
      atNonDigit l = false ∧ atNonDigit r = false := by
  fun_induction skipNonDigits leftSide rightSide with
  | case1 => cases h
  | case2 leftSide rightSide go firstAux secondAux same ih =>
    obtain ⟨left, right, stopped⟩ := ih h
    rw [length_tail] at left right
    exact ⟨by omega, by omega, stopped⟩
  | case3 leftSide rightSide stop =>
    cases h
    simpa using stop

theorem skipDigits_length (firstDiff : Int) (leftSide rightSide : Text) :
    (skipDigits firstDiff leftSide rightSide).2.1.length ≤ leftSide.length ∧
      (skipDigits firstDiff leftSide rightSide).2.2.length ≤ rightSide.length := by
  fun_induction skipDigits firstDiff leftSide rightSide with
  | case1 firstDiff l leftSide r rightSide digits ih =>
    simp only [length_cons]
    omega
  | case2 => simp
  | case3 => simp

/-- A number on one side has been read, or stands there still. -/
theorem skipDigits_reads {firstDiff : Int} {leftSide rightSide : Text}
    (digit : atDigit leftSide = true ∨ atDigit rightSide = true)
    (left : atDigit (skipDigits firstDiff leftSide rightSide).2.1 = false)
    (right : atDigit (skipDigits firstDiff leftSide rightSide).2.2 = false) :
    (skipDigits firstDiff leftSide rightSide).2.1.length +
      (skipDigits firstDiff leftSide rightSide).2.2.length < leftSide.length + rightSide.length := by
  -- what the loop leaves untouched would start with a digit
  have untouched (same : (skipDigits firstDiff leftSide rightSide).2.1 = leftSide ∧
      (skipDigits firstDiff leftSide rightSide).2.2 = rightSide) : False := by
    rw [same.1] at left
    rw [same.2] at right
    simp [left, right] at digit
  fun_cases skipDigits firstDiff leftSide rightSide with
  | case1 _ l leftSide r rightSide digits =>
    have shorter := skipDigits_length
      (if firstDiff = 0 then charCode l - charCode r else firstDiff) leftSide rightSide
    simp only [length_cons]
    omega
  | case2 _ l leftSide r rightSide digits => exact (untouched (by simp [skipDigits, digits])).elim
  | case3 _ _ _ other => exact (untouched (by rw [skipDigits]; exacts [⟨rfl, rfl⟩, other])).elim

theorem dropZeros_cases {text : Text} (present : text ≠ []) (h : atNonDigit text = false) :
    (text.dropWhile (· == '0')).length < text.length ∨
      atDigit (text.dropWhile (· == '0')) = true := by
  cases text with
  | nil => exact absurd rfl present
  | cons c text =>
    by_cases zero : c = '0'
    · left
      have shorter := length_dropWhile_le (· == '0') text
      simpa [zero, dropWhile_cons] using Nat.lt_succ_of_le shorter
    · right
      simpa [zero, dropWhile_cons, atDigit, atNonDigit] using h

/-- One pass of the outer loop that does not return has read a character. -/
theorem number_shorter {leftSide rightSide l r l' r' : Text} {firstDiff : Int}
    (present : ¬(leftSide = [] ∧ rightSide = []))
    (skipped : skipNonDigits leftSide rightSide = .ok (l, r))
    (numbers : skipDigits 0 (l.dropWhile (· == '0')) (r.dropWhile (· == '0')) = (firstDiff, l', r'))
    (left : atDigit l' = false) (right : atDigit r' = false) :
    l'.length + r'.length < leftSide.length + rightSide.length := by
  obtain ⟨shorterLeft, shorterRight, noneLeft, noneRight⟩ := skipNonDigits_ok skipped
  have zerosLeft := length_dropWhile_le (· == '0') l
  have zerosRight := length_dropWhile_le (· == '0') r
  have digits := skipDigits_length 0 (l.dropWhile (· == '0')) (r.dropWhile (· == '0'))
  have reads := @skipDigits_reads 0 (l.dropWhile (· == '0')) (r.dropWhile (· == '0'))
  rw [numbers] at digits reads
  dsimp only at digits reads
  by_cases emptyLeft : l = []
  · by_cases emptyRight : r = []
    · have length : 0 < leftSide.length + rightSide.length := by
        by_contra none
        exact present ⟨eq_nil_of_length_eq_zero (by omega),
          eq_nil_of_length_eq_zero (by omega)⟩
      subst emptyLeft emptyRight
      simp only [dropWhile_nil, length_nil] at digits
      omega
    · rcases dropZeros_cases emptyRight noneRight with shorter | digit
      · omega
      · have := reads (.inr digit) left right
        omega
  · rcases dropZeros_cases emptyLeft noneLeft with shorter | digit
    · omega
    · have := reads (.inl digit) left right
      omega

/-- `compareVersionAndRevision`: negative, zero or positive. -/
def compareVersionAndRevision (leftSide rightSide : Text) : Int :=
  if _empty : leftSide = [] ∧ rightSide = [] then 0
  else
    match _skipped : skipNonDigits leftSide rightSide with
    | .error difference => difference
    | .ok (l, r) =>
      match _numbers : skipDigits 0 (l.dropWhile (· == '0')) (r.dropWhile (· == '0')) with
      | (firstDiff, l, r) =>
        if _left : atDigit l then 1
        else if _right : atDigit r then -1
        else if firstDiff ≠ 0 then firstDiff
        else compareVersionAndRevision l r
termination_by leftSide.length + rightSide.length
decreasing_by
  exact number_shorter _empty _skipped _numbers (by simpa using _left) (by simpa using _right)

def compareDpkgVersion (left right : Dpkg) : Int :=
  if left.epoch > right.epoch then 1
  else if left.epoch < right.epoch then -1
  else
    let result := compareVersionAndRevision left.version right.version
    if result ≠ 0 then result else compareVersionAndRevision left.revision right.revision

/-- `strtol` up to the first colon: the epoch, and the text behind the colon. -/
def splitEpoch (string : Text) : Option (Nat × Text) :=
  if ':' ∈ string then
    match scanInt string with
    | some (epoch, ':' :: rest) =>
      if epoch < 0 ∨ 2 ^ 32 ≤ epoch ∨ rest = [] then none else some (epoch.toNat, rest)
    | _ => none
  else some (0, string)

/-- The upstream version and the revision behind the last hyphen. -/
def splitRevision (versionStr : Text) : Option (Text × Text) :=
  if '-' ∈ versionStr then
    let revision := (versionStr.reverse.takeWhile (· != '-')).reverse
    if revision = [] then none
    else some (versionStr.take (versionStr.length - revision.length - 1), revision)
  else some (versionStr, [])

def versionChar (c : Char) : Bool := c.isDigit || c.isAlpha || ".-+~".toList.contains c

/-- `match`. The first character of the version is not looked at, apart from a warning. -/
def matchVersion (version : Text) : Option Dpkg :=
  let string := (cString version).dropWhile isSpace
  let word := string.takeWhile fun c => !isSpace c
  -- only blanks may follow the word
  if string = [] ∨ (string.drop word.length).any (fun c => !isSpace c) then none
  else do
    let (epoch, word) ← splitEpoch word
    let (upstream, revision) ← splitRevision word
    if upstream = [] ∨ upstream.tail.any (fun c => !versionChar c) ∨
        revision.any (fun c => !versionChar c) then none
    else some ⟨epoch, upstream, revision⟩

def versionClass : VersionClass where
  Object := Dpkg
  matchVersion version := .ok (matchVersion version)
  equal a b := compareDpkgVersion a b = 0
  less a b := compareDpkgVersion a b < 0

end Dpkg

/-- The types as a package of format `deb` meets them, which asks for no other type than its own. -/
def VersionClasses.deb : VersionClasses
  | .dpkg => Dpkg.versionClass
  | _ => ⟨Empty, fun _ => .ok none, fun _ _ => true, fun _ _ => false⟩

example : Dpkg.matchVersion "1:2.30-1ubuntu4".toList =
    some ⟨1, "2.30".toList, "1ubuntu4".toList⟩ := by decide +kernel

example : VersionMatcher.compare .deb "1.0~rc1-1".toList "1.0-1".toList (.inl .dpkg) =
    .ok .aLessThanB := by decide +kernel

end GuardSarm
