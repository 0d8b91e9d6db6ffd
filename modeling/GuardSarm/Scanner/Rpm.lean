import GuardSarm.Lib.Decimal
import GuardSarm.Lib.PaddedCompare
import GuardSarm.Scanner.Conversion

/-!
# RPM versions

`VersionObjectRpm`: an epoch, a version and a release, compared in turn.
`rpmvercmp` walks over two texts segment by segment: runs of digits, runs of
letters, tildes and carets, with everything else between them passed over.
-/

namespace GuardSarm

structure Rpm where
  epoch : Nat
  version : Text
  release : Text
  deriving DecidableEq

namespace Rpm

def rightIsNewer : Int := -1
def leftEqRight : Int := 0
def leftIsNewer : Int := 1

/-- `std::isalnum`. -/
def isAlnum (c : Char) : Bool := c.isDigit || c.isAlpha

/-- Everything before the next segment is passed. -/
def skipSeparators (text : Text) : Text :=
  text.dropWhile fun c => !isAlnum c && c != '~' && c != '^'

/-- The segments that are numbers lose their zeros, and the longer one wins. -/
def compareSegments (isNumber : Bool) (segmentLeft segmentRight : Text) : Int :=
  let auxLeft := if isNumber then segmentLeft.dropWhile (· == '0') else segmentLeft
  let auxRight := if isNumber then segmentRight.dropWhile (· == '0') else segmentRight
  if isNumber && decide (auxLeft.length > auxRight.length) then leftIsNewer
  else if isNumber && decide (auxRight.length > auxLeft.length) then rightIsNewer
  else
    match strcmp auxLeft auxRight with
    | .lt => rightIsNewer
    | .eq => leftEqRight
    | .gt => leftIsNewer

theorem skipSeparators_length (text : Text) : (skipSeparators text).length ≤ text.length :=
  List.length_dropWhile_le _ _

/-- The segments of one kind at two places that are not the end. -/
def passSegment (isNumber : Bool) (inSegment : Char → Bool) (auxLeft auxRight : Text) :
    Except Int (Text × Text) :=
  let segmentLeft := auxLeft.takeWhile inSegment
  let segmentRight := auxRight.takeWhile inSegment
  if segmentLeft = [] then .error rightIsNewer
  else if segmentRight = [] then .error (if isNumber then leftIsNewer else rightIsNewer)
  else
    let resultComparision := compareSegments isNumber segmentLeft segmentRight
    if resultComparision ≠ 0 then .error resultComparision
    else .ok (auxLeft.dropWhile inSegment, auxRight.dropWhile inSegment)

/-- The segments, of the kind that the left one is. -/
def passSegments (auxLeft auxRight : Text) : Except Int (Text × Text) :=
  if (auxLeft.headD nul).isDigit then passSegment true Char.isDigit auxLeft auxRight
  else passSegment false Char.isAlpha auxLeft auxRight

/-- One pass of the loop behind the separators: a result, which is also the one behind the loop where
the pass breaks, or where the pass leaves the two texts. -/
def pass (auxLeft auxRight : Text) : Except Int (Text × Text) :=
  if auxLeft.head? = some '~' ∨ auxRight.head? = some '~' then
    if auxLeft.head? ≠ some '~' then .error leftIsNewer
    else if auxRight.head? ≠ some '~' then .error rightIsNewer
    else .ok (auxLeft.tail, auxRight.tail)
  else if auxLeft.head? = some '^' ∨ auxRight.head? = some '^' then
    if auxLeft = [] then .error rightIsNewer
    else if auxRight = [] then .error leftIsNewer
    else if auxLeft.head? ≠ some '^' then .error leftIsNewer
    else if auxRight.head? ≠ some '^' then .error rightIsNewer
    else .ok (auxLeft.tail, auxRight.tail)
  else if auxLeft = [] ∨ auxRight = [] then
    if auxLeft = [] ∧ auxRight = [] then .error leftEqRight
    else if auxLeft = [] then .error rightIsNewer
    else .error leftIsNewer
  else passSegments auxLeft auxRight

theorem tail_shorter {text : Text} {c : Char} (first : text.head? = some c) :
    text.tail.length < text.length := by
  cases text with
  | nil => cases first
  | cons d text => simp

theorem dropWhile_shorter {p : Char → Bool} {text : Text} (some : text.takeWhile p ≠ []) :
    (text.dropWhile p).length < text.length := by
  have parts := congrArg List.length (List.takeWhile_append_dropWhile (p := p) (l := text))
  have positive := List.length_pos_iff.mpr some
  rw [List.length_append] at parts
  omega

theorem passSegment_shorter {isNumber : Bool} {inSegment : Char → Bool} {auxLeft auxRight l r : Text}
    (passed : passSegment isNumber inSegment auxLeft auxRight = .ok (l, r)) :
    l.length < auxLeft.length ∧ r.length < auxRight.length := by
  simp only [passSegment] at passed
  split at passed
  · cases passed
  · rename_i left
    split at passed
    · cases passed
    · rename_i right
      split at passed
      · cases passed
      · cases passed
        exact ⟨dropWhile_shorter left, dropWhile_shorter right⟩

/-- A pass that goes on has read something on both sides. -/
theorem pass_shorter {auxLeft auxRight l r : Text} (passed : pass auxLeft auxRight = .ok (l, r)) :
    l.length < auxLeft.length ∧ r.length < auxRight.length := by
  unfold pass at passed
  split_ifs at passed with tilde left right caret endLeft endRight left right ended both first
  · cases passed
    exact ⟨tail_shorter (not_not.mp left), tail_shorter (not_not.mp right)⟩
  · cases passed
    exact ⟨tail_shorter (not_not.mp left), tail_shorter (not_not.mp right)⟩
  · rw [passSegments] at passed
    split at passed
    · exact passSegment_shorter passed
    · exact passSegment_shorter passed

/-- The loop of `rpmvercmp` over the two buffers, and what follows it. -/
def compareFrom (left right : Text) : Int :=
  if left = [] ∧ right = [] then leftEqRight
  else
    match _passed : pass (skipSeparators left) (skipSeparators right) with
    | .error result => result
    | .ok (l, r) => compareFrom l r
termination_by left.length
decreasing_by
  exact Nat.lt_of_lt_of_le (pass_shorter _passed).1 (skipSeparators_length left)

/-- Identical strings are equal; others are compared as C strings. -/
def rpmvercmp (leftVer rightVer : Text) : Int :=
  if leftVer = rightVer then leftEqRight
  else compareFrom (cString leftVer) (cString rightVer)

def compareRpmVersion (left right : Rpm) : Int :=
  if left.epoch ≠ right.epoch then
    if left.epoch < right.epoch then rightIsNewer else leftIsNewer
  else
    let verComp := rpmvercmp left.version right.version
    if verComp ≠ leftEqRight then verComp else rpmvercmp left.release right.release

/-- `find` of a character, none for `npos`. -/
def find (version : Text) (c : Char) : Option Nat :=
  if c ∈ version then some (version.idxOf c) else none

/-- `match`. A hyphen before the colon makes the length of the version wrap around, so that the
version is everything behind the colon. -/
def matchVersion (version : Text) : Except VersionError (Option Rpm) := do
  let epoch ←
    match find version ':' with
    | some colonPos => stoi (version.take colonPos)
    | none => .ok 0
  let colonPos := (find version ':').getD 0
  let versionStart := if colonPos = 0 then colonPos else colonPos + 1
  let versionEnd := (find version '-').getD version.length
  let releaseStart := ((find version '-').map (· + 1)).getD version.length
  return some ⟨unsigned epoch,
    (version.drop versionStart).take ((versionEnd + 2 ^ 64 - versionStart) % 2 ^ 64),
    version.drop releaseStart⟩

def versionClass : VersionClass where
  Object := Rpm
  matchVersion := matchVersion
  equal a b := compareRpmVersion a b = leftEqRight
  less a b := compareRpmVersion a b = rightIsNewer

example : matchVersion "2:1.0-3.el9".toList =
    .ok (some ⟨2, "1.0".toList, "3.el9".toList⟩) := by decide +kernel

end Rpm

end GuardSarm
