import GuardSarm.Lib.PaddedCompare
import GuardSarm.Scanner.Conversion

/-!
# PEP 440 versions

`VersionObjectPEP440`: an epoch, a release, and an optional pre-release,
post-release and development release. The release is kept as a text and split
into numbers of 32 bits whenever two versions are compared; an object carries
the fact that this does not raise.
-/

namespace GuardSarm

open List

/-- The number of a token, in 32 bits. -/
def tokenToNumber (token : Text) : Except Text Nat :=
  token.foldlM (fun num c =>
    if c.isDigit then .ok (toUInt32 (num * 10 + (c.toNat - '0'.toNat)))
    else .error "Invalid number.".toList) 0

/-- `Utils::splitToNumbers`. What follows the last delimiter is a token only if there is something. -/
def splitToNumbers (str : Text) (delimiter : Char) : Except Text (List Nat) :=
  let pieces := str.splitOn delimiter
  let tokens := if pieces.getLast? = some [] then pieces.dropLast else pieces
  tokens.mapM tokenToNumber

/-- A run of digits that is converted step by step in 32 bits. -/
theorem tokenToNumber_digits {token : Text} (all : AllDigits token) :
    tokenToNumber token = .ok (toUInt32 (digitsValue token)) := by
  have steps (start : Nat) : token.foldlM (fun num c =>
      if c.isDigit then Except.ok (toUInt32 (num * 10 + (c.toNat - '0'.toNat)))
      else .error "Invalid number.".toList) (toUInt32 start) =
      .ok (toUInt32 (Nat.ofDigitChars 10 token start)) := by
    induction token generalizing start with
    | nil => rfl
    | cons c token ih =>
      have cut : toUInt32 (toUInt32 start * 10 + (c.toNat - '0'.toNat)) =
          toUInt32 (10 * start + (c.toNat - '0'.toNat)) := by
        simp only [toUInt32]
        omega
      rw [foldlM_cons, if_pos (all c mem_cons_self), Nat.ofDigitChars_cons, cut]
      exact ih all.tail _
  exact steps 0

theorem mapM_tokenToNumber {tokens : List Text} (all : ∀ token ∈ tokens, AllDigits token) :
    tokens.mapM tokenToNumber = .ok (tokens.map fun token => toUInt32 (digitsValue token)) := by
  induction tokens with
  | nil => rfl
  | cons token tokens ih =>
    rw [mapM_cons, tokenToNumber_digits (all token mem_cons_self),
      ih fun other member => all other (mem_cons_of_mem _ member)]
    rfl

theorem splitToNumbers_separated {str : Text}
    (release : ∀ piece ∈ str.splitOn '.', piece ≠ [] ∧ AllDigits piece) : splitToNumbers str '.' =
      .ok ((str.splitOn '.').map fun token => toUInt32 (digitsValue token)) := by
  have last : (str.splitOn '.').getLast? ≠ some [] := fun empty =>
    (release [] (mem_of_getLast? empty)).1 rfl
  simp only [splitToNumbers, if_neg last]
  exact mapM_tokenToNumber fun token member => (release token member).2

structure PEP440 where
  epoch : Nat
  versionStr : Text
  preReleaseStr : Text
  preReleaseNumber : Nat
  postReleaseNumber : Nat
  devReleaseNumber : Nat
  hasPreRelease : Bool
  hasPostRelease : Bool
  hasDevRelease : Bool
  /-- The release splits into numbers. -/
  splits : ∃ numbers, splitToNumbers versionStr '.' = .ok numbers
  deriving DecidableEq

namespace PEP440

open Regexp

/-- A character in either case. -/
def icase (c : Char) : Regexp := .char fun d => d.toLower == c

def word (letters : String) : Regexp := cat (letters.toList.map icase)

/-- `[-_\.]?`. -/
def mark : Regexp := opt (.char "-_.".toList.contains)

def preReleaseWords : List String := ["a", "b", "c", "rc", "alpha", "beta", "pre", "preview"]

def postReleaseWords : List String := ["post", "rev", "r"]

/-- One of several words with a number behind it. -/
def labelled (words : List String) (label number : Nat) : Regexp :=
  cat [mark, .group label (oneOf (words.map word)), mark, opt (.group number (plus digit))]

def parserRegex : Regexp :=
  .seq (opt (icase 'v')) (opt (cat [
    opt (.seq (.group 1 (plus digit)) (this '!')),
    .group 2 (separated '.' (plus digit)),
    opt (labelled preReleaseWords 3 4),
    opt (.alt (.seq (this '-') (.group 5 (plus digit))) (labelled postReleaseWords 6 7)),
    opt (labelled ["dev"] 8 9)]))

theorem groups_parserRegex : groups parserRegex = [(1, plus digit), (2, separated '.' (plus digit)),
      (3, oneOf (preReleaseWords.map word)), (4, plus digit), (5, plus digit),
      (6, oneOf (postReleaseWords.map word)), (7, plus digit), (8, oneOf (["dev"].map word)),
      (9, plus digit)] := rfl

section

variable {version : Text} {captures : Captures}

section

variable (matched : matchText parserRegex version = some captures)
include matched

theorem digits_captured {index : Nat}
    (numeric : index ∈ [1, 4, 5, 7, 9]) : AllDigits (captures.str index) := by
  rcases str_of_matched matched index with empty | ⟨body, among, held⟩
  · rw [empty]
    exact fun c member => absurd member not_mem_nil
  · have digits : body = plus digit := by
      rw [groups_parserRegex] at among
      simp only [mem_cons, not_mem_nil, or_false] at numeric
      rcases numeric with rfl | rfl | rfl | rfl | rfl <;> simpa using among
    exact (of_mem_lang_plus_char (digits ▸ held)).2

theorem implicitPost_captured (set : (captures 5).isSome = true) : captures.str 5 ≠ [] := by
  obtain ⟨held, given⟩ := Option.isSome_iff_exists.mp set
  obtain ⟨body, among, word⟩ := (matchText_capture matched).2 5 held given
  have digits : body = plus digit := by
    rw [groups_parserRegex] at among
    simpa using among
  rw [Captures.str, given]
  exact (of_mem_lang_plus_char (digits ▸ word)).1

theorem release_captured : captures.str 2 = [] ∨
      ∀ piece ∈ (captures.str 2).splitOn '.', piece ≠ [] ∧ AllDigits piece := by
  refine (str_of_matched matched 2).imp_right fun ⟨body, among, held⟩ => ?_
  have release : body = separated '.' (plus digit) := by
    rw [groups_parserRegex] at among
    simpa using among
  obtain ⟨parts, some, numbers, joined⟩ := of_mem_lang_separated (release ▸ held)
  have proper : ∀ part ∈ parts, part ≠ [] ∧ AllDigits part := fun part member =>
    of_mem_lang_plus_char (numbers part member)
  rw [joined, splitOn_intercalate]
  · exact proper
  · intro part member dot
    exact absurd ((proper part member).2 '.' dot) (by decide)
  · exact some

theorem release_splits : ∃ numbers, splitToNumbers (captures.str 2) '.' = .ok numbers := by
  cases release_captured matched with
  | inl empty => exact ⟨[], by rw [empty]; rfl⟩
  | inr release => exact ⟨_, splitToNumbers_separated release⟩

end

end

/-- The names that stand for another name. -/
def normalizePreRelease (preReleaseStr : Text) : Text :=
  if preReleaseStr = "alpha".toList then "a".toList
  else if preReleaseStr = "beta".toList then "b".toList
  else if preReleaseStr = "c".toList ∨ preReleaseStr = "pre".toList ∨
      preReleaseStr = "preview".toList then "rc".toList
  else preReleaseStr

/-- The number of the post-release: behind a hyphen, or behind its name. -/
def postReleaseGroup (parserMatches : Captures) : Text :=
  if (parserMatches 5).isSome then parserMatches.str 5 else parserMatches.str 7

def readPostRelease (parserMatches : Captures) : Except VersionError Nat :=
  if (parserMatches 5).isSome then stoul (parserMatches.str 5) else stoulOr (parserMatches.str 7)

/-- `match`. -/
def matchVersion (version : Text) : Except VersionError (Option PEP440) :=
  match matched : matchText parserRegex version with
  | none => .ok none
  | some parserMatches => do
    let epoch ← stoulOr (parserMatches.str 1)
    let preReleaseNumber ← stoulOr (parserMatches.str 4)
    let postReleaseNumber ← readPostRelease parserMatches
    let devReleaseNumber ← stoulOr (parserMatches.str 9)
    return some {
      epoch := toUInt32 epoch
      versionStr := parserMatches.str 2
      preReleaseStr := normalizePreRelease ((parserMatches.str 3).map Char.toLower)
      preReleaseNumber := toUInt32 preReleaseNumber
      postReleaseNumber := toUInt32 postReleaseNumber
      devReleaseNumber := toUInt32 devReleaseNumber
      hasPreRelease := (parserMatches 3).isSome
      hasPostRelease := (parserMatches 6).isSome || (parserMatches 5).isSome
      hasDevRelease := (parserMatches 8).isSome
      splits := release_splits matched }

/-- The loop of `compareVersionStr` over lists of one length. -/
def compareItems : List Nat → List Nat → Int
  | a :: versionStrSplitA, b :: versionStrSplitB =>
    if a < b then -1
    else if a > b then 1
    else compareItems versionStrSplitA versionStrSplitB
  | _, _ => 0

def compareVersionStr (versionStrA versionStrB : Text) : Except Text Int := do
  let versionStrSplitA ← splitToNumbers versionStrA '.'
  let versionStrSplitB ← splitToNumbers versionStrB '.'
  let missingA := versionStrSplitB.length - versionStrSplitA.length
  let missingB := versionStrSplitA.length - versionStrSplitB.length
  return compareItems (versionStrSplitA ++ List.replicate missingA 0)
    (versionStrSplitB ++ List.replicate missingB 0)

/-- `compareVersionStr` of two objects, whose releases split. -/
def compareRelease (a b : PEP440) : Int := (compareVersionStr a.versionStr b.versionStr).toOption.getD 0

/-- `operator==`. -/
def equal (a b : PEP440) : Bool :=
  a.epoch == b.epoch && compareRelease a b == 0 && a.preReleaseStr == b.preReleaseStr &&
    a.preReleaseNumber == b.preReleaseNumber && a.postReleaseNumber == b.postReleaseNumber &&
    a.devReleaseNumber == b.devReleaseNumber && a.hasPreRelease == b.hasPreRelease &&
    a.hasPostRelease == b.hasPostRelease && a.hasDevRelease == b.hasDevRelease

/-- The end of `operator<`: the development releases. -/
def lessDev (a b : PEP440) : Bool :=
  if a.hasDevRelease && !b.hasDevRelease then false
  else if !a.hasDevRelease && b.hasDevRelease then true
  else if a.hasDevRelease && b.hasDevRelease then
    if a.devReleaseNumber < b.devReleaseNumber then true else false
  else false

/-- The post-releases and what follows them. -/
def lessPost (a b : PEP440) : Bool :=
  if a.hasPostRelease && !b.hasPostRelease then false
  else if !a.hasPostRelease && b.hasPostRelease then true
  else if a.hasPostRelease && b.hasPostRelease then
    if a.postReleaseNumber < b.postReleaseNumber then true
    else if a.postReleaseNumber > b.postReleaseNumber then false
    else lessDev a b
  else lessDev a b

/-- The pre-releases and what follows them. -/
def lessPre (a b : PEP440) : Bool :=
  if a.hasPreRelease && !b.hasPreRelease then true
  else if !a.hasPreRelease && b.hasPreRelease then false
  else if a.hasPreRelease && b.hasPreRelease then
    match strcmp a.preReleaseStr b.preReleaseStr with
    | .lt => true
    | .gt => false
    | .eq =>
      if a.preReleaseNumber < b.preReleaseNumber then true
      else if a.preReleaseNumber > b.preReleaseNumber then false
      else lessPost a b
  else lessPost a b

/-- `operator<`. -/
def less (a b : PEP440) : Bool :=
  if a.epoch < b.epoch then true
  else if a.epoch > b.epoch then false
  else if compareRelease a b < 0 then true
  else if compareRelease a b > 0 then false
  else lessPre a b

def versionClass : VersionClass where
  Object := PEP440
  matchVersion := matchVersion
  equal := equal
  less := less

end PEP440

end GuardSarm
