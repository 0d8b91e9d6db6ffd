import GuardSarm.Lib.Reversal
import GuardSarm.Scanner.Pep440

/-!
# The order of PEP 440 versions

PEP 440 puts the development release of a version before it, and the
development release of a final version before its pre-releases. The code takes
a development release as a step after the version, and compares all numbers in
32 bits. Two versions are then in the wrong order exactly if their order
depends on a development release that only one of them has (`DevClash`), or if
the numbers differ beyond 32 bits.
-/

namespace GuardSarm

open List

namespace PEP440

open Regexp

inductive Phase where
  | a | b | rc
  deriving DecidableEq

def Phase.rank : Phase → Nat
  | .a => 0
  | .b => 1
  | .rc => 2

/-- What a version means, with numbers without bound. -/
structure Meaning where
  epoch : Nat
  release : List Nat
  pre : Option (Phase × Nat)
  post : Option Nat
  dev : Option Nat
  deriving DecidableEq

/-- A development release of a final version. -/
def Meaning.Bare (m : Meaning) : Prop := m.pre = none ∧ m.post = none ∧ m.dev.isSome = true

instance (m : Meaning) : Decidable m.Bare := inferInstanceAs (Decidable (_ ∧ _))

def comparePair (x y : Nat × Nat) : Ordering := (compare x.1 y.1).then (compare x.2 y.2)

/-- Below all pre-releases, a pre-release, or above all of them. -/
def Meaning.preKey (m : Meaning) : Nat × Nat :=
  if m.Bare then (0, 0)
  else
    match m.pre with
    | some (phase, number) => (1 + phase.rank, number)
    | none => (4, 0)

/-- No post-release is below every post-release. -/
def Meaning.postKey (m : Meaning) : Nat × Nat :=
  match m.post with
  | none => (0, 0)
  | some number => (1, number)

/-- No development release is above every development release. -/
def Meaning.devKey (m : Meaning) : Nat × Nat :=
  match m.dev with
  | some number => (0, number)
  | none => (1, 0)

/-- The parts behind the release in the order of PEP 440. -/
def pepSuffix (m n : Meaning) : Ordering :=
  (comparePair m.preKey n.preKey).then ((comparePair m.postKey n.postKey).then
    (comparePair m.devKey n.devKey))

/-- The order of PEP 440. -/
def pepOrder (m n : Meaning) : Ordering :=
  (compare m.epoch n.epoch).then ((comparePadded compare 0 m.release n.release).then
    (pepSuffix m n))

/-- The phase of a name in lower case: `c`, `pre` and `preview` are release candidates. -/
def phaseOf (name : Text) : Phase :=
  if name = "a".toList ∨ name = "alpha".toList then .a
  else if name = "b".toList ∨ name = "beta".toList then .b
  else .rc

/-- The meaning of a version, by the groups of the regular expression. A missing number is 0. -/
def meaningOf (captures : Captures) : Meaning where
  epoch := digitsValue (captures.str 1)
  release := if captures.str 2 = [] then [] else ((captures.str 2).splitOn '.').map digitsValue
  pre := (captures 3).map fun letters =>
    (phaseOf (letters.map Char.toLower), digitsValue (captures.str 4))
  post := if (captures 6).isSome || (captures 5).isSome
    then some (digitsValue (postReleaseGroup captures)) else none
  dev := (captures 8).map fun _ => digitsValue (captures.str 9)

def meaning (version : Text) : Meaning := meaningOf ((matchText parserRegex version).getD fun _ => none)

/-- The same version with its numbers in 32 bits. -/
def Meaning.cut (m : Meaning) : Meaning where
  epoch := toUInt32 m.epoch
  release := m.release.map toUInt32
  pre := m.pre.map fun pre => (pre.1, toUInt32 pre.2)
  post := m.post.map toUInt32
  dev := m.dev.map toUInt32

/-- A development release that only one of two versions has decides their order: against the version
itself, or against a pre-release. -/
def SuffixClash (m n : Meaning) : Prop :=
  (m.pre = n.pre ∧ m.post = n.post ∧ m.dev.isSome ≠ n.dev.isSome) ∨
    (m.Bare ∧ n.pre.isSome = true) ∨ (n.Bare ∧ m.pre.isSome = true)

instance (m n : Meaning) : Decidable (SuffixClash m n) := inferInstanceAs (Decidable (_ ∨ _))

/-- Such a development release decides between two versions of one release. -/
def DevClash (m n : Meaning) : Prop :=
  m.epoch = n.epoch ∧ comparePadded compare 0 m.release n.release = .eq ∧ SuffixClash m n

instance (m n : Meaning) : Decidable (DevClash m n) := inferInstanceAs (Decidable (_ ∧ _))

/-- The pre-release as the code compares it: having none is above having one. -/
def Meaning.plainPreKey (m : Meaning) : Nat × Nat :=
  match m.pre with
  | some (phase, number) => (1 + phase.rank, number)
  | none => (4, 0)

/-- The development release as the code compares it: having none is below having one. -/
def Meaning.plainDevKey (m : Meaning) : Nat × Nat :=
  match m.dev with
  | none => (0, 0)
  | some number => (1, number)

/-- The parts behind the release in the order of the code. -/
def codeSuffix (m n : Meaning) : Ordering :=
  (comparePair m.plainPreKey n.plainPreKey).then ((comparePair m.postKey n.postKey).then
    (comparePair m.plainDevKey n.plainDevKey))

theorem comparePair_eq_iff {x y : Nat × Nat} : comparePair x y = .eq ↔ x = y := by
  rw [comparePair, Ordering.then_eq_eq, Nat.compare_eq_eq, Nat.compare_eq_eq, Prod.ext_iff]

theorem comparePair_swap (x y : Nat × Nat) : comparePair x y = (comparePair y x).swap := by
  rw [comparePair, comparePair, then_swap, Nat.compare_swap, Nat.compare_swap]

section

variable {m n : Meaning}

theorem preKey_of_not_bare (plain : ¬m.Bare) : m.preKey = m.plainPreKey := if_neg plain

theorem plainPreKey_inj : m.plainPreKey = n.plainPreKey ↔ m.pre = n.pre := by
  have rank (phase phase' : Phase) : phase.rank = phase'.rank ↔ phase = phase' := by
    cases phase <;> cases phase' <;> decide
  have below (phase : Phase) : 1 + phase.rank ≠ 4 := by cases phase <;> decide
  rw [Meaning.plainPreKey, Meaning.plainPreKey]
  cases m.pre <;> cases n.pre <;> simp [rank, below, (below _).symm, Prod.ext_iff]

theorem postKey_inj : m.postKey = n.postKey ↔ m.post = n.post := by
  rw [Meaning.postKey, Meaning.postKey]
  cases m.post <;> cases n.post <;> simp

theorem plainDevKey_inj : m.plainDevKey = n.plainDevKey ↔ m.dev = n.dev := by
  rw [Meaning.plainDevKey, Meaning.plainDevKey]
  cases m.dev <;> cases n.dev <;> simp

/-- The development releases are compared wrongly if only one version has one. -/
theorem devKey_reversed :
    ReversedWhen (m.dev.isSome ≠ n.dev.isSome) (comparePair m.plainDevKey n.plainDevKey)
      (comparePair m.devKey n.devKey) := by
  rw [Meaning.plainDevKey, Meaning.plainDevKey, Meaning.devKey, Meaning.devKey]
  cases m.dev <;> cases n.dev
  · exact .refl (fun wrong => wrong rfl) _
  · exact ⟨fun _ => rfl, fun right => absurd (by simp) right⟩
  · exact ⟨fun _ => rfl, fun right => absurd (by simp) right⟩
  · exact .refl (fun wrong => wrong rfl) _

theorem pepSuffix_swap (m n : Meaning) : pepSuffix m n = (pepSuffix n m).swap := by
  rw [pepSuffix, pepSuffix, then_swap, then_swap, ← comparePair_swap, ← comparePair_swap,
    ← comparePair_swap]

theorem codeSuffix_swap (m n : Meaning) : codeSuffix m n = (codeSuffix n m).swap := by
  rw [codeSuffix, codeSuffix, then_swap, then_swap, ← comparePair_swap, ← comparePair_swap,
    ← comparePair_swap]

theorem suffixClash_comm : SuffixClash m n ↔ SuffixClash n m := by
  rw [SuffixClash, SuffixClash, eq_comm (a := m.pre), eq_comm (a := m.post), ne_comm,
    or_comm (a := m.Bare ∧ _)]

/-- Neither version is the development release of a final one. -/
theorem suffix_reversed_of_not_bare (left : ¬m.Bare) (right : ¬n.Bare) :
    ReversedWhen (SuffixClash m n) (codeSuffix m n) (pepSuffix m n) := by
  rw [codeSuffix, pepSuffix, preKey_of_not_bare left, preKey_of_not_bare right]
  refine ((devKey_reversed.after _).after _).congr ?_
  rw [comparePair_eq_iff, comparePair_eq_iff, plainPreKey_inj, postKey_inj, SuffixClash]
  simp [left, right]

/-- A development release of a final version is below everything but another one. -/
theorem suffix_reversed_of_bare (bare : m.Bare) (other : ¬n.Bare) :
    ReversedWhen (SuffixClash m n) (codeSuffix m n) (pepSuffix m n) := by
  obtain ⟨pre, post, dev⟩ := bare
  obtain ⟨number, given⟩ := Option.isSome_iff_exists.mp dev
  have lowest : m.preKey = (0, 0) := if_pos ⟨pre, post, dev⟩
  have below : pepSuffix m n = .lt := by
    rw [pepSuffix, lowest, preKey_of_not_bare other, Meaning.plainPreKey]
    cases n.pre with
    | none => rfl
    | some candidate => obtain ⟨phase, k⟩ := candidate; cases phase <;> rfl
  have code : codeSuffix m n = (comparePair (4, 0) n.plainPreKey).then
      ((comparePair (0, 0) n.postKey).then (comparePair (1, number) n.plainDevKey)) := by
    rw [codeSuffix, Meaning.plainPreKey, Meaning.postKey, Meaning.plainDevKey, pre, post, given]
  rw [below, code, Meaning.plainPreKey]
  cases candidate : n.pre with
  | some held =>
    have clash : SuffixClash m n := .inr (.inl ⟨⟨pre, post, dev⟩, by rw [candidate]; rfl⟩)
    refine ⟨fun _ => ?_, absurd clash⟩
    obtain ⟨phase, k⟩ := held
    cases phase <;> rfl
  | none =>
    cases later : n.post with
    | some k =>
      have apart : ¬SuffixClash m n := by simp [SuffixClash, post, later, candidate, other]
      refine ⟨fun clash => absurd clash apart, fun _ => ?_⟩
      rw [Meaning.postKey, later]
      rfl
    | none =>
      have final : n.dev = none := by simpa [Meaning.Bare, candidate, later] using other
      have clash : SuffixClash m n :=
        .inl ⟨pre.trans candidate.symm, post.trans later.symm, by simp [given, final]⟩
      refine ⟨fun _ => ?_, absurd clash⟩
      rw [Meaning.postKey, Meaning.plainDevKey, later, final]
      rfl

/-- The parts behind the release are in the other order exactly at the clashes. -/
theorem suffix_reversed (m n : Meaning) :
    ReversedWhen (SuffixClash m n) (codeSuffix m n) (pepSuffix m n) := by
  by_cases left : m.Bare
  · by_cases right : n.Bare
    · have clash : ¬SuffixClash m n := by
        rintro (⟨-, -, differ⟩ | ⟨-, some⟩ | ⟨-, some⟩)
        · exact differ (left.2.2.trans right.2.2.symm)
        · rw [right.1] at some
          cases some
        · rw [left.1] at some
          cases some
      refine ⟨fun wrong => absurd wrong clash, fun _ => ?_⟩
      have dev := devKey_reversed.direct (not_not.mpr (left.2.2.trans right.2.2.symm))
      have preKey : m.preKey = n.preKey := (if_pos left).trans (if_pos right).symm
      have plainPreKey := plainPreKey_inj.mpr (left.1.trans right.1.symm)
      rw [codeSuffix, pepSuffix, dev, comparePair_eq_iff.mpr preKey,
        comparePair_eq_iff.mpr plainPreKey]
    · exact suffix_reversed_of_bare left right
  · by_cases right : n.Bare
    · rw [codeSuffix_swap, pepSuffix_swap]
      exact (suffix_reversed_of_bare right left).swap.congr suffixClash_comm
    · exact suffix_reversed_of_not_bare left right

end

/-- The order of the code over what versions mean. -/
def codeOrder (m n : Meaning) : Ordering :=
  (compare m.epoch n.epoch).then ((comparePadded compare 0 m.release n.release).then
    (codeSuffix m n))

theorem codeOrder_reversed (m n : Meaning) :
    ReversedWhen (DevClash m n) (codeOrder m n) (pepOrder m n) := by
  refine (((suffix_reversed m n).after _).after _).congr ?_
  rw [Nat.compare_eq_eq]
  exact Iff.rfl

def Phase.text : Phase → Text
  | .a => "a".toList
  | .b => "b".toList
  | .rc => "rc".toList

theorem strcmp_text (phase phase' : Phase) :
    strcmp phase.text phase'.text = compare phase.rank phase'.rank := by
  cases phase <;> cases phase' <;> decide

/-- An object holds the parts of a version. -/
structure Holds (object : PEP440) (m : Meaning) : Prop where
  epoch : object.epoch = m.epoch
  release : splitToNumbers object.versionStr '.' = .ok m.release
  hasPre : object.hasPreRelease = m.pre.isSome
  preStr : object.preReleaseStr = (m.pre.map fun pre => pre.1.text).getD []
  preNumber : object.preReleaseNumber = (m.pre.map Prod.snd).getD 0
  hasPost : object.hasPostRelease = m.post.isSome
  postNumber : object.postReleaseNumber = m.post.getD 0
  hasDev : object.hasDevRelease = m.dev.isSome
  devNumber : object.devReleaseNumber = m.dev.getD 0

theorem compareItems_cons (x y : Nat) (xs ys : List Nat) :
    compare (compareItems (x :: xs) (y :: ys)) 0 =
      (compare x y).then (compare (compareItems xs ys) 0) := by
  rw [compareItems, Nat.compare_eq_ite_lt]
  split_ifs <;> rfl

theorem compareItems_padding (ys : List Nat) :
    compare (compareItems (List.replicate ys.length 0) ys) 0 = comparePadding compare 0 ys := by
  induction ys with
  | nil => rfl
  | cons y ys ih => rw [length_cons, replicate_succ, compareItems_cons, ih, comparePadding]

/-- The loop over lists of numbers that were padded to one length. -/
theorem compareItems_padded (xs ys : List Nat) :
    compare (compareItems (xs ++ List.replicate (ys.length - xs.length) 0)
      (ys ++ List.replicate (xs.length - ys.length) 0)) 0 = comparePadded compare 0 xs ys := by
  induction xs generalizing ys with
  | nil =>
    have padding := compareItems_padding ys
    simpa [comparePadded] using padding
  | cons x xs ih =>
    cases ys with
    | nil =>
      have rest := ih []
      simp only [length_nil, Nat.zero_sub, replicate_zero, append_nil, Nat.sub_zero,
        nil_append] at rest
      simp only [length_nil, Nat.zero_sub, replicate_zero, append_nil, Nat.sub_zero,
        nil_append, length_cons, replicate_succ, compareItems_cons, rest]
      rfl
    | cons y ys =>
      simp only [length_cons, Nat.add_sub_add_right, cons_append, compareItems_cons, ih]
      rfl

/-- Two numbers in an operator, and what follows where they are equal. -/
theorem less_then {α : Type} [LinearOrder α] {i j : α} {rest : Bool} {order : Ordering}
    (later : rest = (order == .lt)) : (if i < j then true else if i > j then false else rest) =
      ((compare i j).then order == .lt) := by
  rcases lt_trichotomy i j with less | rfl | greater
  · rw [if_pos less, compare_lt_iff_lt.mpr less]
    rfl
  · rw [if_neg (lt_irrefl i), if_neg (lt_irrefl i), compare_eq_iff_eq.mpr rfl, later]
    rfl
  · rw [if_neg greater.not_gt, if_pos greater, compare_gt_iff_gt.mpr greater]
    rfl

theorem isSome_getD_eq_iff {x y : Option Nat} :
    (x.isSome = y.isSome ∧ x.getD 0 = y.getD 0) ↔ x = y := by
  cases x <;> cases y <;> simp

section

variable {a b : PEP440} {m n : Meaning}

section

variable (left : Holds a m)
include left

theorem compareRelease_eq (right : Holds b n) :
    compare (compareRelease a b) 0 = comparePadded compare 0 m.release n.release := by
  rw [compareRelease, compareVersionStr, left.release, right.release]
  exact compareItems_padded m.release n.release

theorem lessDev_eq (right : Holds b n) :
    lessDev a b = (comparePair m.plainDevKey n.plainDevKey == .lt) := by
  rw [lessDev, left.hasDev, right.hasDev, left.devNumber, right.devNumber, Meaning.plainDevKey,
    Meaning.plainDevKey]
  cases m.dev with
  | none => cases n.dev <;> rfl
  | some i =>
    cases n.dev with
    | none => rfl
    | some j =>
      have numbers : (if i < j then true else if i > j then false else false) =
          ((compare i j).then .eq == .lt) := less_then rfl
      rw [ite_self, Ordering.then_eq] at numbers
      exact numbers

theorem lessPost_eq (right : Holds b n) : lessPost a b = ((comparePair m.postKey n.postKey).then
      (comparePair m.plainDevKey n.plainDevKey) == .lt) := by
  rw [lessPost, lessDev_eq left right, left.hasPost, right.hasPost, left.postNumber,
    right.postNumber, Meaning.postKey, Meaning.postKey]
  cases m.post with
  | none => cases n.post <;> rfl
  | some i =>
    cases n.post with
    | none => rfl
    | some j => exact less_then rfl

theorem lessPre_eq (right : Holds b n) : lessPre a b = (codeSuffix m n == .lt) := by
  rw [lessPre, lessPost_eq left right, left.hasPre, right.hasPre, left.preNumber, right.preNumber,
    left.preStr, right.preStr, codeSuffix, Meaning.plainPreKey, Meaning.plainPreKey]
  cases m.pre with
  | none =>
    cases n.pre with
    | none => rfl
    | some held => obtain ⟨phase, k⟩ := held; cases phase <;> rfl
  | some held =>
    obtain ⟨phase, i⟩ := held
    cases n.pre with
    | none => cases phase <;> rfl
    | some held' =>
      obtain ⟨phase', j⟩ := held'
      have shifted : compare (1 + phase.rank) (1 + phase'.rank) =
          compare phase.rank phase'.rank := by
        cases phase <;> cases phase' <;> rfl
      simp only [Option.map_some, Option.getD_some, strcmp_text, comparePair, shifted]
      cases compare phase.rank phase'.rank with
      | lt => rfl
      | gt => rfl
      | eq => exact less_then rfl

theorem pre_eq_iff (right : Holds b n) :
    (a.hasPreRelease = b.hasPreRelease ∧ a.preReleaseStr = b.preReleaseStr ∧
      a.preReleaseNumber = b.preReleaseNumber) ↔ m.pre = n.pre := by
  have text (phase phase' : Phase) : phase.text = phase'.text ↔ phase = phase' := by
    cases phase <;> cases phase' <;> decide
  rw [left.hasPre, right.hasPre, left.preStr, right.preStr, left.preNumber, right.preNumber]
  cases m.pre <;> cases n.pre <;> simp [text, Prod.ext_iff]

theorem less_eq (right : Holds b n) : less a b = (codeOrder m n == .lt) := by
  rw [less, lessPre_eq left right, left.epoch, right.epoch, codeOrder, ← compareRelease_eq left right]
  exact less_then (less_then rfl)

/-- `operator==` is equality in the order of the code. -/
theorem equal_eq (right : Holds b n) : equal a b = (codeOrder m n == .eq) := by
  have pre := pre_eq_iff left right
  have post := @isSome_getD_eq_iff m.post n.post
  have dev := @isSome_getD_eq_iff m.dev n.dev
  rw [← left.hasPost, ← right.hasPost, ← left.postNumber, ← right.postNumber] at post
  rw [← left.hasDev, ← right.hasDev, ← left.devNumber, ← right.devNumber] at dev
  have release : compareRelease a b = 0 ↔ comparePadded compare 0 m.release n.release = .eq := by
    rw [← compareRelease_eq left right, compare_eq_iff_eq]
  rw [Bool.eq_iff_iff, beq_iff_eq, codeOrder, codeSuffix, Ordering.then_eq_eq, Ordering.then_eq_eq,
    Ordering.then_eq_eq, Ordering.then_eq_eq, comparePair_eq_iff, comparePair_eq_iff,
    comparePair_eq_iff, plainPreKey_inj, postKey_inj, plainDevKey_inj, Nat.compare_eq_eq,
    ← left.epoch, ← right.epoch, ← release, ← pre, ← post, ← dev]
  simp only [equal, Bool.and_eq_true, beq_iff_eq]
  tauto

end

end

theorem of_mem_lang_word {letters text : Text} (read : text ∈ lang (cat (letters.map icase))) :
    text.map Char.toLower = letters := by
  induction letters generalizing text with
  | nil =>
    obtain rfl := Set.mem_singleton_iff.mp read
    rfl
  | cons c letters ih =>
    cases letters with
    | nil =>
      obtain ⟨d, same, rfl⟩ := read
      rw [map_singleton, beq_iff_eq.mp same]
    | cons c' letters =>
      obtain ⟨_, ⟨d, same, rfl⟩, rest, more, rfl⟩ := Language.mem_mul.mp read
      rw [singleton_append, map_cons, beq_iff_eq.mp same, ih more]

section

variable {version : Text} {captures : Captures}

section

variable (matched : matchText parserRegex version = some captures)
include matched

/-- The name of a pre-release, in the spelling of the code. -/
theorem normalizePreRelease_captured {letters : Text} (given : captures 3 = some letters) :
    normalizePreRelease (letters.map Char.toLower) = (phaseOf (letters.map Char.toLower)).text := by
  obtain ⟨body, among, read⟩ := (matchText_capture matched).2 3 letters given
  obtain rfl : body = oneOf (preReleaseWords.map word) := by
    rw [groups_parserRegex] at among
    simpa using among
  obtain ⟨_, member, held⟩ := of_mem_lang_oneOf (by decide) read
  obtain ⟨name, known, rfl⟩ := mem_map.mp member
  have spelled : ∀ name ∈ preReleaseWords,
      normalizePreRelease name.toList = (phaseOf name.toList).text := by decide
  rw [of_mem_lang_word held]
  exact spelled name known

theorem splitToNumbers_captured :
    splitToNumbers (captures.str 2) '.' = .ok ((meaningOf captures).cut.release) := by
  rw [Meaning.cut, meaningOf]
  rcases release_captured matched with empty | release
  · rw [empty]
    rfl
  · have some : captures.str 2 ≠ [] := by
      intro empty
      rw [empty] at release
      exact (release [] mem_cons_self).1 rfl
    simp only [if_neg some, map_map]
    exact splitToNumbers_separated release

theorem str_eq_nil_of_missing
    {label : Nat} (number : Nat) (behind : guarded label number parserRegex = true)
    (missing : captures label = none) : captures.str number = [] := by
  rw [Captures.str, matchText_guarded matched behind missing]
  rfl

/-- The number behind a name is 0 where the name is missing. -/
theorem number_eq {label number : Nat} (behind : guarded label number parserRegex = true) :
    toUInt32 (digitsValue (captures.str number)) =
      ((captures label).map fun _ => toUInt32 (digitsValue (captures.str number))).getD 0 := by
  cases given : captures label with
  | none =>
    rw [str_eq_nil_of_missing matched number behind given]
    rfl
  | some letters => rfl

theorem postNumber_eq : toUInt32 (digitsValue (postReleaseGroup captures)) =
      (meaningOf captures).cut.post.getD 0 := by
  simp only [Meaning.cut, meaningOf]
  split
  · rfl
  · rename_i missing
    rw [Bool.or_eq_true, not_or, Option.not_isSome_iff_eq_none, Option.not_isSome_iff_eq_none] at missing
    have none : postReleaseGroup captures = [] := by
      rw [postReleaseGroup, missing.2]
      exact str_eq_nil_of_missing matched 7 (by decide) missing.1
    rw [none]
    rfl

theorem of_readPostRelease_bind {β : Type} {next : Nat → Except VersionError β} {result : β}
    (done : (readPostRelease captures >>= next) = .ok result) :
    next (digitsValue (postReleaseGroup captures)) = .ok result := by
  have digits (index : Nat) (numeric : index ∈ [1, 4, 5, 7, 9]) := digits_captured matched numeric
  rw [readPostRelease] at done
  rw [postReleaseGroup]
  split at done
  · rename_i hyphen
    rw [if_pos hyphen]
    exact of_stoul_bind (digits 5 (by decide)) (implicitPost_captured matched hyphen) done
  · rename_i named
    rw [if_neg named]
    exact of_stoulOr_bind (digits 7 (by decide)) done

end

theorem holds_of_accepted {object : PEP440} (accepted : matchVersion version = .ok (some object)) :
    Holds object (meaning version).cut := by
  rw [meaning]
  unfold matchVersion at accepted
  split at accepted
  · cases accepted
  · rename_i captures matched
    rw [matched, Option.getD_some]
    have digits (index : Nat) (numeric : index ∈ [1, 4, 5, 7, 9]) := digits_captured matched numeric
    have read := of_stoulOr_bind (digits 1 (by decide)) accepted
    have read := of_stoulOr_bind (digits 4 (by decide)) read
    have read := of_readPostRelease_bind matched read
    have read := of_stoulOr_bind (digits 9 (by decide)) read
    cases read
    exact {
      epoch := rfl
      release := splitToNumbers_captured matched
      hasPre := by cases given : captures 3 <;> simp [Meaning.cut, meaningOf, given]
      preStr := by
        cases given : captures 3 with
        | none => simp [Meaning.cut, meaningOf, Captures.str, given, normalizePreRelease]
        | some letters =>
          have name := normalizePreRelease_captured matched given
          simpa [Meaning.cut, meaningOf, Captures.str, given] using name
      preNumber := by
        have number := number_eq matched (show guarded 3 4 parserRegex = true by decide)
        simpa [Meaning.cut, meaningOf, Function.comp_def] using number
      hasPost := by
        simp only [Meaning.cut, meaningOf]
        split <;> simp_all
      postNumber := postNumber_eq matched
      hasDev := by cases given : captures 8 <;> simp [Meaning.cut, meaningOf, given]
      devNumber := by
        have number := number_eq matched (show guarded 8 9 parserRegex = true by decide)
        simpa [Meaning.cut, meaningOf, Function.comp_def] using number }

end

end PEP440

end GuardSarm
