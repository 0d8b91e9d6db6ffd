import GuardSarm.Lib.Reversal
import GuardSarm.Scanner.VersionTypes

/-!
# The precedence of semantic versions

The SemVer specification compares pre-releases identifier by identifier. The
code compares them as texts, and the three numbers in 32 bits. Two
pre-releases are then in the wrong order exactly if the first identifiers that
differ are (`Misordered`): their texts are not ordered as the identifiers are,
or one of them goes on with a hyphen where the other one is followed by a dot,
which is the greater character.
-/

namespace GuardSarm

open List

namespace SemVer

def isNumeric (identifier : Text) : Bool := identifier.all Char.isDigit

def compareIdentifier (x y : Text) : Ordering :=
  match isNumeric x, isNumeric y with
  | true, true => compare (digitsValue x) (digitsValue y)
  | true, false => .lt
  | false, true => .gt
  | false, false => strcmp x y

/-- A version with a pre-release is below the one without. -/
def comparePreRelease : List Text → List Text → Ordering
  | [], [] => .eq
  | [], _ :: _ => .gt
  | _ :: _, [] => .lt
  | x :: xs, y :: ys => List.compareLex compareIdentifier (x :: xs) (y :: ys)

/-- What a version means: three numbers without bound, and the identifiers of the pre-release. -/
structure Meaning where
  major : Nat
  minor : Nat
  patch : Nat
  identifiers : List Text
  deriving DecidableEq

def precedence (a b : Meaning) : Ordering :=
  (compare a.major b.major).then ((compare a.minor b.minor).then
    ((compare a.patch b.patch).then (comparePreRelease a.identifiers b.identifiers)))

def identifiersOf (preRelease : Text) : List Text :=
  if preRelease = [] then [] else preRelease.splitOn '.'

/-- The meaning of a version, by the groups of the regular expression. -/
def meaning (version : Text) : Meaning :=
  match Regexp.matchText parserRegex version with
  | none => ⟨0, 0, 0, []⟩
  | some captures => ⟨digitsValue (captures.str 1), digitsValue (captures.str 2),
      digitsValue (captures.str 3), identifiersOf (captures.str 4)⟩

/-- The same version with its numbers in 32 bits. -/
def Meaning.cut (a : Meaning) : Meaning :=
  { a with major := toUInt32 a.major, minor := toUInt32 a.minor, patch := toUInt32 a.patch }

/-- Two different identifiers whose texts are in the other order: a shorter number with a greater
text, or a text below the number that it should be above. -/
def OutOfPlace (x y : Text) : Prop :=
  match isNumeric x, isNumeric y with
  | true, true =>
    (x.length < y.length ∧ strcmp x y = .gt) ∨ (y.length < x.length ∧ strcmp x y = .lt)
  | true, false => strcmp x y = .gt
  | false, true => strcmp x y = .lt
  | false, false => False

/-- Something follows the identifier `x`, and `y` goes on with a hyphen. -/
def Overtakes (x : Text) (more : Prop) (y : Text) : Prop := more ∧ x ++ ['-'] <+: y

/-- Two pre-releases whose first different identifiers are compared wrongly. -/
def Misordered : List Text → List Text → Prop
  | x :: xs, y :: ys =>
    if x = y then Misordered xs ys
    else OutOfPlace x y ∨ Overtakes x (xs ≠ []) y ∨ Overtakes y (ys ≠ []) x
  | _, _ => False

/-- What follows an identifier: nothing, or a dot. -/
def Follows (rest : Text) : Prop := rest = [] ∨ ∃ more, rest = '.' :: more

theorem dot_below {c : Char} (identifier : isIdentifierChar c = true) (other : c ≠ '-') :
    compareCode '.' c = .lt := by
  rw [isIdentifierChar, isLetter, Bool.or_eq_true, Bool.or_eq_true, beq_iff_eq] at identifier
  have above : 46 < c.toNat := by
    rcases identifier with digit | letter | hyphen
    · exact Nat.lt_of_lt_of_le (by decide) (digit_code digit).1
    · exact Nat.lt_of_lt_of_le (by decide) (alpha_code letter).1
    · exact absurd hyphen other
  exact Nat.compare_eq_lt.mpr above

/-- Where `y` goes on with a hyphen and a dot follows `x`, the texts are in the other order. -/
theorem strcmp_overtaken {x y rest : Text} (rest' : Text) (follows : Follows rest)
    (overtakes : Overtakes x (rest ≠ []) y) :
    strcmp x y = .lt ∧ strcmp (x ++ rest) (y ++ rest') = .gt := by
  obtain ⟨some, more, rfl⟩ := overtakes
  obtain ⟨later, rfl⟩ := follows.resolve_left some
  constructor
  · have longer := strcmp_append_left x [] ('-' :: more)
    rw [append_nil] at longer
    rw [append_assoc]
    exact longer
  · rw [append_assoc, append_assoc, strcmp_append_left]
    rfl

/-- What follows an identifier is below one that goes on, but not with a hyphen. -/
theorem strcmp_ended {c : Char} {x rest rest' : Text} (identifier : isIdentifierChar c = true)
    (follows : Follows rest) (apart : ¬Overtakes [] (rest ≠ []) (c :: x)) :
    strcmp rest (c :: x ++ rest') = .lt := by
  rcases follows with rfl | ⟨later, rfl⟩
  · rfl
  · have other : c ≠ '-' := fun hyphen =>
      apart ⟨cons_ne_nil _ _, by rw [hyphen]; exact ⟨x, rfl⟩⟩
    rw [cons_append, strcmp_cons, dot_below identifier other]
    rfl

theorem strcmp_apart {x y rest rest' : Text} (charsX : ∀ c ∈ x, isIdentifierChar c = true)
    (charsY : ∀ c ∈ y, isIdentifierChar c = true) (follows : Follows rest)
    (follows' : Follows rest') (differ : x ≠ y) (left : ¬Overtakes x (rest ≠ []) y)
    (right : ¬Overtakes y (rest' ≠ []) x) : strcmp (x ++ rest) (y ++ rest') = strcmp x y := by
  induction x generalizing y with
  | nil =>
    cases y with
    | nil => exact absurd rfl differ
    | cons d y => exact strcmp_ended (charsY d mem_cons_self) follows left
  | cons c x ih =>
    cases y with
    | nil =>
      rw [nil_append, strcmp_swap, strcmp_ended (charsX c mem_cons_self) follows' right]
      rfl
    | cons d y =>
      rw [cons_append, cons_append, strcmp_cons, strcmp_cons]
      by_cases same : c = d
      · subst same
        have rest := ih (fun e member => charsX e (mem_cons_of_mem _ member))
          (fun e member => charsY e (mem_cons_of_mem _ member))
          (fun equal => differ (equal ▸ rfl))
          (fun ⟨more, begins⟩ => left ⟨more, (prefix_cons_inj c).mpr begins⟩)
          (fun ⟨more, begins⟩ => right ⟨more, (prefix_cons_inj c).mpr begins⟩)
        rw [rest]
      · have decided : compareCode c d ≠ .eq := fun equal => same (compareCode_eq_iff.mp equal)
        cases first : compareCode c d with
        | eq => exact absurd first decided
        | lt => rfl
        | gt => rfl

/-- A part of a pre-release. -/
structure Identifier (x : Text) : Prop where
  chars : ∀ c ∈ x, isIdentifierChar c = true
  some : x ≠ []
  leading : isNumeric x = true → x.head? = Option.some '0' → x = ['0']

theorem Identifier.of_mem {x : Text} (word : x ∈ Regexp.lang (.alt number alphanumeric)) :
    Identifier x := by
  cases word with
  | inl numeric =>
    obtain ⟨all, some, leading⟩ := of_mem_number numeric
    exact ⟨fun c member => by rw [isIdentifierChar, all c member, Bool.true_or], some,
      fun _ => leading⟩
  | inr letters =>
    obtain ⟨all, c, member, letter⟩ := of_mem_alphanumeric letters
    refine ⟨all, ne_nil_of_mem member, fun numeric => ?_⟩
    have digit := all_eq_true.mp numeric c member
    rw [isLetter, not_isAlpha_of_isDigit digit, Bool.false_or, beq_iff_eq] at letter
    rw [letter] at digit
    exact absurd digit (by decide)

theorem allDigits_of_isNumeric {x : Text} (numeric : isNumeric x = true) : AllDigits x :=
  List.all_eq_true.mp numeric

variable {x y : Text}

theorem compare_numeric (left : Identifier x) (right : Identifier y)
    (numericX : isNumeric x = true) (numericY : isNumeric y = true) :
    compare (digitsValue x) (digitsValue y) = (compare x.length y.length).then (strcmp x y) := by
  have leading {x y : Text} (given : Identifier x) (other : Identifier y)
      (numeric : isNumeric x = true) (longer : y.length < x.length) : x.head? ≠ some '0' := by
    intro zero
    have positive := length_pos_iff.mpr other.some
    rw [given.leading numeric zero, length_singleton] at longer
    omega
  exact compare_digits_of_longer (allDigits_of_isNumeric numericX) (allDigits_of_isNumeric numericY)
    (leading left right numericX) (leading right left numericY)

/-- Different identifiers are ordered as their texts, apart from those out of place. -/
theorem compareIdentifier_eq (left : Identifier x) (right : Identifier y) (differ : x ≠ y) :
    ReversedWhen (OutOfPlace x y) (compareIdentifier x y) (strcmp x y) := by
  have decided : strcmp x y ≠ .eq := fun equal => differ (strcmp_eq_iff.mp equal)
  suffices (OutOfPlace x y → compareIdentifier x y = (strcmp x y).swap) ∧
      (¬OutOfPlace x y → compareIdentifier x y = strcmp x y) from ⟨this.1, this.2⟩
  rw [compareIdentifier, OutOfPlace]
  cases numericX : isNumeric x with
  | true =>
    cases numericY : isNumeric y with
    | true =>
      simp only [compare_numeric left right numericX numericY]
      rcases Nat.lt_trichotomy x.length y.length with less | same | greater
      · rw [Nat.compare_eq_lt.mpr less]
        cases order : strcmp x y <;> simp_all [less.not_gt]
      · rw [Nat.compare_eq_eq.mpr same]
        simp [same]
      · rw [Nat.compare_eq_gt.mpr greater]
        cases order : strcmp x y <;> simp_all [greater.not_gt]
    | false => cases order : strcmp x y <;> simp_all
  | false =>
    cases numericY : isNumeric y with
    | true => cases order : strcmp x y <;> simp_all
    | false => simp

theorem compareIdentifier_then (left : Identifier x) (right : Identifier y)
    (differ : x ≠ y) (rest : Ordering) :
    (compareIdentifier x y).then rest = compareIdentifier x y := by
  have identifiers := compareIdentifier_eq left right differ
  have decided : strcmp x y ≠ .eq := fun equal => differ (strcmp_eq_iff.mp equal)
  by_cases out : OutOfPlace x y
  · rw [identifiers.converse out]
    cases order : strcmp x y <;> simp_all
  · rw [identifiers.direct out]
    cases order : strcmp x y <;> simp_all

/-- An identifier that is overtaken is not out of place. -/
theorem Overtakes.inPlace {more : Prop} (overtakes : Overtakes x more y)
    (below : strcmp x y = .lt) : ¬OutOfPlace x y ∧ ¬OutOfPlace y x := by
  have hyphen : isNumeric y = false := by
    obtain ⟨rest, rfl⟩ := overtakes.2
    simp [isNumeric]
  have above : strcmp y x = .gt := by
    rw [strcmp_swap, below]
    rfl
  rw [OutOfPlace, OutOfPlace, hyphen, below, above]
  cases isNumeric x <;> simp

/-- What follows the first identifier of a pre-release. -/
def restText : List Text → Text
  | [] => []
  | x :: xs => '.' :: ['.'].intercalate (x :: xs)

theorem intercalate_cons (x : Text) (xs : List Text) :
    ['.'].intercalate (x :: xs) = x ++ restText xs := by
  cases xs with
  | nil => simp [restText]
  | cons y ys => simp [restText, intercalate_cons_cons]

theorem follows_restText (xs : List Text) : Follows (restText xs) := by
  cases xs with
  | nil => exact .inl rfl
  | cons x xs => exact .inr ⟨_, rfl⟩

theorem restText_ne_nil_iff {xs : List Text} : restText xs ≠ [] ↔ xs ≠ [] := by
  cases xs <;> simp [restText]

theorem compareIdentifier_self (x : Text) : compareIdentifier x x = .eq := by
  rw [compareIdentifier]
  cases isNumeric x
  · exact strcmp_eq_iff.mpr rfl
  · exact Nat.compare_eq_eq.mpr rfl

theorem strcmp_heads (left : Identifier x) (right : Identifier y) (differ : x ≠ y)
    (xs ys : List Text) :
    ReversedWhen (OutOfPlace x y ∨ Overtakes x (xs ≠ []) y ∨ Overtakes y (ys ≠ []) x)
      (strcmp (x ++ restText xs) (y ++ restText ys)) (compareIdentifier x y) := by
  have identifiers := compareIdentifier_eq left right differ
  simp only [← restText_ne_nil_iff]
  by_cases ahead : Overtakes x (restText xs ≠ []) y
  · obtain ⟨below, greater⟩ := strcmp_overtaken (restText ys) (follows_restText xs) ahead
    rw [greater, identifiers.direct (ahead.inPlace below).1, below]
    exact ⟨fun _ => rfl, fun right => absurd (.inr (.inl ahead)) right⟩
  · by_cases behind : Overtakes y (restText ys ≠ []) x
    · obtain ⟨below, greater⟩ := strcmp_overtaken (restText xs) (follows_restText ys) behind
      rw [strcmp_swap, greater, identifiers.direct (behind.inPlace below).2, strcmp_swap, below]
      exact ⟨fun _ => rfl, fun right => absurd (.inr (.inr behind)) right⟩
    · rw [strcmp_apart left.chars right.chars (follows_restText xs) (follows_restText ys) differ
        ahead behind]
      simp only [ahead, behind, or_false]
      exact ⟨fun out => by rw [identifiers.converse out, Ordering.swap_swap],
        fun inside => (identifiers.direct inside).symm⟩

/-- Two pre-releases as texts: the order of their identifiers, or the other one. -/
theorem strcmp_intercalate {xs ys : List Text} (left : ∀ x ∈ xs, Identifier x)
    (right : ∀ y ∈ ys, Identifier y) (someX : xs ≠ []) (someY : ys ≠ []) :
    ReversedWhen (Misordered xs ys) (strcmp (['.'].intercalate xs) (['.'].intercalate ys))
      (xs.compareLex compareIdentifier ys) := by
  induction xs generalizing ys with
  | nil => exact absurd rfl someX
  | cons x xs ih =>
    cases ys with
    | nil => exact absurd rfl someY
    | cons y ys =>
      rw [intercalate_cons, intercalate_cons, Misordered, compareLex_cons]
      by_cases same : x = y
      · subst same
        rw [if_pos rfl, strcmp_append_left, compareIdentifier_self, Ordering.eq_then]
        cases xs with
        | nil => cases ys <;> exact .refl id _
        | cons x' xs =>
          cases ys with
          | nil => exact .refl id _
          | cons y' ys =>
            exact ih (fun z member => left z (mem_cons_of_mem _ member))
              (fun z member => right z (mem_cons_of_mem _ member)) (cons_ne_nil _ _)
              (cons_ne_nil _ _)
      · rw [if_neg same, compareIdentifier_then (left x mem_cons_self)
          (right y mem_cons_self) same]
        exact strcmp_heads (left x mem_cons_self) (right y mem_cons_self) same xs ys

/-- The pre-releases as the operators compare them. -/
def textOrder : Text → Text → Ordering
  | [], [] => .eq
  | [], _ :: _ => .gt
  | _ :: _, [] => .lt
  | c :: left, d :: right => strcmp (c :: left) (d :: right)

/-- The order that the two operators stand for. -/
def order (a b : SemVer) : Ordering :=
  (compare a.major b.major).then ((compare a.minor b.minor).then
    ((compare a.patch b.patch).then (textOrder a.preRelease b.preRelease)))

variable {left right : Text}

theorem textOrder_eq_iff : textOrder left right = .eq ↔ left = right := by
  cases left <;> cases right <;> simp [textOrder, strcmp_eq_iff]

theorem equal_eq_order (a b : SemVer) : equal a b = (order a b == .eq) := by
  rw [Bool.eq_iff_iff, beq_iff_eq, order, Ordering.then_eq_eq, Ordering.then_eq_eq,
    Ordering.then_eq_eq, textOrder_eq_iff]
  simp [equal, and_assoc]

theorem less_eq_order (a b : SemVer) : less a b = (order a b == .lt) := by
  have last : (if a.preRelease ≠ [] ∧ b.preRelease = [] then true
      else if a.preRelease ≠ [] ∧ b.preRelease ≠ [] then strcmp a.preRelease b.preRelease == .lt
      else false) = (textOrder a.preRelease b.preRelease == .lt) := by
    cases a.preRelease <;> cases b.preRelease <;> rfl
  rw [less, last, order]
  simp only [Nat.compare_eq_ite_lt]
  split_ifs <;> rfl

theorem result_eq_order (a b : SemVer) : (if equal a b then VersionComparisonResult.aEqualB
      else if less a b then .aLessThanB else .aGreaterThanB) = .ofOrdering (order a b) := by
  rw [equal_eq_order, less_eq_order]
  cases order a b <;> rfl

/-- Numbers that are equal and pre-releases that are compared wrongly. -/
def Clash (a b : Meaning) : Prop :=
  a.major = b.major ∧ a.minor = b.minor ∧ a.patch = b.patch ∧ Misordered a.identifiers b.identifiers

theorem identifiersOf_captured {preRelease : Text} (given : preRelease ≠ [])
    (word : preRelease ∈ Regexp.lang preReleaseRegex) :
    ∃ x xs, identifiersOf preRelease = x :: xs ∧ (∀ y ∈ x :: xs, Identifier y) ∧
      preRelease = ['.'].intercalate (x :: xs) := by
  obtain ⟨parts, some, words, joined⟩ := Regexp.of_mem_lang_separated word
  have identifiers : ∀ x ∈ parts, Identifier x := fun x member => .of_mem (words x member)
  have split : preRelease.splitOn '.' = parts := by
    rw [joined]
    refine splitOn_intercalate '.' (fun x member dot => ?_) some
    exact absurd ((identifiers x member).chars '.' dot) (by decide)
  obtain ⟨x, xs, rfl⟩ := exists_cons_of_ne_nil some
  exact ⟨x, xs, (if_neg given).trans split, identifiers, joined⟩

theorem textOrder_captured (capturedLeft : left = [] ∨ left ∈ Regexp.lang preReleaseRegex)
    (capturedRight : right = [] ∨ right ∈ Regexp.lang preReleaseRegex) :
    ReversedWhen (Misordered (identifiersOf left) (identifiersOf right)) (textOrder left right)
      (comparePreRelease (identifiersOf left) (identifiersOf right)) := by
  cases left with
  | nil =>
    cases right with
    | nil => exact .refl id _
    | cons d right =>
      obtain ⟨y, ys, split, -⟩ := identifiersOf_captured (cons_ne_nil d right)
        (capturedRight.resolve_left (cons_ne_nil _ _))
      rw [split]
      exact .refl id _
  | cons c left =>
    obtain ⟨x, xs, split, proper, joined⟩ := identifiersOf_captured (cons_ne_nil c left)
      (capturedLeft.resolve_left (cons_ne_nil _ _))
    cases right with
    | nil =>
      rw [split]
      exact .refl id _
    | cons d right =>
      obtain ⟨y, ys, split', proper', joined'⟩ := identifiersOf_captured (cons_ne_nil d right)
        (capturedRight.resolve_left (cons_ne_nil _ _))
      have texts := strcmp_intercalate proper proper' (cons_ne_nil _ _) (cons_ne_nil _ _)
      rw [← joined, ← joined'] at texts
      rw [split, split']
      exact texts

section

variable {version : Text} {object : SemVer}

theorem meaning_of_accepted (accepted : matchVersion version = .ok (some object)) :
    (meaning version).cut.major = object.major ∧ (meaning version).cut.minor = object.minor ∧
      (meaning version).cut.patch = object.patch ∧
      (meaning version).identifiers = identifiersOf object.preRelease ∧
      (object.preRelease = [] ∨ object.preRelease ∈ Regexp.lang preReleaseRegex) := by
  rw [matchVersion] at accepted
  rw [meaning]
  cases matched : Regexp.matchText parserRegex version with
  | none =>
    rw [matched] at accepted
    cases accepted
  | some captures =>
    rw [matched] at accepted
    have number (index : Nat) (core : index ∈ [1, 2, 3]) :=
      of_mem_number (number_captured matched core)
    have read := of_stoul_bind (number 1 (by decide)).1 (number 1 (by decide)).2.1 accepted
    have read := of_stoul_bind (number 2 (by decide)).1 (number 2 (by decide)).2.1 read
    have read := of_stoul_bind (number 3 (by decide)).1 (number 3 (by decide)).2.1 read
    cases read
    exact ⟨rfl, rfl, rfl, rfl, preRelease_captured matched⟩

end

/-- The order of two accepted versions: the precedence of the versions in 32 bits, or its converse. -/
theorem order_eq_precedence {versionA versionB : Text} {a b : SemVer}
    (acceptedA : matchVersion versionA = .ok (some a))
    (acceptedB : matchVersion versionB = .ok (some b)) :
    ReversedWhen (Clash (meaning versionA).cut (meaning versionB).cut) (order a b)
      (precedence (meaning versionA).cut (meaning versionB).cut) := by
  obtain ⟨majorA, minorA, patchA, partsA, capturedA⟩ := meaning_of_accepted acceptedA
  obtain ⟨majorB, minorB, patchB, partsB, capturedB⟩ := meaning_of_accepted acceptedB
  have texts := textOrder_captured capturedA capturedB
  rw [← partsA, ← partsB] at texts
  rw [order, precedence, ← majorA, ← majorB, ← minorA, ← minorB, ← patchA, ← patchB]
  refine (((texts.after _).after _).after _).congr ?_
  rw [Nat.compare_eq_eq, Nat.compare_eq_eq, Nat.compare_eq_eq]
  exact Iff.rfl

end SemVer

end GuardSarm
