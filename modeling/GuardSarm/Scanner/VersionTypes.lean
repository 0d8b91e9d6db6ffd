import GuardSarm.Scanner.CalVer
import GuardSarm.Scanner.Dpkg
import GuardSarm.Scanner.Pep440
import GuardSarm.Scanner.Rpm
import GuardSarm.Scanner.SemVer

/-!
# Reading a version as one of the six types

A type has a shape that it recognises in a version string, and numbers that it
then converts. A string without the shape is refused, and a string with the
shape is accepted if all its numbers can be converted; otherwise the
conversion raises, and no type behind this one is tried.
-/

namespace GuardSarm

open List

/-- The six implementations of `IVersionObject`. -/
def VersionClasses.all : VersionClasses
  | .calVer => CalVer.versionClass
  | .pep440 => PEP440.versionClass
  | .majorMinor => MajorMinor.versionClass
  | .semVer => SemVer.versionClass
  | .dpkg => Dpkg.versionClass
  | .rpm => Rpm.versionClass

/-- What a month or a day has to be, where there is one. -/
def CalVer.inside (text : Text) (most : Nat) : Bool :=
  text == [] || (decide (1 ≤ digitsValue text.tail) && decide (digitsValue text.tail ≤ most))

def dateInside (captures : Regexp.Captures) : Bool :=
  CalVer.inside (captures.str 2) 12 && CalVer.inside (captures.str 3) 31

/-- Whether a string has the shape of a type. -/
def shaped (version : Text) : VersionObjectType → Bool
  | .calVer => (CalVer.parserRegex.matchText version).any dateInside
  | .pep440 => (PEP440.parserRegex.matchText version).isSome
  | .majorMinor => (MajorMinor.parserRegex.matchText version).isSome
  | .semVer => (SemVer.parserRegex.matchText version).isSome
  | .dpkg => (Dpkg.matchVersion version).isSome
  | .rpm => true

/-- The texts that are converted with `stoul`. -/
def numerals (captures : Regexp.Captures) : VersionObjectType → List Text
  | .calVer => [(captures.str 4).tail]
  | .pep440 => [captures.str 1, captures.str 4, PEP440.postReleaseGroup captures, captures.str 9]
  | .majorMinor => [captures.str 1, captures.str 2]
  | .semVer => [captures.str 1, captures.str 2, captures.str 3]
  | .dpkg | .rpm => []

/-- Numbers below `2 ^ 64`. -/
def inRange (numerals : List Text) : Bool := numerals.all fun digits => digitsValue digits < 2 ^ 64

/-- What stands before the first colon is a number that fits an `int`. -/
def epochInRange (version : Text) : Bool :=
  match Rpm.find version ':' with
  | none => true
  | some colonPos =>
    match scanInt (cString (version.take colonPos)) with
    | none => false
    | some (number, _) => decide (-2 ^ 31 ≤ number) && decide (number < 2 ^ 31)

/-- Whether the numbers of a string with the shape of a type can be converted. -/
def representable (version : Text) : VersionObjectType → Bool
  | .calVer => (CalVer.parserRegex.matchText version).all fun m => inRange (numerals m .calVer)
  | .pep440 => (PEP440.parserRegex.matchText version).all fun m => inRange (numerals m .pep440)
  | .majorMinor =>
    (MajorMinor.parserRegex.matchText version).all fun m => inRange (numerals m .majorMinor)
  | .semVer => (SemVer.parserRegex.matchText version).all fun m => inRange (numerals m .semVer)
  | .dpkg => true
  | .rpm => epochInRange version

/-- What reading a string as one type gives, by its shape and its numbers. -/
inductive Reads {Object : Type} : Except VersionError (Option Object) → Bool → Bool → Prop where
  | refused (numbers : Bool) : Reads (.ok none) false numbers
  | accepted (object : Object) : Reads (.ok (some object)) true true
  | raised (e : VersionError) : Reads (.error e) true false

theorem stoul_cases {digits : Text} (all : AllDigits digits) (some : digits ≠ []) :
    (digitsValue digits < 2 ^ 64 ∧ stoul digits = .ok (digitsValue digits)) ∨
    (¬digitsValue digits < 2 ^ 64 ∧ stoul digits = .error (.outOfRange "stoul".toList)) := by
  rw [stoul_digits all some]
  by_cases large : 2 ^ 64 ≤ digitsValue digits
  · exact .inr ⟨not_lt.mpr large, if_pos large⟩
  · exact .inl ⟨not_le.mp large, if_neg large⟩

namespace Reads

variable {Object : Type} {digits : Text} {rest : List Text}
  {next : Nat → Except VersionError (Option Object)}

theorem bind_stoul (all : AllDigits digits) (some : digits ≠ [])
    (later : Reads (next (digitsValue digits)) true (inRange rest)) :
    Reads (stoul digits >>= next) true (inRange (digits :: rest)) := by
  rcases stoul_cases all some with ⟨small, converted⟩ | ⟨large, raises⟩
  · have cons : inRange (digits :: rest) = inRange rest := by
      rw [inRange, all_cons, decide_eq_true small, Bool.true_and, inRange]
    rw [converted, cons]
    exact later
  · have cons : inRange (digits :: rest) = false := by
      rw [inRange, all_cons, decide_eq_false large, Bool.false_and]
    rw [raises, cons]
    exact .raised _

/-- The same for a number that may be missing. -/
theorem bind_stoulOr (all : AllDigits digits)
    (later : Reads (next (digitsValue digits)) true (inRange rest)) :
    Reads (stoulOr digits >>= next) true (inRange (digits :: rest)) := by
  by_cases missing : digits = []
  · subst missing
    exact later
  · rw [stoulOr, if_neg missing]
    exact bind_stoul all missing later

end Reads

theorem SemVer.matchVersion_reads (version : Text) :
    Reads (SemVer.matchVersion version) (shaped version .semVer) (representable version .semVer) := by
  rw [SemVer.matchVersion, shaped, representable]
  cases matched : SemVer.parserRegex.matchText version with
  | none => exact .refused _
  | some captures =>
    have number (index : Nat) (core : index ∈ [1, 2, 3]) :=
      of_mem_number (number_captured matched core)
    exact .bind_stoul (number 1 (by decide)).1 (number 1 (by decide)).2.1
      (.bind_stoul (number 2 (by decide)).1 (number 2 (by decide)).2.1
        (.bind_stoul (number 3 (by decide)).1 (number 3 (by decide)).2.1 (.accepted _)))

theorem MajorMinor.matchVersion_reads (version : Text) :
    Reads (MajorMinor.matchVersion version) (shaped version .majorMinor)
      (representable version .majorMinor) := by
  rw [MajorMinor.matchVersion, shaped, representable]
  cases matched : MajorMinor.parserRegex.matchText version with
  | none => exact .refused _
  | some captures =>
    have major := number_captured matched (mem_cons_self (a := 1))
    have minor := number_captured matched (mem_cons_of_mem 1 (mem_singleton_self 2))
    exact .bind_stoul major.1 major.2 (.bind_stoul minor.1 minor.2 (.accepted _))

theorem PEP440.matchVersion_reads (version : Text) :
    Reads (PEP440.matchVersion version) (shaped version .pep440) (representable version .pep440) := by
  rw [PEP440.matchVersion, shaped, representable]
  split
  · rename_i none
    rw [none]
    exact .refused _
  · rename_i captures matched
    have shape : (PEP440.parserRegex.matchText version).isSome = true := by rw [matched]; rfl
    have numbers : ((PEP440.parserRegex.matchText version).all fun m =>
        inRange (numerals m .pep440)) = inRange (numerals captures .pep440) := by rw [matched]; rfl
    rw [shape, numbers]
    have digits (index : Nat) (numeric : index ∈ [1, 4, 5, 7, 9]) := digits_captured matched numeric
    refine .bind_stoulOr (digits 1 (by decide)) (.bind_stoulOr (digits 4 (by decide)) ?_)
    by_cases hyphen : (captures 5).isSome = true
    · rw [readPostRelease, postReleaseGroup, if_pos hyphen, if_pos hyphen]
      exact .bind_stoul (digits 5 (by decide)) (implicitPost_captured matched hyphen)
        (.bind_stoulOr (digits 9 (by decide)) (.accepted _))
    · rw [readPostRelease, postReleaseGroup, if_neg hyphen, if_neg hyphen]
      exact .bind_stoulOr (digits 7 (by decide)) (.bind_stoulOr (digits 9 (by decide)) (.accepted _))

/-- A month or a day never raises. -/
theorem CalVer.field_inside {text : Text} (most : Nat)
    (short : text = [] ∨ (text ≠ [] ∧ CalVer.ShortDigits 2 text.tail)) :
    ∃ value, CalVer.field text most =
      .ok (if CalVer.inside text most then some value else none) := by
  rcases short with rfl | ⟨given, all, some, two⟩
  · exact ⟨0, rfl⟩
  · have bound : digitsValue text.tail < 10 ^ 2 :=
      (digitsValue_lt all).trans_le (Nat.pow_le_pow_right (by decide) two)
    have converted : stoul text.tail = .ok (digitsValue text.tail) :=
      (stoul_digits all some).trans (if_neg (by omega))
    have whole : digitsValue text.tail % 2 ^ 8 = digitsValue text.tail :=
      Nat.mod_eq_of_lt (by omega)
    refine ⟨digitsValue text.tail, ?_⟩
    rw [CalVer.field, if_neg given, converted]
    change Except.ok (if _ % 2 ^ 8 < 1 ∨ _ % 2 ^ 8 > most then none else Option.some (_ % 2 ^ 8)) = _
    rw [whole, CalVer.inside, beq_false_of_ne given, Bool.false_or]
    by_cases inside : 1 ≤ digitsValue text.tail ∧ digitsValue text.tail ≤ most
    · rw [if_neg (by omega), if_pos (by simpa using inside)]
    · rw [if_pos (by omega), if_neg (by simpa using inside)]

theorem CalVer.matchVersion_reads (version : Text) :
    Reads (CalVer.matchVersion version) (shaped version .calVer) (representable version .calVer) := by
  rw [CalVer.matchVersion, shaped, representable]
  cases matched : CalVer.parserRegex.matchText version with
  | none => exact .refused _
  | some captures =>
    obtain ⟨allYear, someYear, short⟩ := year_captured matched
    have bound : digitsValue (captures.str 1) < 10 ^ 4 :=
      (digitsValue_lt allYear).trans_le (Nat.pow_le_pow_right (by decide) short)
    have year : stoul (captures.str 1) = .ok (digitsValue (captures.str 1)) :=
      (stoul_digits allYear someYear).trans (if_neg (by omega))
    obtain ⟨month, monthRead⟩ := field_inside 12 (field_captured matched (mem_cons_self))
    obtain ⟨day, dayRead⟩ := field_inside 31
      (field_captured matched (mem_cons_of_mem 2 (mem_singleton_self 3)))
    simp only [CalVer.read, year, monthRead, dayRead, Option.any_some, Option.all_some, dateInside]
    cases CalVer.inside (captures.str 2) 12 with
    | false => exact .refused _
    | true =>
      cases CalVer.inside (captures.str 3) 31 with
      | false => exact .refused _
      | true =>
        rcases micro_captured matched with missing | ⟨given, all, some⟩
        · simp only [numerals, missing]
          exact .accepted _
        · simp only [if_neg given]
          exact .bind_stoul all some (.accepted _)

theorem Rpm.matchVersion_reads (version : Text) :
    Reads (Rpm.matchVersion version) (shaped version .rpm) (representable version .rpm) := by
  rw [Rpm.matchVersion, shaped, representable, epochInRange]
  cases Rpm.find version ':' with
  | none => exact .accepted _
  | some colonPos =>
    simp only [stoi]
    cases scanInt (cString (version.take colonPos)) with
    | none => exact .raised _
    | some scanned =>
      obtain ⟨number, rest⟩ := scanned
      by_cases outside : number < -2 ^ 31 ∨ 2 ^ 31 ≤ number
      · have large : (decide (-2 ^ 31 ≤ number) && decide (number < 2 ^ 31)) = false := by
          rw [Bool.and_eq_false_iff, decide_eq_false_iff_not, decide_eq_false_iff_not]
          omega
        simp only [if_pos outside, large]
        exact .raised _
      · have small : (decide (-2 ^ 31 ≤ number) && decide (number < 2 ^ 31)) = true := by
          rw [Bool.and_eq_true, decide_eq_true_iff, decide_eq_true_iff]
          omega
        simp only [if_neg outside, small]
        exact .accepted _

/-- Each type refuses, accepts or raises by the shape and the numbers of the string. -/
theorem matchVersion_reads (version : Text) (type : VersionObjectType) :
    Reads ((VersionClasses.all type).matchVersion version) (shaped version type)
      (representable version type) := by
  cases type with
  | calVer => exact CalVer.matchVersion_reads version
  | pep440 => exact PEP440.matchVersion_reads version
  | majorMinor => exact MajorMinor.matchVersion_reads version
  | semVer => exact SemVer.matchVersion_reads version
  | dpkg =>
    change Reads (.ok (Dpkg.matchVersion version)) (Dpkg.matchVersion version).isSome true
    cases Dpkg.matchVersion version with
    | none => exact .refused _
    | some object => exact .accepted _
  | rpm => exact Rpm.matchVersion_reads version

namespace VersionMatcher

/-- The types that a reading tries, in order. -/
def tried : Reading → List VersionObjectType
  | .inl type => [type]
  | .inr .unspecified | .inr .apk => unspecifiedOrder
  | .inr _ => [.dpkg]

/-- The object of the first type that accepts the string, whatever the types before it do. -/
def classify (version : Text) (types : List VersionObjectType) :
    Option (VersionObject .all) :=
  types.findSome? fun type =>
    (((VersionClasses.all type).matchVersion version).toOption.join).map (⟨type, ·⟩)

/-- The first type whose shape the string has can represent its numbers. -/
def Representable (reading : Reading) (version : Text) : Prop :=
  ((tried reading).find? (shaped version)).all (representable version) = true

/-- What is read type by type, up to the first shape that is recognised. -/
theorem findSomeM?_reads (version : Text) (types : List VersionObjectType) :
    if (types.find? (shaped version)).all (representable version) then
      types.findSomeM? (createOfType .all version) = .ok (classify version types)
    else ∃ e, types.findSomeM? (createOfType .all version) = .error e := by
  induction types with
  | nil => rfl
  | cons type types ih =>
    rw [findSomeM?_cons, find?_cons]
    have reads := matchVersion_reads version type
    have created : createOfType .all version type =
        ((VersionClasses.all type).matchVersion version).map (·.map (⟨type, ·⟩)) := rfl
    simp only [classify, findSome?_cons, created]
    generalize (VersionClasses.all type).matchVersion version = result at reads ⊢
    generalize shaped version type = shape at reads ⊢
    generalize numbers : representable version type = able at reads
    cases reads with
    | refused => exact ih
    | accepted object => exact (if_pos numbers).mpr rfl
    | raised e => exact (if_neg (ne_true_of_eq_false numbers)).mpr ⟨e, rfl⟩

theorem createVersionObject_eq_findSomeM? (version : Text) (reading : Reading) :
    createVersionObject .all version reading =
      (tried reading).findSomeM? (createOfType .all version) := by
  have single (type : VersionObjectType) :
      createOfType .all version type = [type].findSomeM? (createOfType .all version) := by
    rw [findSomeM?_cons]
    cases createOfType .all version type with
    | error e => rfl
    | ok object => cases object <;> rfl
  cases reading with
  | inl type => exact single type
  | inr strategy =>
    cases strategy with
    | unspecified | apk => rfl
    | windows | macOS | pacman | snap | pkg => exact single .dpkg

/-- A string is read without an exception exactly if the first shape it has can represent it, and
then it is the object of the first type that accepts it. -/
theorem createVersionObject_eq_classify_iff (version : Text) (reading : Reading) :
    createVersionObject .all version reading = .ok (classify version (tried reading)) ↔
      Representable reading version := by
  have reads := findSomeM?_reads version (tried reading)
  rw [createVersionObject_eq_findSomeM?, Representable]
  split at reads
  · rename_i able
    exact ⟨fun _ => able, fun _ => reads⟩
  · rename_i unable
    obtain ⟨e, raised⟩ := reads
    rw [raised]
    exact ⟨fun read => (nomatch read), fun able => absurd able unable⟩

/-- **Reading and comparing versions raise nothing but an invalid argument exactly if** the first
shape that each string has can represent its numbers. -/
theorem version_reading_total_iff (versionA versionB : Text) (reading : Reading) :
    (createVersionObject .all versionA reading = .ok (classify versionA (tried reading)) ∧
      createVersionObject .all versionB reading = .ok (classify versionB (tried reading)) ∧
      ((∃ result, compare .all versionA versionB reading = .ok result) ∨
        ∃ what, compare .all versionA versionB reading = .error (.invalidArgument what))) ↔
    Representable reading versionA ∧ Representable reading versionB := by
  rw [← createVersionObject_eq_classify_iff, ← createVersionObject_eq_classify_iff]
  refine ⟨fun property => ⟨property.1, property.2.1⟩, fun ⟨readA, readB⟩ => ⟨readA, readB, ?_⟩⟩
  rw [compare_of_created readA]
  cases classify versionA (tried reading) with
  | none => exact .inr ⟨_, rfl⟩
  | some a =>
    rw [compareObject, readB]
    cases classify versionB (tried reading) with
    | none => exact .inr ⟨_, rfl⟩
    | some b =>
      simp only [bind, Except.bind]
      cases compareObjects a b with
      | none => exact .inr ⟨_, rfl⟩
      | some result => exact .inl ⟨result, rfl⟩

/-- A calendar version whose last number does not fit is not read at all, though it is a PEP 440
version, and neither is an epoch that is no number. -/
theorem unrepresentable_version_raises :
    (createVersionObject .all "22.1.1.18446744073709551616".toList (.inr .unspecified)).map
      (·.map (·.getType)) = .error (.outOfRange "stoul".toList) ∧
    (classify "22.1.1.18446744073709551616".toList unspecifiedOrder).map (·.getType) =
      some .pep440 ∧
    compare .all "22.1.1.18446744073709551616".toList "1".toList (.inr .unspecified) =
      .error (.outOfRange "stoul".toList) ∧
    (createVersionObject .all "a:1".toList (.inl .rpm)).map (·.map (·.getType)) =
      .error (.invalidArgument "stoi".toList) := by
  decide +kernel

end VersionMatcher

end GuardSarm
