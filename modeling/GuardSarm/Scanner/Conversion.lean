import GuardSarm.Lib.Backtrack
import GuardSarm.Lib.Decimal
import GuardSarm.Scanner.VersionMatcher

/-!
# Numbers of version strings

The library functions that turn a part of a version string into a number, and
the exceptions they raise. A run of digits is out of range from `2 ^ 64` on;
what is in range is then cut to the width of the field that holds it.
-/

namespace GuardSarm

/-- `str(index)` of the matches: the text of a group, empty if the group was not passed. -/
def Regexp.Captures.str (captures : Regexp.Captures) (index : Nat) : Text :=
  (captures index).getD []

variable {text : Text}

/-- What a group of a matched text holds, by the list of the groups. -/
theorem Regexp.str_of_matched {regexp : Regexp} {captures : Regexp.Captures}
    (matched : regexp.matchText text = some captures) (index : Nat) : captures.str index = [] ∨
      ∃ body, (index, body) ∈ regexp.groups ∧ captures.str index ∈ body.lang := by
  rw [Captures.str]
  cases given : captures index with
  | none => exact .inl rfl
  | some held => exact .inr ((Regexp.matchText_capture matched).2 index held given)

theorem Regexp.str_of_required {regexp : Regexp} {captures : Regexp.Captures}
    (matched : regexp.matchText text = some captures) {index : Nat}
    (always : index ∈ regexp.required) :
    ∃ body, (index, body) ∈ regexp.groups ∧ captures.str index ∈ body.lang := by
  obtain ⟨set, held⟩ := Regexp.matchText_capture matched
  obtain ⟨part, given⟩ := Option.isSome_iff_exists.mp (set index always)
  rw [Captures.str, given]
  exact held index part given

/-- `std::stoul`. -/
def stoul (text : Text) : Except VersionError Nat :=
  match scanInt (cString text) with
  | none => .error (.invalidArgument "stoul".toList)
  | some (number, _) =>
    if 2 ^ 64 ≤ number.natAbs then .error (.outOfRange "stoul".toList)
    else .ok (number % 2 ^ 64).toNat

/-- `std::stoi`. -/
def stoi (text : Text) : Except VersionError Int :=
  match scanInt (cString text) with
  | none => .error (.invalidArgument "stoi".toList)
  | some (number, _) =>
    if number < -2 ^ 31 ∨ 2 ^ 31 ≤ number then .error (.outOfRange "stoi".toList)
    else .ok number

/-- A number in a field of 32 bits. -/
def toUInt32 (number : Nat) : Nat := number % 2 ^ 32

/-- `stoul` of an optional group, whose default is 0. -/
def stoulOr (text : Text) : Except VersionError Nat := if text = [] then .ok 0 else stoul text

theorem AllDigits.plain (all : AllDigits text) : nul ∉ text := fun member =>
  (digit_cases (all nul member)).2.2.2.2 rfl

/-- A run of digits raises only if it is out of range. -/
theorem stoul_digits (all : AllDigits text) (some : text ≠ []) :
    stoul text = if 2 ^ 64 ≤ digitsValue text then .error (.outOfRange "stoul".toList)
      else .ok (digitsValue text) := by
  have scanned : scanInt (cString text) = Option.some ((digitsValue text : Int), []) := by
    rw [cString_eq_self all.plain]
    have scanned : scanInt (text ++ []) = Option.some ((digitsValue text : Int), []) :=
      scanInt_digits some all (by simp)
    rwa [List.append_nil] at scanned
  rw [stoul, scanned]
  simp only [Int.natAbs_natCast]
  split
  · rfl
  · rename_i small
    have whole : ((digitsValue text : Int) % 2 ^ 64).toNat = digitsValue text := by omega
    rw [whole]

section

variable {β : Type} {digits : Text} {next : Nat → Except VersionError β} {result : β}

theorem of_stoul_bind (all : AllDigits digits) (some : digits ≠ [])
    (done : (stoul digits >>= next) = .ok result) : next (digitsValue digits) = .ok result := by
  rw [stoul_digits all some] at done
  split at done
  · cases done
  · exact done

theorem of_stoulOr_bind (all : AllDigits digits) (done : (stoulOr digits >>= next) = .ok result) :
    next (digitsValue digits) = .ok result := by
  rw [stoulOr] at done
  split at done
  · rename_i none
    rw [none]
    exact done
  · rename_i some
    exact of_stoul_bind all some done

end

end GuardSarm
