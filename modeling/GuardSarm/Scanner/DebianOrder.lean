import GuardSarm.Lib.Decimal
import GuardSarm.Lib.PaddedCompare
import GuardSarm.Scanner.Dpkg

/-!
# The order of Debian versions

The policy cuts a version into runs of characters that are no digits and
numbers, in turn, and compares two versions run by run. In a run a tilde comes
before the end of the run, the end before letters, and letters before all
other characters. `compareVersionAndRevision` walks over both texts at once
and never converts a number; its sign is the order of the policy.
-/

namespace GuardSarm

open List

open Std (TransCmp)

namespace Debian

/-- The class of a character in a run, and its code in the class; the end of a run has a class of
its own. -/
def rank : Option Char → Nat × Int
  | none => (1, 0)
  | some c =>
    if c = '~' then (0, 0)
    else if c.isAlpha then (2, Dpkg.charCode c)
    else (3, Dpkg.charCode c)

def compareRank : Nat × Int → Nat × Int → Ordering :=
  compareLex (compareOn Prod.fst) (compareOn Prod.snd)

theorem compareRank_lt {k m : Nat} (less : k < m) (x y : Int) : compareRank (k, x) (m, y) = .lt := by
  simp [compareRank, compareLex, compareOn, Nat.compare_eq_lt.mpr less]

theorem compareRank_gt {k m : Nat} (greater : m < k) (x y : Int) :
    compareRank (k, x) (m, y) = .gt := by
  simp [compareRank, compareLex, compareOn, Nat.compare_eq_gt.mpr greater]

theorem compareRank_same (k : Nat) (x y : Int) : compareRank (k, x) (k, y) = compare x y := by
  simp [compareRank, compareLex, compareOn]

/-- Two runs of characters that are no digits. -/
def compareRun (left right : Text) : Ordering :=
  comparePadded compareRank (rank none) (left.map fun c => rank (some c))
    (right.map fun c => rank (some c))

def nonDigits (text : Text) : Text := text.takeWhile fun c => !c.isDigit

def behindNonDigits (text : Text) : Text := text.dropWhile fun c => !c.isDigit

def number (text : Text) : Nat := digitsValue ((behindNonDigits text).takeWhile Char.isDigit)

/-- What follows the first run and the number behind it. -/
def rest (text : Text) : Text := (behindNonDigits text).dropWhile Char.isDigit

theorem rest_length (text : Text) (present : text ≠ []) : (rest text).length < text.length := by
  have behind := length_dropWhile_le (fun c : Char => !c.isDigit) text
  have digits := length_dropWhile_le Char.isDigit (behindNonDigits text)
  cases text with
  | nil => exact absurd rfl present
  | cons c text =>
    by_cases digit : c.isDigit = true
    · have start : behindNonDigits (c :: text) = c :: text := by simp [behindNonDigits, digit]
      have shorter := length_dropWhile_le Char.isDigit text
      simp only [rest, start, dropWhile_cons, digit, if_true, length_cons]
      omega
    · have start : behindNonDigits (c :: text) = behindNonDigits text := by
        simp [behindNonDigits, digit]
      have shorter := length_dropWhile_le (fun c : Char => !c.isDigit) text
      simp only [rest, start, length_cons] at digits ⊢
      simp only [behindNonDigits] at digits shorter ⊢
      omega

/-- The runs of a version, each with the number behind it. -/
def runs (text : Text) : List (Text × Nat) :=
  if _present : text = [] then [] else (nonDigits text, number text) :: runs (rest text)
termination_by text.length
decreasing_by exact rest_length text _present

def compareParts (left right : Text × Nat) : Ordering :=
  (compareRun left.1 right.1).then (compare left.2 right.2)

/-- The order of the policy: run by run, and nothing behind the end of a version. -/
def policyCompare (left right : Text) : Ordering :=
  comparePadded compareParts ([], 0) (runs left) (runs right)

instance : TransCmp compareRank := inferInstanceAs (TransCmp (compareLex _ _))

instance : TransCmp compareRun :=
  transCmp_map (comparePadded compareRank (rank none)) (List.map fun c => rank (some c))

instance : TransCmp compareParts := by
  have byRun := transCmp_map compareRun (Prod.fst : Text × Nat → Text)
  have byNumber := transCmp_map (compare : Nat → Nat → Ordering) (Prod.snd : Text × Nat → Nat)
  exact inferInstanceAs (TransCmp (compareLex (fun a b : Text × Nat => compareRun a.1 b.1)
    (fun a b => compare a.2 b.2)))

instance : TransCmp policyCompare := transCmp_map (comparePadded compareParts ([], 0)) runs

end Debian

namespace Dpkg

open Debian

/-- The rank of the next character of a run, or of its end. -/
def headRank (text : Text) : Nat × Int := if atNonDigit text then rank text.head? else rank none

variable {text : Text}

/-- The weight of the next character, class by class. -/
theorem order_head (plain : nul ∉ text) :
    (headRank text = (1, 0) ∧ order (text.headD nul) = 0 ∧ atNonDigit text = false) ∨
    (headRank text = (0, 0) ∧ order (text.headD nul) = -1) ∨
    (∃ code, headRank text = (2, code) ∧ order (text.headD nul) = code ∧ 65 ≤ code ∧ code ≤ 122) ∨
    (∃ code, headRank text = (3, code) ∧ order (text.headD nul) = code + 256 ∧
      128 ≤ code + 256) := by
  cases text with
  | nil => exact .inl ⟨rfl, rfl, rfl⟩
  | cons c text =>
    simp only [headRank, atNonDigit, headD_cons, head?_cons, rank, order]
    by_cases digit : c.isDigit = true
    · simp [digit]
    · by_cases alpha : c.isAlpha = true
      · obtain ⟨low, high⟩ := alpha_code alpha
        have other : c ≠ '~' := by rintro rfl; simp at high
        have code : charCode c = c.toNat := if_pos (by omega)
        refine .inr (.inr (.inl ⟨c.toNat, ?_⟩))
        simp [digit, alpha, other, code]
        omega
      · by_cases tilde : c = '~'
        · subst tilde
          exact .inr (.inl ⟨rfl, rfl⟩)
        · have some : c ≠ nul := fun same => plain (same ▸ mem_cons_self)
          have positive : 0 < c.toNat := by
            by_contra zero
            exact some (Char.toNat_inj.mp (by change c.toNat = 0; omega))
          refine .inr (.inr (.inr ⟨charCode c, ?_⟩))
          simp only [digit, alpha, tilde, some, if_false, if_true, Bool.not_false, ne_eq,
            not_false_eq_true, true_and, Bool.false_eq_true]
          rw [charCode]
          split <;> omega

theorem compare_shift (x y shift : Int) : compare (x + shift) (y + shift) = compare x y := by
  rcases lt_trichotomy x y with less | rfl | greater
  · rw [compare_lt_iff_lt.mpr less, compare_lt_iff_lt.mpr (by omega)]
  · rw [compare_eq_iff_eq.mpr rfl, compare_eq_iff_eq.mpr rfl]
  · rw [compare_gt_iff_gt.mpr greater, compare_gt_iff_gt.mpr (by omega)]

variable {left right : Text}

/-- Weights are ordered as ranks are: the classes lie one behind the other. -/
theorem compare_order (plainLeft : nul ∉ left) (plainRight : nul ∉ right) :
    compare (order (left.headD nul)) (order (right.headD nul)) =
      compareRank (headRank left) (headRank right) := by
  have lower {x y : Int} {k m : Nat} (less : x < y) (classes : k < m) (u v : Int) :
      compare x y = compareRank (k, u) (m, v) := by
    rw [compareRank_lt classes, compare_lt_iff_lt.mpr less]
  have higher {x y : Int} {k m : Nat} (greater : y < x) (classes : m < k) (u v : Int) :
      compare x y = compareRank (k, u) (m, v) := by
    rw [compareRank_gt classes, compare_gt_iff_gt.mpr greater]
  rcases order_head plainLeft with ⟨first, x, -⟩ | ⟨first, x⟩ | ⟨c, first, x, lowC, highC⟩ |
    ⟨c, first, x, lowC⟩ <;>
  rcases order_head plainRight with ⟨second, y, -⟩ | ⟨second, y⟩ | ⟨d, second, y, lowD, highD⟩ |
    ⟨d, second, y, lowD⟩ <;>
  rw [first, second, x, y] <;>
  first
    | rfl
    | rw [compareRank_same]; done
    | exact lower (by omega) (by decide) _ _
    | exact higher (by omega) (by decide) _ _
    | exact (compare_shift c d 256).trans (compareRank_same 3 c d).symm

theorem nonDigits_headD (text : Text) :
    ((nonDigits text).map fun c => rank (some c)).headD (rank none) = headRank text := by
  cases text with
  | nil => rfl
  | cons c text =>
    by_cases digit : c.isDigit = true
    · simp [nonDigits, headRank, atNonDigit, digit]
    · simp [nonDigits, headRank, atNonDigit, digit]

theorem compareRun_step (left right : Text) : compareRun (nonDigits left) (nonDigits right) =
      (compareRank (headRank left) (headRank right)).then
        (compareRun (nonDigits left).tail (nonDigits right).tail) := by
  rw [compareRun, comparePadded_step, nonDigits_headD, nonDigits_headD, ← map_tail,
    ← map_tail]
  rfl

/-- A character of a run is passed: the run and what is behind it are those of the tail. -/
theorem passed_nonDigit (go : atNonDigit text = true) :
    nonDigits text.tail = (nonDigits text).tail ∧
      behindNonDigits text.tail = behindNonDigits text := by
  cases text with
  | nil => cases go
  | cons c text =>
    have digit : c.isDigit = false := by simpa [atNonDigit] using go
    simp [nonDigits, behindNonDigits, digit]

theorem stopped_nonDigit (stop : atNonDigit text = false) :
    nonDigits text = [] ∧ behindNonDigits text = text := by
  cases text with
  | nil => exact ⟨rfl, rfl⟩
  | cons c text =>
    have digit : c.isDigit = true := by simpa [atNonDigit] using stop
    simp [nonDigits, behindNonDigits, digit]

theorem atNonDigit_iff (plain : nul ∉ text) :
    atNonDigit text = true ↔ order (text.headD nul) ≠ 0 := by
  constructor
  · intro go
    rcases order_head plain with ⟨-, -, stopped⟩ | ⟨-, weight⟩ | ⟨code, -, weight, low, -⟩ |
      ⟨code, -, weight, low⟩
    · rw [stopped] at go
      cases go
    · omega
    · omega
    · omega
  · intro weight
    by_contra stop
    cases text with
    | nil => exact weight rfl
    | cons c text =>
      have digit : c.isDigit = true := by simpa [atNonDigit] using stop
      simp [order, digit] at weight

/-- Where the loop goes on with equal weights, both texts have a character to pass. -/
theorem both_of_order_eq (plainLeft : nul ∉ left) (plainRight : nul ∉ right)
    (go : (atNonDigit left || atNonDigit right) = true)
    (same : order (left.headD nul) = order (right.headD nul)) :
    atNonDigit left = true ∧ atNonDigit right = true := by
  rw [Bool.or_eq_true, atNonDigit_iff plainLeft, atNonDigit_iff plainRight, same, or_self] at go
  rw [atNonDigit_iff plainLeft, atNonDigit_iff plainRight, same]
  exact ⟨go, go⟩

/-- The first inner loop compares two runs, and passes them if they are equal. -/
theorem skipNonDigits_spec (plainLeft : nul ∉ left) (plainRight : nul ∉ right) :
    (∃ difference, skipNonDigits left right = .error difference ∧
      compareRun (nonDigits left) (nonDigits right) = compare difference 0 ∧ difference ≠ 0) ∨
    (skipNonDigits left right = .ok (behindNonDigits left, behindNonDigits right) ∧
      compareRun (nonDigits left) (nonDigits right) = .eq) := by
  fun_induction skipNonDigits left right with
  | case1 left right go firstAux secondAux differ =>
    refine .inl ⟨_, rfl, ?_, by omega⟩
    have decides : compareRank (headRank left) (headRank right) = compare (firstAux - secondAux) 0 := by
      rw [← compare_order plainLeft plainRight, ← compare_shift _ _ (-secondAux)]
      congr 1
      omega
    rw [compareRun_step, decides, compare_then (by omega)]
  | case2 left right go firstAux secondAux same ih =>
    have equal : firstAux = secondAux := by simpa using same
    obtain ⟨goLeft, goRight⟩ := both_of_order_eq plainLeft plainRight go equal
    obtain ⟨runLeft, behindLeft⟩ := passed_nonDigit goLeft
    obtain ⟨runRight, behindRight⟩ := passed_nonDigit goRight
    have ranks : compareRank (headRank left) (headRank right) = .eq := by
      rw [← compare_order plainLeft plainRight, compare_eq_iff_eq]
      exact equal
    have later := ih (fun member => plainLeft (mem_of_mem_tail member))
      (fun member => plainRight (mem_of_mem_tail member))
    rw [compareRun_step, ranks, Ordering.eq_then]
    rwa [runLeft, runRight, behindLeft, behindRight] at later
  | case3 left right stop =>
    obtain ⟨stopLeft, stopRight⟩ : atNonDigit left = false ∧ atNonDigit right = false := by
      simpa using stop
    obtain ⟨runLeft, behindLeft⟩ := stopped_nonDigit stopLeft
    obtain ⟨runRight, behindRight⟩ := stopped_nonDigit stopRight
    rw [runLeft, runRight, behindLeft, behindRight]
    exact .inr ⟨rfl, rfl⟩

theorem compare_charCode {c d : Char} (left : c.isDigit = true) (right : d.isDigit = true) :
    compare (charCode c - charCode d) 0 = compareCode c d := by
  have codeC : charCode c = c.toNat := if_pos (by have := digit_code left; omega)
  have codeD : charCode d = d.toNat := if_pos (by have := digit_code right; omega)
  rw [codeC, codeD, compareCode, compareOn]
  rcases Nat.lt_trichotomy c.toNat d.toNat with less | same | greater
  · rw [Nat.compare_eq_lt.mpr less, compare_lt_iff_lt.mpr (by omega)]
  · rw [Nat.compare_eq_eq.mpr same, compare_eq_iff_eq.mpr (by omega)]
  · rw [Nat.compare_eq_gt.mpr greater, compare_gt_iff_gt.mpr (by omega)]

theorem skipDigits_stop {firstDiff : Int} (stop : atDigit left = false ∨ atDigit right = false) :
    skipDigits firstDiff left right = (firstDiff, left, right) := by
  cases left with
  | nil => rfl
  | cons c left =>
    cases right with
    | nil => rfl
    | cons d right =>
      refine if_neg fun digits => ?_
      simp_all [atDigit]

/-- The last inner loop walks over two runs of digits. The longer run is still there, and of two
runs of one length the first difference is known. -/
theorem skipDigits_spec {left right restLeft restRight l r : Text} (allLeft : AllDigits left)
    (allRight : AllDigits right) (stopLeft : atDigit restLeft = false)
    (stopRight : atDigit restRight = false) {firstDiff difference : Int}
    (numbers : skipDigits firstDiff (left ++ restLeft) (right ++ restRight) = (difference, l, r)) :
    (compare left.length right.length).then ((compare firstDiff 0).then (strcmp left right)) =
        (if atDigit l then .gt else if atDigit r then .lt else compare difference 0) ∧
      (atDigit l = false → atDigit r = false → l = restLeft ∧ r = restRight) := by
  induction left generalizing right firstDiff with
  | nil =>
    rw [nil_append, skipDigits_stop (.inl stopLeft)] at numbers
    cases numbers
    cases right with
    | nil => simp [stopLeft, stopRight, strcmp, List.compareLex]
    | cons d right =>
      have digit : atDigit (d :: (right ++ restRight)) = true := allRight d mem_cons_self
      simp [stopLeft, digit, Nat.compare_eq_lt.mpr]
  | cons c left ih =>
    have digitC : c.isDigit = true := allLeft c mem_cons_self
    cases right with
    | nil =>
      rw [nil_append, skipDigits_stop (.inr stopRight)] at numbers
      cases numbers
      simp [atDigit, digitC, Nat.compare_eq_gt.mpr]
    | cons d right =>
      have digitD : d.isDigit = true := allRight d mem_cons_self
      have lengths : compare (c :: left).length (d :: right).length =
          compare left.length right.length := by
        simp only [length_cons, Nat.compare_eq_ite_lt, Nat.add_lt_add_iff_right]
      have decides : compare (if firstDiff = 0 then charCode c - charCode d else firstDiff) 0 =
          (compare firstDiff 0).then (compareCode c d) := by
        by_cases none : firstDiff = 0
        · rw [if_pos none, compare_charCode digitC digitD, compare_eq_iff_eq.mpr none,
            Ordering.eq_then]
        · rw [if_neg none, compare_then none]
      rw [lengths, strcmp_cons, ← Ordering.then_assoc (compare firstDiff 0), ← decides]
      exact ih allLeft.tail allRight.tail (by simpa [skipDigits, digitC, digitD] using numbers)

theorem runs_headD (text : Text) : (runs text).headD ([], 0) = (nonDigits text, number text) := by
  rw [runs]
  split
  · rename_i empty
    subst empty
    rfl
  · rfl

theorem runs_tail (text : Text) : (runs text).tail = runs (rest text) := by
  conv_lhs => rw [runs]
  split
  · rename_i empty
    subst empty
    simp [rest, behindNonDigits, runs]
  · rfl

theorem policyCompare_step (left right : Text) : policyCompare left right =
      ((compareRun (nonDigits left) (nonDigits right)).then
        (compare (number left) (number right))).then (policyCompare (rest left) (rest right)) := by
  rw [policyCompare, comparePadded_step, runs_headD, runs_headD, runs_tail, runs_tail]
  rfl

/-- The digits of the next number without leading zeros. -/
def numberDigits (text : Text) : Text :=
  ((behindNonDigits text).takeWhile Char.isDigit).dropWhile (· == '0')

theorem atDigit_rest (text : Text) : atDigit (rest text) = false := by
  have stopped := head?_dropWhile_not Char.isDigit (behindNonDigits text)
  cases left : rest text with
  | nil => rfl
  | cons c text' =>
    rw [← rest, left] at stopped
    exact stopped

/-- Skipping zeros leaves the other digits of the number and what follows them. -/
theorem dropZeros_behind (text : Text) :
    (behindNonDigits text).dropWhile (· == '0') = numberDigits text ++ rest text := by
  have stop : (rest text).dropWhile (· == '0') = rest text := by
    cases left : rest text with
    | nil => rfl
    | cons c text' =>
      have other : c.isDigit = false := by
        have := atDigit_rest text
        rwa [left] at this
      have nonzero : c ≠ '0' := by rintro rfl; cases other
      simp [nonzero]
  have split : behindNonDigits text =
      (behindNonDigits text).takeWhile Char.isDigit ++ rest text :=
    (takeWhile_append_dropWhile).symm
  rw [split, dropWhile_append, stop]
  split
  · rename_i none
    rw [numberDigits, isEmpty_iff.mp none, nil_append]
  · rfl

theorem numberDigits_all (text : Text) : AllDigits (numberDigits text) := fun _ member =>
  List.mem_takeWhile_imp ((List.dropWhile_suffix _).subset member)

theorem compare_number (left right : Text) : compare (number left) (number right) =
      (compare (numberDigits left).length (numberDigits right).length).then
        (strcmp (numberDigits left) (numberDigits right)) := by
  rw [number, number, ← digitsValue_dropZeros, ← digitsValue_dropZeros (List.takeWhile _ _)]
  exact compare_digits (numberDigits_all left) (numberDigits_all right) (head?_dropZeros _)
    (head?_dropZeros _)

theorem plain_rest (plain : nul ∉ text) : nul ∉ rest text := fun member =>
  plain ((List.dropWhile_suffix _).subset ((List.dropWhile_suffix _).subset member))

/-- A pass that gets to the numbers has found equal runs, and what the last inner loop leaves tells
how the two numbers compare. -/
theorem policyCompare_passed {l r l' r' : Text} {firstDiff : Int} (plainLeft : nul ∉ left)
    (plainRight : nul ∉ right) (skipped : skipNonDigits left right = .ok (l, r))
    (numbers : skipDigits 0 (l.dropWhile (· == '0')) (r.dropWhile (· == '0')) =
      (firstDiff, l', r')) :
    policyCompare left right =
        (if atDigit l' then .gt else if atDigit r' then .lt else compare firstDiff 0).then
          (policyCompare (rest left) (rest right)) ∧
      (atDigit l' = false → atDigit r' = false → l' = rest left ∧ r' = rest right) := by
  rcases skipNonDigits_spec plainLeft plainRight with ⟨difference, differs, -⟩ | ⟨same, runs⟩
  · cases skipped.symm.trans differs
  · cases skipped.symm.trans same
    rw [dropZeros_behind, dropZeros_behind] at numbers
    obtain ⟨decides, ends⟩ := skipDigits_spec (numberDigits_all left) (numberDigits_all right)
      (atDigit_rest left) (atDigit_rest right) numbers
    rw [policyCompare_step, runs, Ordering.eq_then, compare_number, ← decides]
    exact ⟨rfl, ends⟩

/-- The sign of the comparison is the order of the policy: the runs decide, or the numbers behind
them, or what follows. -/
theorem compareVersionAndRevision_order (plainLeft : nul ∉ left) (plainRight : nul ∉ right) :
    compare (compareVersionAndRevision left right) 0 = policyCompare left right := by
  fun_induction compareVersionAndRevision left right with
  | case1 left right empty =>
    obtain ⟨rfl, rfl⟩ := empty
    simp [policyCompare, runs, comparePadded, comparePadding]
  | case2 left right present difference skipped =>
    rcases skipNonDigits_spec plainLeft plainRight with ⟨found, differs, run, strict⟩ | ⟨same, -⟩
    · cases skipped.symm.trans differs
      rw [policyCompare_step, run, compare_then strict, compare_then strict]
    · cases skipped.symm.trans same
  | case3 left right present l r skipped firstDiff l' r' numbers digit =>
    rw [(policyCompare_passed plainLeft plainRight skipped numbers).1, if_pos digit]
    rfl
  | case4 left right present l r skipped firstDiff l' r' numbers none digit =>
    rw [(policyCompare_passed plainLeft plainRight skipped numbers).1, if_neg none, if_pos digit]
    rfl
  | case5 left right present l r skipped firstDiff l' r' numbers noneLeft noneRight differ =>
    rw [(policyCompare_passed plainLeft plainRight skipped numbers).1, if_neg noneLeft,
      if_neg noneRight, compare_then differ]
  | case6 left right present l r skipped firstDiff l' r' numbers noneLeft noneRight same ih =>
    obtain ⟨step, ends⟩ := policyCompare_passed plainLeft plainRight skipped numbers
    obtain ⟨rfl, rfl⟩ := ends (by simpa using noneLeft) (by simpa using noneRight)
    rw [ih (plain_rest plainLeft) (plain_rest plainRight), step, if_neg noneLeft, if_neg noneRight,
      compare_eq_iff_eq.mpr (not_not.mp same)]
    rfl

/-- The first inner loop, none where a pointer would move past the end of its text. -/
def skipNonDigitsChecked (leftSide rightSide : Text) : Option (Except Int (Text × Text)) :=
  if atNonDigit leftSide || atNonDigit rightSide then
    let firstAux := order (leftSide.headD nul)
    let secondAux := order (rightSide.headD nul)
    if firstAux ≠ secondAux then some (.error (firstAux - secondAux))
    else if _ended : leftSide = [] ∨ rightSide = [] then none
    else skipNonDigitsChecked leftSide.tail rightSide.tail
  else some (.ok (leftSide, rightSide))
termination_by leftSide.length
decreasing_by
  rw [List.length_tail]
  exact Nat.sub_lt (List.length_pos_iff.mpr (not_or.mp _ended).1) Nat.one_pos

theorem ne_nil_of_atNonDigit (go : atNonDigit text = true) : text ≠ [] := by
  rintro rfl
  cases go

theorem skipNonDigitsChecked_eq (plainLeft : nul ∉ left) (plainRight : nul ∉ right) :
    skipNonDigitsChecked left right = some (skipNonDigits left right) := by
  fun_induction skipNonDigits left right with
  | case1 left right go firstAux secondAux differ =>
    rw [skipNonDigitsChecked, if_pos go]
    exact if_pos differ
  | case2 left right go firstAux secondAux same ih =>
    have equal : firstAux = secondAux := by simpa using same
    obtain ⟨goLeft, goRight⟩ := both_of_order_eq plainLeft plainRight go equal
    rw [skipNonDigitsChecked, if_pos go]
    refine (if_neg same).trans ?_
    rw [dif_neg (not_or.mpr ⟨ne_nil_of_atNonDigit goLeft, ne_nil_of_atNonDigit goRight⟩)]
    exact ih (fun member => plainLeft (mem_of_mem_tail member))
      (fun member => plainRight (mem_of_mem_tail member))
  | case3 left right stop => rw [skipNonDigitsChecked, if_neg stop]

theorem skipNonDigits_of_checked {result : Except Int (Text × Text)}
    (checked : skipNonDigitsChecked left right = some result) :
    skipNonDigits left right = result := by
  fun_induction skipNonDigitsChecked left right with
  | case1 left right go firstAux secondAux differ =>
    cases checked
    rw [skipNonDigits, dif_pos go]
    exact if_pos differ
  | case2 => cases checked
  | case3 left right go firstAux secondAux same ended ih =>
    rw [skipNonDigits, dif_pos go]
    exact (if_neg same).trans (ih checked)
  | case4 left right stop =>
    cases checked
    rw [skipNonDigits, dif_neg stop]

/-- `compareVersionAndRevision`, none where a pointer would move past the end of its text. The other
loops pass only digits. -/
def compareChecked (leftSide rightSide : Text) : Option Int :=
  if _empty : leftSide = [] ∧ rightSide = [] then some 0
  else
    match _checked : skipNonDigitsChecked leftSide rightSide with
    | none => none
    | some (.error difference) => some difference
    | some (.ok (l, r)) =>
      match _numbers : skipDigits 0 (l.dropWhile (· == '0')) (r.dropWhile (· == '0')) with
      | (firstDiff, l, r) =>
        if _left : atDigit l then some 1
        else if _right : atDigit r then some (-1)
        else if firstDiff ≠ 0 then some firstDiff
        else compareChecked l r
termination_by leftSide.length + rightSide.length
decreasing_by
  exact number_shorter _empty (skipNonDigits_of_checked _checked) _numbers (by simpa using _left)
    (by simpa using _right)

/-- A pass of the outer loop that gets to the numbers. -/
theorem compareVersionAndRevision_pass {left right l r l' r' : Text} {firstDiff : Int}
    (present : ¬(left = [] ∧ right = [])) (skipped : skipNonDigits left right = .ok (l, r))
    (numbers : skipDigits 0 (l.dropWhile (· == '0')) (r.dropWhile (· == '0')) =
      (firstDiff, l', r')) :
    compareVersionAndRevision left right =
      if atDigit l' then 1 else if atDigit r' then -1 else if firstDiff ≠ 0 then firstDiff
      else compareVersionAndRevision l' r' := by
  rw [compareVersionAndRevision, dif_neg present]
  split
  · rename_i found
    cases skipped.symm.trans found
  · rename_i found
    cases skipped.symm.trans found
    split
    rename_i found
    cases numbers.symm.trans found
    rfl

/-- On texts without a zero byte no pointer moves past the end. -/
theorem compareChecked_eq (plainLeft : nul ∉ left) (plainRight : nul ∉ right) :
    compareChecked left right = some (compareVersionAndRevision left right) := by
  fun_induction compareChecked left right with
  | case1 left right empty => rw [compareVersionAndRevision, dif_pos empty]
  | case2 left right present stuck =>
    rw [skipNonDigitsChecked_eq plainLeft plainRight] at stuck
    cases stuck
  | case3 left right present difference checked =>
    have skipped := skipNonDigits_of_checked checked
    rw [compareVersionAndRevision, dif_neg present]
    split
    · rename_i found
      cases skipped.symm.trans found
      rfl
    · rename_i found
      cases skipped.symm.trans found
  | case4 left right present l r checked firstDiff l' r' numbers digit =>
    rw [compareVersionAndRevision_pass present (skipNonDigits_of_checked checked) numbers,
      if_pos digit]
  | case5 left right present l r checked firstDiff l' r' numbers none digit =>
    rw [compareVersionAndRevision_pass present (skipNonDigits_of_checked checked) numbers,
      if_neg none, if_pos digit]
  | case6 left right present l r checked firstDiff l' r' numbers noneLeft noneRight differ =>
    rw [compareVersionAndRevision_pass present (skipNonDigits_of_checked checked) numbers,
      if_neg noneLeft, if_neg noneRight, if_pos differ]
  | case7 left right present l r checked firstDiff l' r' numbers noneLeft noneRight same ih =>
    have skipped := skipNonDigits_of_checked checked
    rw [compareVersionAndRevision_pass present skipped numbers, if_neg noneLeft, if_neg noneRight,
      if_neg same]
    obtain ⟨rfl, rfl⟩ := (policyCompare_passed plainLeft plainRight skipped numbers).2
      (by simpa using noneLeft) (by simpa using noneRight)
    exact ih (plain_rest plainLeft) (plain_rest plainRight)

/-- The version and the revision have no zero byte. -/
def Plain (version : Dpkg) : Prop := nul ∉ version.version ∧ nul ∉ version.revision

/-- The epoch, the version and the revision decide in turn. -/
def policyOrder (left right : Dpkg) : Ordering :=
  (compare left.epoch right.epoch).then
    ((policyCompare left.version right.version).then
      (policyCompare left.revision right.revision))

instance : TransCmp policyOrder := by
  have epoch := transCmp_map (compare : Nat → Nat → Ordering) Dpkg.epoch
  have version := transCmp_map policyCompare Dpkg.version
  have revision := transCmp_map policyCompare Dpkg.revision
  exact inferInstanceAs (TransCmp (compareLex (fun a b : Dpkg => compare a.epoch b.epoch)
    (compareLex (fun a b => policyCompare a.version b.version)
      (fun a b => policyCompare a.revision b.revision))))

theorem compareDpkgVersion_order {left right : Dpkg} (plainLeft : left.Plain)
    (plainRight : right.Plain) : compare (compareDpkgVersion left right) 0 = policyOrder left right := by
  have versions := compareVersionAndRevision_order plainLeft.1 plainRight.1
  have revisions := compareVersionAndRevision_order plainLeft.2 plainRight.2
  rw [compareDpkgVersion, policyOrder]
  rcases Nat.lt_trichotomy left.epoch right.epoch with less | same | greater
  · rw [if_neg (by omega), if_pos less, Nat.compare_eq_lt.mpr less]
    rfl
  · rw [if_neg (by omega), if_neg (by omega), Nat.compare_eq_eq.mpr same, Ordering.eq_then,
      ← versions, ← revisions]
    dsimp only
    split
    · rename_i differ
      rw [compare_then differ]
    · rename_i equal
      rw [compare_eq_iff_eq.mpr (not_not.mp equal), Ordering.eq_then]
  · rw [if_pos greater, Nat.compare_eq_gt.mpr greater]
    rfl

/-- **Debian versions are ordered as the policy says**, which is a total preorder, and no pointer
moves past the end of a text. -/
theorem dpkg_policy_order : (∀ left right : Text, nul ∉ left → nul ∉ right →
      compare (compareVersionAndRevision left right) 0 = policyCompare left right ∧
      compareChecked left right = some (compareVersionAndRevision left right)) ∧
    (∀ left right : Dpkg, left.Plain → right.Plain →
      compare (compareDpkgVersion left right) 0 = policyOrder left right ∧
      compareDpkgVersion left left = 0 ∧
      compare (compareDpkgVersion left right) 0 = (compare (compareDpkgVersion right left) 0).swap) ∧
    ∀ left middle right : Dpkg, left.Plain → middle.Plain → right.Plain →
      compareDpkgVersion left middle ≤ 0 → compareDpkgVersion middle right ≤ 0 →
      compareDpkgVersion left right ≤ 0 := by
  have le_iff (i : Int) : i ≤ 0 ↔ (compare i 0).isLE = true := by
    rw [← compare_le_iff_le, Ordering.isLE_iff_ne_gt]
  refine ⟨fun left right plainLeft plainRight =>
    ⟨compareVersionAndRevision_order plainLeft plainRight, compareChecked_eq plainLeft plainRight⟩,
    fun left right plainLeft plainRight => ⟨compareDpkgVersion_order plainLeft plainRight, ?_, ?_⟩,
    fun left middle right plainLeft plainMiddle plainRight low high => ?_⟩
  · rw [← compare_eq_iff_eq, compareDpkgVersion_order plainLeft plainLeft]
    exact Std.ReflCmp.compare_self
  · rw [compareDpkgVersion_order plainLeft plainRight, compareDpkgVersion_order plainRight plainLeft]
    exact Std.OrientedCmp.eq_swap
  · rw [le_iff, compareDpkgVersion_order plainLeft plainMiddle] at low
    rw [le_iff, compareDpkgVersion_order plainMiddle plainRight] at high
    rw [le_iff, compareDpkgVersion_order plainLeft plainRight]
    exact TransCmp.isLE_trans low high

theorem dpkg_policy_order_tilde :
    compare (compareVersionAndRevision "1.0~rc2".toList "1.00".toList) 0 =
      policyCompare "1.0~rc2".toList "1.00".toList ∧
    compareDpkgVersion ⟨0, "1.0~rc2".toList, []⟩ ⟨0, "1.10".toList, []⟩ ≤ 0 :=
  ⟨(dpkg_policy_order.1 _ _ (by decide) (by decide)).1,
    dpkg_policy_order.2.2 _ ⟨0, "1.9".toList, []⟩ _ ⟨by decide, by decide⟩ ⟨by decide, by decide⟩
      ⟨by decide, by decide⟩ (by decide +kernel) (by decide +kernel)⟩

end Dpkg

end GuardSarm
