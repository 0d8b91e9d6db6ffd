import GuardSarm.Lib.Decimal
import GuardSarm.Lib.PaddedCompare

/-!
# Product versions

`GuardSarmVersion` with its default arguments. The operators rest on `__ge__`, which compares the
numbers of a stage as texts, and on the printed form, which is one and the same for every stage of
version 0.0.0. They agree with the order of versions for all that the two do not confuse.
-/

namespace GuardSarm.ProductVersion

open Std (TransCmp)

inductive Stage where
  | alpha | beta | rc
  deriving DecidableEq

def Stage.text : Stage → Text
  | .alpha => "alpha".toList
  | .beta => "beta".toList
  | .rc => "rc".toList

structure Version where
  mayor : Nat
  minor : Nat
  patch : Nat
  dev : Option Stage
  devVer : Text
  deriving DecidableEq

-- What `\d` matches and the value `int` gives it, which is not confined to ASCII.
variable (digit : Char → Option Nat)

def number (digits : Text) : Nat := digits.foldl (fun n c => 10 * n + (digit c).getD 0) 0

def run (text : Text) : Text := text.takeWhile fun c => (digit c).isSome

/-- `(\d+)`, as a number and with what follows. -/
def field (text : Text) : Option (Nat × Text) :=
  if run digit text = [] then none
  else some (number digit (run digit text), text.drop (run digit text).length)

def dot : Text → Option Text
  | '.' :: rest => some rest
  | _ => none

/-- A part of the pattern that may be missing. -/
def skip (word text : Text) : Text := if word.isPrefixOf text then text.drop word.length else text

def stage (text : Text) : Option Stage × Text :=
  match [Stage.alpha, .beta, .rc].find? fun stage => stage.text.isPrefixOf text with
  | some stage => (some stage, text.drop stage.text.length)
  | none => (none, text)

/-- `__init__`; no part of the pattern could give back what it has taken. -/
def init (version : Text) : Option Version := do
  let (mayor, rest) ← field digit (skip ['v'] (skip "GuardSarm ".toList version))
  let (minor, rest) ← field digit (← dot rest)
  let (patch, rest) ← field digit (← dot rest)
  let (dev, rest) := stage (skip ['-'] rest)
  return ⟨mayor, minor, patch, dev, run digit rest⟩

namespace Version

def empty (v : Version) : Bool := v.mayor == 0 && v.minor == 0 && v.patch == 0

def devText (v : Version) : Text :=
  match v.dev with
  | none => []
  | some stage => '-' :: (stage.text ++ v.devVer)

def toText (v : Version) : Text :=
  if v.empty then "N/A".toList
  else 'v' :: (decimal v.mayor ++ '.' :: (decimal v.minor ++ '.' :: (decimal v.patch ++ v.devText)))

/-- `__eq__`. -/
def eq (a b : Version) : Bool := a.toText == b.toText

/-- The branch of `__ge__` for one version number, in numbers and in stages. -/
def geStage (a b : Version) : Bool :=
  match a.dev, b.dev with
  | some _, none => false
  | some d, some e =>
    if (d.text.headD nul).toNat < (e.text.headD nul).toNat then false
    else if d.text.headD nul = e.text.headD nul ∧ strcmp a.devVer b.devVer = .lt then false
    else true
  | none, _ => true

/-- `__ge__`. -/
def ge (a b : Version) : Bool :=
  if a.mayor < b.mayor then false
  else if a.mayor = b.mayor then
    if a.minor < b.minor then false
    else if a.minor = b.minor then
      if a.patch < b.patch then false
      else if a.patch = b.patch then a.geStage b
      else true
    else true
  else true

def lt (a b : Version) : Bool := !a.ge b

def gt (a b : Version) : Bool := a.ge b && !a.eq b

def le (a b : Version) : Bool := !a.gt b || a.eq b

/-- The place of a stage before the release. -/
def rank (v : Version) : Nat :=
  match v.dev with
  | some .alpha => 0
  | some .beta => 1
  | some .rc => 2
  | none => 3

def stageText (v : Version) : Text := if v.dev = none then [] else v.devVer

end Version

/-- The numbers of a version and its stage. -/
def release : Version → Version → Ordering :=
  compareLex (compareOn Version.mayor) (compareLex (compareOn Version.minor)
    (compareLex (compareOn Version.patch) (compareOn Version.rank)))

/-- The order of versions, with the numbers of the stages. -/
def order : Version → Version → Ordering :=
  compareLex release (compareOn fun v => number digit v.stageText)

/-- The order of versions with the texts of those numbers. -/
def textOrder : Version → Version → Ordering :=
  compareLex release fun a b => strcmp a.stageText b.stageText

instance : TransCmp release := inferInstanceAs (TransCmp (compareLex _ _))

instance : TransCmp (order digit) := inferInstanceAs (TransCmp (compareLex _ _))

instance : TransCmp textOrder :=
  have := transCmp_map strcmp Version.stageText
  inferInstanceAs (TransCmp (compareLex release fun a b => strcmp a.stageText b.stageText))

/-- All operators say how the versions compare. -/
structure Agrees (a b : Version) : Prop where
  lt : a.lt b = true ↔ order digit a b = .lt
  eq : a.eq b = true ↔ order digit a b = .eq
  gt : a.gt b = true ↔ order digit a b = .gt
  le : a.le b = true ↔ order digit a b ≠ .gt
  ge : a.ge b = true ↔ order digit a b ≠ .lt

/-- Numbers of one stage are in the order of their texts, and version 0.0.0 has one stage. -/
def Comparable (a b : Version) : Prop :=
  (release a b = .eq → strcmp a.stageText b.stageText =
    compare (number digit a.stageText) (number digit b.stageText)) ∧
  (a.empty = true → b.empty = true → textOrder a b = .eq)

variable {a b : Version}

theorem ge_step {x y : Nat} {rest : Bool} {next : Ordering} (agrees : rest = decide (next ≠ .lt)) :
    (if x < y then false else if x = y then rest else true) =
      decide ((compare x y).then next ≠ .lt) := by
  rcases Nat.lt_trichotomy x y with less | same | greater
  · simp [less, Nat.compare_eq_lt.mpr less]
  · simp [same, agrees]
  · simp [Nat.compare_eq_gt.mpr greater, greater.not_gt, greater.ne']

theorem geStage_eq (a b : Version) : a.geStage b =
    decide ((compare a.rank b.rank).then (strcmp a.stageText b.stageText) ≠ .lt) := by
  obtain ⟨_, _, _, _ | _ | _ | _, _⟩ := a <;> obtain ⟨_, _, _, _ | _ | _ | _, _⟩ := b <;>
    simp [Version.geStage, Version.rank, Version.stageText, Stage.text, strcmp, List.compareLex,
      Nat.compare_eq_gt.mpr, Nat.compare_eq_lt.mpr]

theorem ge_iff (a b : Version) : a.ge b = true ↔ textOrder a b ≠ .lt := by
  have agrees := ge_step (x := a.mayor) (y := b.mayor) (ge_step (x := a.minor) (y := b.minor)
    (ge_step (x := a.patch) (y := b.patch) (geStage_eq a b)))
  rw [Version.ge, agrees, decide_eq_true_iff]
  simp [textOrder, release, compareLex, compareOn, Ordering.then_assoc]

/-- A printed number ends where its digits do. -/
theorem decimal_append_inj {n m : Nat} {rest rest' : Text}
    (stop : ∀ c, rest.head? = some c → c.isDigit = false)
    (stop' : ∀ c, rest'.head? = some c → c.isDigit = false) :
    decimal n ++ rest = decimal m ++ rest' ↔ n = m ∧ rest = rest' := by
  constructor
  · intro same
    have scanned := congrArg scanInt same
    rw [scanInt_decimal n stop, scanInt_decimal m stop'] at scanned
    simpa using scanned
  · rintro ⟨rfl, rfl⟩
    rfl

theorem devText_stop (v : Version) : ∀ c, v.devText.head? = some c → c.isDigit = false := by
  rw [Version.devText]
  cases v.dev with
  | none => nofun
  | some d => simp

theorem devText_eq_iff (a b : Version) :
    a.devText = b.devText ↔ a.rank = b.rank ∧ a.stageText = b.stageText := by
  obtain ⟨_, _, _, _ | _ | _ | _, _⟩ := a <;> obtain ⟨_, _, _, _ | _ | _ | _, _⟩ := b <;>
    simp [Version.devText, Version.rank, Version.stageText, Stage.text]

theorem textOrder_eq_iff (a b : Version) : textOrder a b = .eq ↔ a.mayor = b.mayor ∧
    a.minor = b.minor ∧ a.patch = b.patch ∧ a.devText = b.devText := by
  simp [textOrder, release, compareLex, compareOn, Ordering.then_eq_eq, strcmp_eq_iff,
    devText_eq_iff, and_assoc]

/-- Outside of version 0.0.0 the printed form tells versions apart as their texts do. -/
theorem eq_iff (other : ¬(a.empty = true ∧ b.empty = true)) :
    a.eq b = true ↔ textOrder a b = .eq := by
  have point (rest : Text) : ∀ c, ('.' :: rest).head? = some c → c.isDigit = false := by simp
  rw [Version.eq, beq_iff_eq, textOrder_eq_iff, Version.toText, Version.toText]
  by_cases same : a.empty = b.empty
  · have neither : ¬a.empty = true := fun first => other ⟨first, same ▸ first⟩
    rw [if_neg neither, if_neg (same ▸ neither), List.cons_inj_right,
      decimal_append_inj (point _) (point _), List.cons_inj_right,
      decimal_append_inj (point _) (point _), List.cons_inj_right,
      decimal_append_inj (devText_stop a) (devText_stop b)]
  · refine iff_of_false ?_ ?_
    · cases first : a.empty <;> cases second : b.empty <;> simp_all
    · rintro ⟨mayor, minor, patch, -⟩
      exact same (by rw [Version.empty, Version.empty, mayor, minor, patch])

theorem textOrder_eq_order_iff : textOrder a b = order digit a b ↔ (release a b = .eq →
    strcmp a.stageText b.stageText =
      compare (number digit a.stageText) (number digit b.stageText)) := by
  simp only [textOrder, order, compareLex, compareOn]
  cases release a b <;> simp

variable {digit}

theorem Agrees.of_order (same : textOrder a b = order digit a b)
    (printed : a.eq b = true ↔ textOrder a b = .eq) : Agrees digit a b := by
  have ge := ge_iff a b
  rw [same] at ge printed
  constructor <;> simp only [Version.lt, Version.gt, Version.le, Bool.not_eq_true', Bool.and_eq_true,
    Bool.or_eq_true, ← Bool.not_eq_true, ge, printed]
    <;> cases order digit a b <;> simp

theorem comparable_iff (a b : Version) :
    Agrees digit a b ∧ Agrees digit b a ↔ Comparable digit a b := by
  have swap : textOrder b a = (textOrder a b).swap := Std.OrientedCmp.eq_swap
  have swap' : order digit b a = (order digit a b).swap := Std.OrientedCmp.eq_swap
  rw [Comparable, ← textOrder_eq_order_iff]
  constructor
  · rintro ⟨agrees, agrees'⟩
    have first := agrees.ge
    have second := agrees'.ge
    rw [ge_iff] at first second
    have same : textOrder a b = order digit a b := by
      cases found : textOrder a b <;> cases found' : order digit a b <;> simp_all
    refine ⟨same, fun empty empty' => ?_⟩
    rw [same, ← agrees.eq, Version.eq, Version.toText, Version.toText, if_pos empty, if_pos empty']
    rfl
  · rintro ⟨same, zero⟩
    have printed : a.eq b = true ↔ textOrder a b = .eq := by
      by_cases both : a.empty = true ∧ b.empty = true
      · rw [zero both.1 both.2, Version.eq, Version.toText, Version.toText, if_pos both.1,
          if_pos both.2]
        simp
      · exact eq_iff both
    refine ⟨.of_order same printed, .of_order (by rw [swap, swap', same]) ?_⟩
    rw [swap, Ordering.swap_eq_eq, ← printed, Version.eq, Version.eq, beq_iff_eq, beq_iff_eq, eq_comm]

/-- **Product versions are in order exactly if** the numbers of each stage are in the order of their
texts and version 0.0.0 has one stage; then the operators are those of one total preorder. -/
theorem product_version_order (digit : Char → Option Nat) :
    (∀ s t a b, init digit s = some a → init digit t = some b →
      (Agrees digit a b ∧ Agrees digit b a ↔ Comparable digit a b)) ∧
    ∀ a b c, Comparable digit a b → Comparable digit b c → Comparable digit a c →
      a.le b = true → b.le c = true → a.le c = true := by
  constructor
  · intro s t a b _ _
    exact comparable_iff a b
  · intro a b c first second third low high
    have le {x y : Version} (comparable : Comparable digit x y) :
        x.le y = true ↔ (order digit x y).isLE = true :=
      ((comparable_iff x y).mpr comparable).1.le.trans Ordering.isLE_iff_ne_gt.symm
    rw [le first] at low
    rw [le second] at high
    rw [le third]
    exact TransCmp.isLE_trans low high

def asciiDigit (c : Char) : Option Nat := if c.isDigit then some (c.toNat - 48) else none

theorem product_version_order_stages :
    init asciiDigit "v4.9.0-beta2".toList = some ⟨4, 9, 0, some .beta, ['2']⟩ ∧
      (Agrees asciiDigit ⟨4, 9, 0, some .beta, ['2']⟩ ⟨4, 9, 0, none, []⟩ ∧
        Agrees asciiDigit ⟨4, 9, 0, none, []⟩ ⟨4, 9, 0, some .beta, ['2']⟩) := by
  have first : init asciiDigit "v4.9.0-beta2".toList = some ⟨4, 9, 0, some .beta, ['2']⟩ := by decide
  refine ⟨first, ((product_version_order asciiDigit).1 _ "GuardSarm v4.9.0".toList _ _ first
    (by decide)).mpr ⟨?_, ?_⟩⟩ <;> decide

/-- Stage 10 comes before stage 9, and two stages of version 0.0.0 are equal and one is smaller. -/
theorem stage_numbers_as_texts :
    init asciiDigit "4.9.0-rc10".toList = some ⟨4, 9, 0, some .rc, ['1', '0']⟩ ∧
    init asciiDigit "4.9.0-rc9".toList = some ⟨4, 9, 0, some .rc, ['9']⟩ ∧
    Version.lt ⟨4, 9, 0, some .rc, ['1', '0']⟩ ⟨4, 9, 0, some .rc, ['9']⟩ = true ∧
    order asciiDigit ⟨4, 9, 0, some .rc, ['1', '0']⟩ ⟨4, 9, 0, some .rc, ['9']⟩ = .gt ∧
    init asciiDigit "0.0.0-alpha1".toList = some ⟨0, 0, 0, some .alpha, ['1']⟩ ∧
    Version.lt ⟨0, 0, 0, some .alpha, ['1']⟩ ⟨0, 0, 0, none, []⟩ = true ∧
    Version.eq ⟨0, 0, 0, some .alpha, ['1']⟩ ⟨0, 0, 0, none, []⟩ = true := by
  decide

end GuardSarm.ProductVersion
