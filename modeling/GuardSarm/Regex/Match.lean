import GuardSarm.Regex.Language

/-!
# Simple patterns

`OSMatch_Compile` cuts a pattern into alternatives and chooses one of five
comparison functions for each by its first and last character;
`OSMatch_Execute` asks them one after the other. A C string is the list of its
bytes without the final NUL, and the end of a list is where the code reads the
NUL. The comparison of `_OS_Match` is between the unsigned `charmap` and a plain
`char`, whose sign the platform decides; it is the parameter `signed`.
-/

namespace GuardSarm.OSMatch

open List

abbrev Bytes := List UInt8

/-- `OR`, `BEGINREGEX`, `ENDREGEX` and the mark of a negated pattern. -/
def bar : UInt8 := 124
def beginregex : UInt8 := 94
def endregex : UInt8 := 36
def bang : UInt8 := 33

/-- `charmap`; `strcasecmp` folds the bytes in the same way. -/
def charmap (c : UInt8) : UInt8 := if 65 ≤ c ∧ c ≤ 90 then c + 32 else c

/-- A plain `char` promoted to `int`. -/
def promote (signed : Bool) (c : UInt8) : Int :=
  if signed ∧ 128 ≤ c then (c.toNat : Int) - 256 else c.toNat

/-- `charmap[(uchar)c] == p`. -/
def sameChar (signed : Bool) (c p : UInt8) : Bool :=
  ((charmap c).toNat : Int) == promote signed p

/-! ## The comparison functions -/

/-- How the inner loop of `_OS_Match` ends. -/
inductive Compared where
  | whole | differs | ended
  deriving DecidableEq

def compareRest (signed : Bool) : Bytes → Bytes → Compared
  | [], _ => .whole
  | _ :: _, [] => .ended
  | p :: pt, c :: str => if sameChar signed c p then compareRest signed pt str else .differs

/-- The outer loop of `_OS_Match`, with the number of passes that are left. No
pass has an empty pattern, or stands at the end of the string. -/
def look (signed : Bool) (pattern : Bytes) : Nat → Bytes → Bool
  | 0, _ => false
  | passes + 1, str =>
    match pattern, str with
    | p :: pt, c :: rest =>
      if sameChar signed c p then
        match compareRest signed pt rest with
        | .whole => true
        | .ended => false
        | .differs => look signed pattern passes rest
      else look signed pattern passes rest
    | _, _ => false

/-- `_OS_Match`. -/
def osMatch (signed : Bool) (pattern str : Bytes) (strLen size : Nat) : Bool :=
  if strLen < size then false else look signed pattern (strLen - size + 1) str

/-- `strcasecmp(a, b) == 0`. -/
def strcasecmp : Bytes → Bytes → Bool
  | [], [] => true
  | a :: as, b :: bs => charmap a == charmap b && strcasecmp as bs
  | _, _ => false

/-- `strncasecmp(a, b, n) == 0`. -/
def strncasecmp : Bytes → Bytes → Nat → Bool
  | _, _, 0 => true
  | [], [], _ + 1 => true
  | a :: as, b :: bs, n + 1 => charmap a == charmap b && strncasecmp as bs n
  | _, _, _ => false

/-- `_os_strcmp_last`. -/
def osStrcmpLast (pattern str : Bytes) (strLen size : Nat) : Bool :=
  if strLen < size then false else strcasecmp pattern (str.drop (strLen - size))

/-- The values of `match_fp`. -/
inductive MatchFp where
  | osMatch | osStrncmp | osStrcmp | osStrmatch | osStrcmpLast
  deriving DecidableEq

def MatchFp.run (signed : Bool) (pattern str : Bytes) (strLen size : Nat) : MatchFp → Bool
  | .osMatch => OSMatch.osMatch signed pattern str strLen size
  | .osStrncmp => strncasecmp pattern str size
  | .osStrcmp => strcasecmp pattern str
  | .osStrmatch => true
  | .osStrcmpLast => OSMatch.osStrcmpLast pattern str strLen size

/-! ## Compilation and execution -/

/-- One entry of `patterns`, `match_fp` and `size`. -/
structure SubPattern where
  pattern : Bytes
  matchFp : MatchFp
  size : Nat
  deriving DecidableEq

/-- A text without a leading `^`. -/
def afterBegin (newStr : Bytes) : Bytes :=
  if newStr.head? = some beginregex then newStr.tail else newStr

/-- The sub pattern of the text between two bars. -/
def subPattern (newStr : Bytes) : SubPattern :=
  let dup := afterBegin newStr
  let last := dup.length - 1
  if newStr.head? = some beginregex ∧ newStr.getLast? = some endregex then
    ⟨dup.take last, .osStrcmp, last⟩
  else if newStr.length = 0 then ⟨dup, .osStrmatch, 0⟩
  else if newStr.getLast? = some endregex then ⟨dup.take last, .osStrcmpLast, last⟩
  else if newStr.head? = some beginregex then ⟨dup, .osStrncmp, dup.length⟩
  else ⟨dup, .osMatch, dup.length⟩

/-- The loop that gets the sub patterns; `newStr` is the text from `new_str` to `pt`. -/
def getSubPatterns (newStr : Bytes) : Bytes → List SubPattern
  | [] => [subPattern newStr]
  | c :: pt =>
    if c = bar then subPattern newStr :: getSubPatterns [] pt
    else getSubPatterns (newStr ++ [c]) pt

inductive Failure where
  | patternNull | maxsize | strNull
  deriving DecidableEq

structure Reg where
  patterns : List SubPattern
  negate : Nat
  deriving DecidableEq

/-- `OSMatch_Compile`; `none` is a NULL pattern. -/
def osMatchCompile (pattern : Option Bytes) (caseSensitive : Bool) : Except Failure Reg :=
  match pattern with
  | none => .error .patternNull
  | some pattern =>
    if pattern.length > Regex.osPatternMaxsize then .error .maxsize
    else
      let negate := if pattern.head? = some bang then 1 else 0
      let newStr := if pattern.head? = some bang then pattern.tail else pattern
      let newStr := if caseSensitive then newStr else newStr.map charmap
      .ok ⟨getSubPatterns [] newStr, negate⟩

/-- The loop of `OSMatch_Execute`. -/
def execute (signed : Bool) (str : Bytes) (strLen negate : Nat) : List SubPattern → Nat
  | [] => negate
  | sub :: rest =>
    if sub.matchFp.run signed sub.pattern str strLen sub.size then (if negate = 0 then 1 else 0)
    else execute signed str strLen negate rest

/-- `OSMatch_Execute`; `none` is a NULL string. -/
def osMatchExecute (signed : Bool) (str : Option Bytes) (strLen : Nat) (reg : Reg) :
    Except Failure Nat :=
  match str with
  | none => .error .strNull
  | some str => .ok (execute signed str strLen reg.negate reg.patterns)

/-! ## The meaning of a pattern -/

/-- A text with its capitals made small. -/
def fold (text : Bytes) : Bytes := text.map charmap

/-- The alternative without a leading `^` and a trailing `$`. -/
def body (alternative : Bytes) : Bytes :=
  let text := afterBegin alternative
  if text.getLast? = some endregex then text.dropLast else text

def Matches (alternative str : Bytes) : Prop :=
  alternative = [] ∨
    if alternative.head? = some beginregex then
      if alternative.getLast? = some endregex then fold (body alternative) = fold str
      else fold (body alternative) <+: fold str
    else if alternative.getLast? = some endregex then fold (body alternative) <:+ fold str
    else fold (body alternative) <:+: fold str

def alternatives (pattern : Bytes) : List Bytes :=
  (if pattern.head? = some bang then pattern.tail else pattern).splitOn bar

/-- What a pattern says about a string. -/
def Denotes (pattern str : Bytes) : Prop :=
  if pattern.head? = some bang then ¬ ∃ alternative ∈ alternatives pattern, Matches alternative str
  else ∃ alternative ∈ alternatives pattern, Matches alternative str

instance (alternative str : Bytes) : Decidable (Matches alternative str) := by
  unfold Matches; infer_instance

instance (pattern str : Bytes) : Decidable (Denotes pattern str) := by
  unfold Denotes; infer_instance

/-- The alternatives that the code cannot find: searched for as a substring, with
a byte that a plain `char` makes negative. -/
def Unseen (signed : Bool) (alternative : Bytes) : Prop :=
  signed = true ∧ alternative ≠ [] ∧ alternative.head? ≠ some beginregex ∧
    alternative.getLast? ≠ some endregex ∧ ∃ c ∈ alternative, 128 ≤ c

instance (signed : Bool) (alternative : Bytes) : Decidable (Unseen signed alternative) := by
  unfold Unseen; infer_instance

/-! ## Bytes -/

theorem charmap_toNat (c : UInt8) :
    (charmap c).toNat = if 65 ≤ c.toNat ∧ c.toNat ≤ 90 then c.toNat + 32 else c.toNat := by
  unfold charmap
  simp only [UInt8.le_iff_toNat_le, UInt8.reduceToNat]
  split
  next capital =>
    have sum : (c + 32).toNat = (c.toNat + 32) % 256 := UInt8.toNat_add c 32
    omega
  next => rfl

@[simp] theorem charmap_charmap (c : UInt8) : charmap (charmap c) = charmap c := by
  apply UInt8.toNat_inj.mp
  rw [charmap_toNat (charmap c), charmap_toNat c]
  split_ifs <;> omega

/-- Letters apart, `charmap` neither makes nor changes a byte. -/
theorem charmap_eq_iff {c d : UInt8} (sign : ¬ (65 ≤ d.toNat ∧ d.toNat ≤ 90))
    (small : ¬ (97 ≤ d.toNat ∧ d.toNat ≤ 122)) : charmap c = d ↔ c = d := by
  rw [← UInt8.toNat_inj, ← UInt8.toNat_inj, charmap_toNat]
  split_ifs <;> omega

theorem le_charmap_iff (c : UInt8) : 128 ≤ charmap c ↔ 128 ≤ c := by
  simp only [UInt8.le_iff_toNat_le, charmap_toNat, UInt8.reduceToNat]
  split_ifs <;> omega

theorem sameChar_iff (signed : Bool) (c p : UInt8) :
    sameChar signed c p = true ↔ charmap c = p ∧ ¬ (signed = true ∧ 128 ≤ p) := by
  have small : (charmap c).toNat < 256 := UInt8.toNat_lt _
  have sign : p.toNat < 256 := UInt8.toNat_lt _
  rw [sameChar, beq_iff_eq, promote, ← UInt8.toNat_inj]
  split
  next negative => 
    simp only [negative, and_self, not_true_eq_false, and_false, iff_false]
    omega
  next plain =>
    simp only [plain, not_false_eq_true, and_true]
    omega

@[simp] theorem fold_nil : fold [] = [] := rfl

@[simp] theorem fold_cons (c : UInt8) (text : Bytes) :
    fold (c :: text) = charmap c :: fold text := rfl

@[simp] theorem length_fold (text : Bytes) : (fold text).length = text.length :=
  List.length_map charmap

/-! ## The comparison functions accept what they should -/

theorem compareRest_whole_iff (signed : Bool) (pt str : Bytes) :
    compareRest signed pt str = .whole ↔
      pt <+: fold str ∧ ¬ (signed = true ∧ ∃ p ∈ pt, 128 ≤ p) := by
  fun_induction compareRest signed pt str with
  | case1 str => simp
  | case2 p pt => simp
  | case3 p pt c str same ih =>
    obtain ⟨eq, plain⟩ := (sameChar_iff signed c p).1 same
    rw [ih, fold_cons, eq, cons_prefix_cons]
    simp only [mem_cons, exists_eq_or_imp, true_and, and_or_left, plain, false_or]
  | case4 p pt c str same =>
    rw [sameChar_iff] at same
    rw [fold_cons, cons_prefix_cons]
    simp only [mem_cons, exists_eq_or_imp, reduceCtorEq, false_iff]
    intro ⟨⟨eq, _⟩, plain⟩
    exact same ⟨eq.symm, fun high => plain ⟨high.1, .inl high.2⟩⟩

theorem length_lt_of_ended {signed : Bool} {pt str : Bytes}
    (ended : compareRest signed pt str = .ended) : str.length < pt.length := by
  fun_induction compareRest signed pt str with
  | case1 str => cases ended
  | case2 p pt => simp
  | case3 p pt c str same ih =>
    have shorter := ih ended
    simp only [length_cons]
    omega
  | case4 p pt c str same => cases ended

theorem not_infix_of_length_lt {pattern str : Bytes} (longer : str.length < pattern.length) :
    ¬ pattern <:+: fold str := by
  intro occurs
  have shorter := occurs.length_le
  rw [length_fold] at shorter
  omega

variable {pattern : Bytes}

/-- **The substring search.** With the precomputed number of passes the search
finds a text that a plain `char` can hold exactly when it occurs in the string. -/
theorem look_iff (signed : Bool) (filled : pattern ≠ []) (passes : Nat)
    (str : Bytes) (bound : passes + pattern.length = str.length + 1) :
    look signed pattern passes str = true ↔
      pattern <:+: fold str ∧ ¬ (signed = true ∧ ∃ p ∈ pattern, 128 ≤ p) := by
  induction passes generalizing str with
  | zero =>
    have missing : ¬ pattern <:+: fold str := not_infix_of_length_lt (by omega)
    simp [look, missing]
  | succ passes ih =>
    cases pattern with
    | nil => exact absurd rfl filled
    | cons p pt =>
      cases str with
      | nil =>
        simp only [length_cons, length_nil] at bound
        omega
      | cons c rest =>
        simp only [length_cons] at bound
        have here : (p :: pt <+: fold (c :: rest) ∧ ¬ (signed = true ∧ ∃ q ∈ p :: pt, 128 ≤ q)) ↔
            sameChar signed c p = true ∧ compareRest signed pt rest = .whole := by
          rw [← compareRest_whole_iff, compareRest]
          split
          next same => simp [same]
          next other => simp [other]
        have later := ih rest (by simp only [length_cons]; omega)
        rw [fold_cons, infix_cons_iff, or_and_right, ← fold_cons, here, ← later, look]
        split
        next same =>
          cases compared : compareRest signed pt rest with
          | whole => simp [same]
          | differs => simp
          | ended =>
            have shorter := length_lt_of_ended compared
            omega
        next other => simp [other]

theorem osMatch_iff (signed : Bool) (filled : pattern ≠ []) (str : Bytes) :
    osMatch signed pattern str str.length pattern.length = true ↔
      pattern <:+: fold str ∧ ¬ (signed = true ∧ ∃ p ∈ pattern, 128 ≤ p) := by
  unfold osMatch
  split
  next longer => simp [not_infix_of_length_lt longer]
  next fits => exact look_iff signed filled _ str (by omega)

theorem strcasecmp_iff (a b : Bytes) : strcasecmp a b = true ↔ fold a = fold b := by
  fun_induction strcasecmp a b with
  | case1 => simp
  | case2 a as b bs ih => simp [ih]
  | case3 a b other unequal =>
    cases a with
    | nil =>
      cases b with
      | nil => exact absurd rfl (other rfl)
      | cons b bs => simp
    | cons a as =>
      cases b with
      | nil => simp
      | cons b bs => exact absurd rfl (unequal _ _ _ _ rfl)

theorem strncasecmp_iff (a b : Bytes) : strncasecmp a b a.length = true ↔ fold a <+: fold b := by
  induction a generalizing b with
  | nil => simp [strncasecmp]
  | cons x a ih =>
    cases b with
    | nil => simp [strncasecmp]
    | cons y b => simp [strncasecmp, cons_prefix_cons, ih]

theorem osStrcmpLast_iff (pattern str : Bytes) :
    osStrcmpLast pattern str str.length pattern.length = true ↔ fold pattern <:+ fold str := by
  unfold osStrcmpLast
  split
  next longer =>
    simp only [Bool.false_eq_true, false_iff]
    intro ending
    exact not_infix_of_length_lt (by simpa using longer) ending.isInfix
  next fits =>
    rw [strcasecmp_iff, suffix_iff_eq_drop]
    simp [fold, map_drop]

/-! ## Alternatives -/

theorem head?_fold (text : Bytes) :
    (fold text).head? = some beginregex ↔ text.head? = some beginregex := by
  cases text with
  | nil => simp
  | cons c text => simp [charmap_eq_iff (d := beginregex) (by decide) (by decide)]

theorem getLast?_fold (text : Bytes) :
    (fold text).getLast? = some endregex ↔ text.getLast? = some endregex := by
  rw [fold, getLast?_map]
  cases text.getLast? with
  | none => simp
  | some c => simp [charmap_eq_iff (d := endregex) (by decide) (by decide)]

theorem afterBegin_fold (text : Bytes) : afterBegin (fold text) = fold (afterBegin text) := by
  simp only [afterBegin, head?_fold]
  split
  · simp [fold]
  · rfl

/-- Cutting the `^` off does not change the last byte, unless it is the `^`. -/
theorem getLast?_afterBegin (text : Bytes) :
    (afterBegin text).getLast? = some endregex ↔ text.getLast? = some endregex := by
  unfold afterBegin
  split
  next begins =>
    cases text with
    | nil => simp
    | cons c rest =>
      cases rest with
      | nil =>
        obtain rfl : c = beginregex := by simpa using begins
        decide
      | cons d rest => simp
  next => exact Iff.rfl

theorem body_of_ends {alternative : Bytes} (ends : alternative.getLast? = some endregex) :
    body alternative = (afterBegin alternative).dropLast :=
  if_pos ((getLast?_afterBegin alternative).2 ends)

theorem body_of_open {alternative : Bytes} (ends : alternative.getLast? ≠ some endregex) :
    body alternative = afterBegin alternative :=
  if_neg (mt (getLast?_afterBegin alternative).1 ends)

theorem take_fold (text : Bytes) : (fold text).take (text.length - 1) = fold text.dropLast := by
  rw [← length_fold, ← dropLast_eq_take, fold, fold, map_dropLast]

@[simp] theorem fold_fold (text : Bytes) : fold (fold text) = fold text := by simp [fold]

def SubPattern.run (signed : Bool) (str : Bytes) (sub : SubPattern) : Bool :=
  sub.matchFp.run signed sub.pattern str str.length sub.size

/-- The compiled form of an alternative accepts the strings that the alternative
matches, unless the alternative is one that cannot be found. -/
theorem run_subPattern (signed : Bool) (alternative str : Bytes) :
    (subPattern (fold alternative)).run signed str = true ↔
      Matches alternative str ∧ ¬ Unseen signed alternative := by
  unfold subPattern Matches Unseen
  simp only [head?_fold, getLast?_fold, afterBegin_fold, length_fold, take_fold]
  by_cases empty : alternative = []
  · subst empty
    simp [SubPattern.run, MatchFp.run]
  have filled : alternative.length ≠ 0 := by simpa using empty
  by_cases begins : alternative.head? = some beginregex
  · by_cases ends : alternative.getLast? = some endregex
    · simp [begins, ends, empty, SubPattern.run, MatchFp.run, strcasecmp_iff, body_of_ends]
    · have prefixed := strncasecmp_iff (fold (afterBegin alternative)) str
      rw [length_fold, fold_fold] at prefixed
      simp [begins, ends, empty, SubPattern.run, MatchFp.run, body_of_open, prefixed]
  · by_cases ends : alternative.getLast? = some endregex
    · have ending := osStrcmpLast_iff (fold (afterBegin alternative).dropLast) str
      rw [length_fold, fold_fold, length_dropLast] at ending
      simp [begins, ends, empty, SubPattern.run, MatchFp.run, body_of_ends, ending]
    · have whole : afterBegin alternative = alternative := if_neg begins
      have kept : fold alternative ≠ [] := by simpa [fold] using empty
      have found := osMatch_iff signed kept str
      rw [length_fold] at found
      have high : (∃ p ∈ fold alternative, 128 ≤ p) ↔ ∃ c ∈ alternative, 128 ≤ c := by
        simp [fold, le_charmap_iff]
      rw [high] at found
      simp [begins, ends, empty, SubPattern.run, MatchFp.run, body_of_open, whole, found]

theorem modifyHead_nil_append (texts : List Bytes) : texts.modifyHead ([] ++ ·) = texts := by
  cases texts <;> rfl

theorem getSubPatterns_eq (newStr text : Bytes) :
    getSubPatterns newStr text =
      ((text.splitOn bar).modifyHead (newStr ++ ·)).map subPattern := by
  induction text generalizing newStr with
  | nil => simp [getSubPatterns, List.splitOn]
  | cons c text ih =>
    rw [getSubPatterns, Regex.splitOn_cons]
    split
    next => rw [ih, modifyHead_nil_append]; simp
    next =>
      rw [ih, modifyHead_modifyHead]
      simp [Function.comp_def]

theorem splitOn_fold (text : Bytes) : (fold text).splitOn bar = (text.splitOn bar).map fold := by
  induction text with
  | nil => simp [List.splitOn]
  | cons c text ih =>
    have same : charmap c = bar ↔ c = bar := charmap_eq_iff (by decide) (by decide)
    rw [fold_cons, Regex.splitOn_cons, Regex.splitOn_cons, ih]
    simp only [same]
    split
    next => rfl
    next => cases text.splitOn bar <;> simp

theorem of_compile {reg : Reg} {caseSensitive : Bool}
    (accepted : osMatchCompile (some pattern) caseSensitive = .ok reg) :
    pattern.length ≤ Regex.osPatternMaxsize ∧
      reg.negate = (if pattern.head? = some bang then 1 else 0) ∧
      reg.patterns = (alternatives pattern).map fun alternative =>
        subPattern (if caseSensitive then alternative else fold alternative) := by
  simp only [osMatchCompile] at accepted
  split at accepted
  next => cases accepted
  next short =>
    cases accepted
    refine ⟨by omega, rfl, ?_⟩
    rw [getSubPatterns_eq, modifyHead_nil_append, alternatives]
    cases caseSensitive with
    | true => rfl
    | false =>
      simp only [Bool.false_eq_true, if_false]
      rw [← fold, splitOn_fold, map_map]
      rfl

theorem length_splitOn_le (text : Bytes) : (text.splitOn bar).length ≤ text.length + 1 := by
  induction text with
  | nil => simp [List.splitOn]
  | cons c text ih =>
    rw [Regex.splitOn_cons]
    split
    next => simpa using ih
    next =>
      simp only [length_modifyHead, length_cons]
      omega

theorem execute_eq (signed : Bool) (str : Bytes) (negate : Nat) (patterns : List SubPattern) :
    execute signed str str.length negate patterns =
      if patterns.any (·.run signed str) then (if negate = 0 then 1 else 0) else negate := by
  induction patterns with
  | nil => rfl
  | cons sub rest ih =>
    rw [execute, ih, any_cons]
    cases accepts : sub.run signed str with
    | false => simp [SubPattern.run] at accepts; simp [accepts]
    | true => simp [SubPattern.run] at accepts; simp [accepts]

/-- **Meaning of simple patterns.** For a pattern that is accepted and every string
the code returns 1 exactly when the pattern says so, if and only if each
alternative that occurs in the string and cannot be found stands beside one that
matches and can be found. -/
theorem execute_denotes_iff (signed : Bool) (pattern str : Bytes) (reg : Reg)
    (accepted : osMatchCompile (some pattern) false = .ok reg) :
    (osMatchExecute signed (some str) str.length reg = .ok 1 ↔ Denotes pattern str) ↔
      ∀ alternative ∈ alternatives pattern, Unseen signed alternative → Matches alternative str →
        ∃ other ∈ alternatives pattern, ¬ Unseen signed other ∧ Matches other str := by
  obtain ⟨-, negate, patterns⟩ := of_compile accepted
  have found : reg.patterns.any (·.run signed str) = true ↔
      ∃ other ∈ alternatives pattern, ¬ Unseen signed other ∧ Matches other str := by
    rw [patterns]
    simp [run_subPattern, and_comm]
  have lost : (∃ alternative ∈ alternatives pattern, Matches alternative str) ↔
      (∃ other ∈ alternatives pattern, ¬ Unseen signed other ∧ Matches other str) ∨
        ∃ alternative ∈ alternatives pattern, Unseen signed alternative ∧ Matches alternative str := by
    grind
  have result : osMatchExecute signed (some str) str.length reg = .ok 1 ↔
      (reg.patterns.any (·.run signed str) = true ↔ pattern.head? ≠ some bang) := by
    rw [osMatchExecute, execute_eq, negate]
    split_ifs <;> simp_all
  rw [result, found, Denotes, lost]
  split_ifs with negated <;> grind

theorem execute_denotes_letters :
    osMatchExecute true (some [120, 65, 98]) 3 ⟨[⟨[97, 98], .osMatch, 2⟩], 0⟩ = .ok 1 ↔
      Denotes [97, 98] [120, 65, 98] := by
  exact (execute_denotes_iff true [97, 98] [120, 65, 98] ⟨[⟨[97, 98], .osMatch, 2⟩], 0⟩
    (by decide)).2 (by decide)

/-- A text with a byte above 127 is not found in itself where a plain `char` is
signed. -/
theorem high_byte_unfound :
    osMatchCompile (some [195, 169]) false = .ok ⟨[⟨[195, 169], .osMatch, 2⟩], 0⟩ ∧
      osMatchExecute true (some [195, 169]) 2 ⟨[⟨[195, 169], .osMatch, 2⟩], 0⟩ = .ok 0 ∧
      Denotes [195, 169] [195, 169] := by
  decide

end GuardSarm.OSMatch
