import GuardSarm.Scanner.Rpm

/-!
# The order of RPM versions

A version is a list of tokens: tildes, carets, runs of letters and numbers.
Tokens are ranked, and the end of a list has a rank between a tilde and a
caret. `rpmvercmp` is the lexicographic order of the token lists of the parts
before the first zero byte.

* `nextToken_cases`: what stands behind the separators.
-/

namespace GuardSarm

open List

open Std (TransCmp)

namespace Rpm

inductive Token where
  | tilde
  | caret
  | letters (run : Text)
  | digits (run : Text)
  deriving DecidableEq

/-- The first token of a text and what follows it. -/
def nextToken (text : Text) : Option (Token × Text) :=
  match skipSeparators text with
  | [] => none
  | c :: rest =>
    if c = '~' then some (.tilde, rest)
    else if c = '^' then some (.caret, rest)
    else if c.isDigit then
      some (.digits ((c :: rest).takeWhile Char.isDigit), (c :: rest).dropWhile Char.isDigit)
    else some (.letters ((c :: rest).takeWhile Char.isAlpha), (c :: rest).dropWhile Char.isAlpha)

/-- What stands behind the separators, as the loop looks at it. -/
inductive Next (aux : Text) : Option (Token × Text) → Prop
  | ended (empty : aux = []) : Next aux none
  | tilde (first : aux.head? = some '~') : Next aux (some (.tilde, aux.tail))
  | caret (first : aux.head? = some '^') : Next aux (some (.caret, aux.tail))
  | digits (first : (aux.headD nul).isDigit = true) (present : aux ≠ [])
      (other : aux.head? ≠ some '~' ∧ aux.head? ≠ some '^')
      (run : aux.takeWhile Char.isDigit ≠ []) (none : aux.takeWhile Char.isAlpha = []) :
      Next aux (some (.digits (aux.takeWhile Char.isDigit), aux.dropWhile Char.isDigit))
  | letters (first : (aux.headD nul).isDigit = false) (present : aux ≠ [])
      (other : aux.head? ≠ some '~' ∧ aux.head? ≠ some '^')
      (run : aux.takeWhile Char.isAlpha ≠ []) (none : aux.takeWhile Char.isDigit = []) :
      Next aux (some (.letters (aux.takeWhile Char.isAlpha), aux.dropWhile Char.isAlpha))

theorem nextToken_cases (text : Text) : Next (skipSeparators text) (nextToken text) := by
  have stopped := head?_dropWhile_not (fun c => !isAlnum c && c != '~' && c != '^') text
  rw [← skipSeparators] at stopped
  rw [nextToken]
  cases aux : skipSeparators text with
  | nil => exact .ended rfl
  | cons c rest =>
    rw [aux] at stopped
    by_cases tilde : c = '~'
    · subst tilde
      exact .tilde rfl
    · by_cases caret : c = '^'
      · subst caret
        exact .caret rfl
      · by_cases digit : c.isDigit = true
        · have alpha := not_isAlpha_of_isDigit digit
          simp only [tilde, caret, digit, if_true, if_false]
          exact .digits digit (by simp) (by simp [tilde, caret]) (by simp [digit]) (by simp [alpha])
        · have alpha : c.isAlpha = true := by simpa [isAlnum, tilde, caret, digit] using stopped
          simp only [tilde, caret, digit, if_false, Bool.false_eq_true]
          exact .letters (by simpa using digit) (by simp) (by simp [tilde, caret]) (by simp [alpha])
            (by simp [digit])

theorem nextToken_shorter {text rest : Text} {token : Token}
    (next : nextToken text = some (token, rest)) : rest.length < text.length := by
  have shorter := skipSeparators_length text
  have step := nextToken_cases text
  rw [next] at step
  have less : rest.length < (skipSeparators text).length := by
    cases step with
    | tilde first => exact tail_shorter first
    | caret first => exact tail_shorter first
    | digits _ _ _ run _ | letters _ _ _ run _ => exact dropWhile_shorter run
  omega

/-- The tokens of a version. -/
def tokens (text : Text) : List Token :=
  match _next : nextToken text with
  | none => []
  | some (token, rest) => token :: tokens rest
termination_by text.length
decreasing_by exact nextToken_shorter _next

/-- The rank of a token or of the end of a list, and the data that tokens of one rank differ by. -/
def Token.key : Option Token → Nat × Text × Nat
  | some .tilde => (0, [], 0)
  | none => (1, [], 0)
  | some .caret => (2, [], 0)
  | some (.letters run) => (3, run, 0)
  | some (.digits run) => (4, [], digitsValue run)

/-- Tokens by their ranks, letters as strings and digits as numbers. -/
def compareToken (left right : Option Token) : Ordering :=
  (compare (Token.key left).1 (Token.key right).1).then
    ((strcmp (Token.key left).2.1 (Token.key right).2.1).then
      (compare (Token.key left).2.2 (Token.key right).2.2))

instance : TransCmp compareToken := by
  have rank := transCmp_map (compare : Nat → Nat → Ordering) fun token => (Token.key token).1
  have run := transCmp_map strcmp fun token => (Token.key token).2.1
  have number := transCmp_map (compare : Nat → Nat → Ordering) fun token => (Token.key token).2.2
  exact inferInstanceAs (TransCmp (compareLex
    (fun a b => compare (Token.key a).1 (Token.key b).1)
    (compareLex (fun a b => strcmp (Token.key a).2.1 (Token.key b).2.1)
      (fun a b => compare (Token.key a).2.2 (Token.key b).2.2))))

/-- The lexicographic order of the token lists. -/
def tokenOrder (left right : Text) : Ordering :=
  comparePadded compareToken none ((tokens left).map some) ((tokens right).map some)

instance : TransCmp tokenOrder :=
  transCmp_map (comparePadded compareToken none) fun text => (tokens text).map some

theorem tokens_eq (text : Text) : tokens text =
    match nextToken text with
    | none => []
    | some (token, rest) => token :: tokens rest := by
  rw [tokens]
  split <;> simp only [*]

/-- The tokens behind the first one; none behind the end. -/
def behind (text : Text) : Text := ((nextToken text).map Prod.snd).getD []

theorem tokenOrder_step (left right : Text) : tokenOrder left right =
      (compareToken ((nextToken left).map Prod.fst) ((nextToken right).map Prod.fst)).then
        (tokenOrder (behind left) (behind right)) := by
  have heads (text : Text) :
      ((tokens text).map some).headD none = (nextToken text).map Prod.fst := by
    rw [tokens_eq]
    cases nextToken text <;> rfl
  have tails (text : Text) : ((tokens text).map some).tail = (tokens (behind text)).map some := by
    rw [tokens_eq, behind]
    cases nextToken text with
    | none => rw [Option.map_none, Option.getD_none, tokens_eq]; rfl
    | some pair => rfl
  rw [tokenOrder, comparePadded_step, heads, heads, tails, tails]
  rfl

def sign (result : Int) : Ordering := compare result 0

@[simp] theorem sign_rightIsNewer : sign rightIsNewer = .lt := rfl
@[simp] theorem sign_leftEqRight : sign leftEqRight = .eq := rfl
@[simp] theorem sign_leftIsNewer : sign leftIsNewer = .gt := rfl

variable {left right : Option Token}

theorem compareToken_lt
    (less : (Token.key left).1 < (Token.key right).1) : compareToken left right = .lt := by
  rw [compareToken, Nat.compare_eq_lt.mpr less]
  rfl

theorem compareToken_gt
    (greater : (Token.key right).1 < (Token.key left).1) : compareToken left right = .gt := by
  rw [compareToken, Nat.compare_eq_gt.mpr greater]
  rfl

theorem compareToken_letters (left right : Text) :
    compareToken (some (.letters left)) (some (.letters right)) = strcmp left right := by
  simp [compareToken, Token.key]

theorem compareToken_digits (left right : Text) :
    compareToken (some (.digits left)) (some (.digits right)) =
      compare (digitsValue left) (digitsValue right) := by
  simp [compareToken, Token.key, strcmp, List.compareLex]

theorem allDigits_takeWhile (text : Text) : AllDigits (text.takeWhile Char.isDigit) :=
  fun _ member => List.mem_takeWhile_imp member

theorem sign_strcmp (left right : Text) :
    sign (match strcmp left right with
      | .lt => rightIsNewer
      | .eq => leftEqRight
      | .gt => leftIsNewer) = strcmp left right := by
  cases strcmp left right <;> rfl

theorem compareSegments_letters (left right : Text) :
    sign (compareSegments false left right) = strcmp left right := sign_strcmp left right

theorem compareSegments_digits {left right : Text} (allLeft : AllDigits left)
    (allRight : AllDigits right) :
    sign (compareSegments true left right) = compare (digitsValue left) (digitsValue right) := by
  rw [← digitsValue_dropZeros left, ← digitsValue_dropZeros right,
    compare_digits (fun _ member => allLeft _ ((dropWhile_suffix _).subset member))
      (fun _ member => allRight _ ((dropWhile_suffix _).subset member))
      (head?_dropZeros _) (head?_dropZeros _)]
  simp only [compareSegments, if_true, Bool.true_and, decide_eq_true_eq]
  rcases Nat.lt_trichotomy (left.dropWhile (· == '0')).length
    (right.dropWhile (· == '0')).length with less | same | greater
  · rw [if_neg (by omega), if_pos less, Nat.compare_eq_lt.mpr less]
    rfl
  · rw [if_neg (by omega), if_neg (by omega), Nat.compare_eq_eq.mpr same, Ordering.eq_then]
    exact sign_strcmp _ _
  · rw [if_pos greater, Nat.compare_eq_gt.mpr greater]
    rfl

/-- What one pass says of the next token on each side, the end of a text being one of them. A pass
that goes on has found equal tokens. -/
inductive Passed (left right : Option (Token × Text)) : Except Int (Text × Text) → Prop
  | decided {result : Int}
      (decides : compareToken (left.map Prod.fst) (right.map Prod.fst) = sign result)
      (ends : sign result = .eq → left = none ∧ right = none) : Passed left right (.error result)
  | equal {l r : Text} (equal : compareToken (left.map Prod.fst) (right.map Prod.fst) = .eq)
      (restLeft : left.map Prod.snd = some l) (restRight : right.map Prod.snd = some r) :
      Passed left right (.ok (l, r))

theorem passSegment_order (isNumber : Bool) {inSegment : Char → Bool} {auxLeft auxRight : Text}
    (runLeft : auxLeft.takeWhile inSegment ≠ []) (runRight : auxRight.takeWhile inSegment ≠ [])
    {left right : Token} (decides : compareToken (some left) (some right) = sign
      (compareSegments isNumber (auxLeft.takeWhile inSegment) (auxRight.takeWhile inSegment))) :
    Passed (some (left, auxLeft.dropWhile inSegment)) (some (right, auxRight.dropWhile inSegment))
      (passSegment isNumber inSegment auxLeft auxRight) := by
  simp only [passSegment, if_neg runLeft, if_neg runRight]
  by_cases differ : compareSegments isNumber (auxLeft.takeWhile inSegment)
      (auxRight.takeWhile inSegment) ≠ 0
  · rw [if_pos differ]
    exact .decided decides fun equal => absurd (compare_eq_iff_eq.mp equal) differ
  · rw [if_neg differ]
    exact .equal (decides.trans (compare_eq_iff_eq.mpr (not_not.mp differ))) rfl rfl

theorem pass_order {auxLeft auxRight : Text} {left right : Option (Token × Text)}
    (nextLeft : Next auxLeft left) (nextRight : Next auxRight right) :
    Passed left right (pass auxLeft auxRight) := by
  have lower (passed : pass auxLeft auxRight = .error rightIsNewer)
      (ranks : (Token.key (left.map Prod.fst)).1 < (Token.key (right.map Prod.fst)).1) :
      Passed left right (pass auxLeft auxRight) := by
    rw [passed]
    exact .decided (compareToken_lt ranks) (by simp)
  have higher (passed : pass auxLeft auxRight = .error leftIsNewer)
      (ranks : (Token.key (right.map Prod.fst)).1 < (Token.key (left.map Prod.fst)).1) :
      Passed left right (pass auxLeft auxRight) := by
    rw [passed]
    exact .decided (compareToken_gt ranks) (by simp)
  have present {aux : Text} {c : Char} (first : aux.head? = some c) : aux ≠ [] := by
    rintro rfl
    cases first
  have segments (someLeft : auxLeft ≠ []) (some : auxRight ≠ [])
      (otherLeft : auxLeft.head? ≠ Option.some '~' ∧ auxLeft.head? ≠ Option.some '^')
      (other : auxRight.head? ≠ Option.some '~' ∧ auxRight.head? ≠ Option.some '^') :
      pass auxLeft auxRight = passSegments auxLeft auxRight := by
    simp [pass, otherLeft, other, someLeft, some]
  cases nextLeft with
  | ended empty =>
    subst empty
    cases nextRight with
    | ended empty =>
      subst empty
      exact .decided rfl fun _ => ⟨rfl, rfl⟩
    | tilde first => exact higher (by simp [pass, first]) (by simp [Token.key])
    | caret first => exact lower (by simp [pass, first]) (by simp [Token.key])
    | digits _ some other | letters _ some other =>
      exact lower (by simp [pass, other, some]) (by simp [Token.key])
  | tilde firstLeft =>
    cases nextRight with
    | ended empty =>
      subst empty
      exact lower (by simp [pass, firstLeft]) (by simp [Token.key])
    | tilde first =>
      rw [show pass auxLeft auxRight = .ok (auxLeft.tail, auxRight.tail) by
        simp [pass, firstLeft, first]]
      exact .equal rfl rfl rfl
    | caret first => exact lower (by simp [pass, firstLeft, first]) (by simp [Token.key])
    | digits _ some other | letters _ some other =>
      exact lower (by simp [pass, firstLeft, other]) (by simp [Token.key])
  | caret firstLeft =>
    have someLeft := present firstLeft
    cases nextRight with
    | ended empty =>
      subst empty
      exact higher (by simp [pass, firstLeft, someLeft]) (by simp [Token.key])
    | tilde first => exact higher (by simp [pass, firstLeft, first]) (by simp [Token.key])
    | caret first =>
      rw [show pass auxLeft auxRight = .ok (auxLeft.tail, auxRight.tail) by
        simp [pass, firstLeft, first, someLeft, present first]]
      exact .equal rfl rfl rfl
    | digits _ some other | letters _ some other =>
      exact lower (by simp [pass, firstLeft, other, someLeft, some]) (by simp [Token.key])
  | digits digitLeft someLeft otherLeft runLeft noneLeft =>
    cases nextRight with
    | ended empty =>
      subst empty
      exact higher (by simp [pass, otherLeft, someLeft]) (by simp [Token.key])
    | tilde first => exact higher (by simp [pass, otherLeft, first]) (by simp [Token.key])
    | caret first =>
      exact higher (by simp [pass, otherLeft, first, someLeft, present first]) (by simp [Token.key])
    | digits _ some other run =>
      rw [segments someLeft some otherLeft other, passSegments, if_pos digitLeft]
      exact passSegment_order true runLeft run ((compareToken_digits _ _).trans
        (compareSegments_digits (allDigits_takeWhile _) (allDigits_takeWhile _)).symm)
    | letters _ some other _ none =>
      refine higher ?_ (by simp [Token.key])
      rw [segments someLeft some otherLeft other, passSegments, if_pos digitLeft]
      simp [passSegment, runLeft, none]
  | letters digitLeft someLeft otherLeft runLeft noneLeft =>
    cases nextRight with
    | ended empty =>
      subst empty
      exact higher (by simp [pass, otherLeft, someLeft]) (by simp [Token.key])
    | tilde first => exact higher (by simp [pass, otherLeft, first]) (by simp [Token.key])
    | caret first =>
      exact higher (by simp [pass, otherLeft, first, someLeft, present first]) (by simp [Token.key])
    | digits _ some other _ none =>
      refine lower ?_ (by simp [Token.key])
      rw [segments someLeft some otherLeft other, passSegments, if_neg (by rw [digitLeft]; decide)]
      simp [passSegment, runLeft, none]
    | letters _ some other run =>
      rw [segments someLeft some otherLeft other, passSegments, if_neg (by rw [digitLeft]; decide)]
      exact passSegment_order false runLeft run
        ((compareToken_letters _ _).trans (compareSegments_letters _ _).symm)

/-- The loop compares the token lists: by induction on its passes. -/
theorem compareFrom_order (left right : Text) :
    sign (compareFrom left right) = tokenOrder left right := by
  have ended : tokenOrder [] [] = .eq := Std.ReflCmp.compare_self
  fun_induction compareFrom left right with
  | case1 left right empty =>
    obtain ⟨rfl, rfl⟩ := empty
    exact ended.symm
  | case2 left right some result passed =>
    have order := pass_order (nextToken_cases left) (nextToken_cases right)
    rw [passed] at order
    cases order with
    | decided decides ends =>
      rw [tokenOrder_step, decides]
      cases order : sign result with
      | lt => rfl
      | gt => rfl
      | eq =>
        obtain ⟨noneLeft, noneRight⟩ := ends order
        rw [behind, behind, noneLeft, noneRight]
        exact ended.symm
  | case3 left right some l r passed ih =>
    have order := pass_order (nextToken_cases left) (nextToken_cases right)
    rw [passed] at order
    cases order with
    | equal equal restLeft restRight =>
      rw [ih, tokenOrder_step left, equal, Ordering.eq_then, behind, behind, restLeft, restRight]
      rfl

theorem rpmvercmp_order (left right : Text) :
    sign (rpmvercmp left right) = tokenOrder (cString left) (cString right) := by
  rw [rpmvercmp]
  split
  · rename_i same
    rw [same]
    exact (Std.ReflCmp.compare_self : tokenOrder (cString right) (cString right) = .eq).symm
  · exact compareFrom_order _ _

/-- A number without its leading zeros. -/
def Token.stripped : Token → Token
  | .digits run => .digits (run.dropWhile (· == '0'))
  | token => token

def Token.Proper : Token → Prop
  | .digits run => AllDigits run
  | _ => True

theorem tokens_proper (text : Text) : ∀ token ∈ tokens text, token.Proper := by
  fun_induction tokens text with
  | case1 => simp
  | case2 text token rest next ih =>
    intro other member
    rcases mem_cons.mp member with rfl | later
    · have step := nextToken_cases text
      rw [next] at step
      cases step with
      | tilde | caret | letters => trivial
      | digits => exact allDigits_takeWhile _
    · exact ih other later

theorem compareToken_eq_iff_key (left right : Option Token) :
    compareToken left right = .eq ↔ Token.key left = Token.key right := by
  rw [compareToken, Ordering.then_eq_eq, Ordering.then_eq_eq, Nat.compare_eq_eq, strcmp_eq_iff,
    Nat.compare_eq_eq, Prod.ext_iff, Prod.ext_iff]

theorem digitsValue_eq_iff {left right : Text} (allLeft : AllDigits left)
    (allRight : AllDigits right) :
    digitsValue left = digitsValue right ↔
      left.dropWhile (· == '0') = right.dropWhile (· == '0') := by
  rw [← digitsValue_dropZeros left, ← digitsValue_dropZeros right, ← Nat.compare_eq_eq,
    compare_digits (fun _ member => allLeft _ ((dropWhile_suffix _).subset member))
      (fun _ member => allRight _ ((dropWhile_suffix _).subset member))
      (head?_dropZeros _) (head?_dropZeros _), Ordering.then_eq_eq, strcmp_eq_iff,
    Nat.compare_eq_eq]
  exact ⟨fun same => same.2, fun same => ⟨congrArg List.length same, same⟩⟩

theorem compareToken_eq_iff (properLeft : ∀ t ∈ left, t.Proper)
    (properRight : ∀ t ∈ right, t.Proper) :
    compareToken left right = .eq ↔ left.map Token.stripped = right.map Token.stripped := by
  rw [compareToken_eq_iff_key]
  cases left with
  | none =>
    cases right with
    | none => simp
    | some token => cases token <;> simp [Token.key]
  | some first =>
    cases right with
    | none => cases first <;> simp [Token.key]
    | some second =>
      cases first <;> cases second <;> simp [Token.key, Token.stripped]
      exact digitsValue_eq_iff (properLeft _ rfl) (properRight _ rfl)

/-- Two versions are equal if their tokens are, up to leading zeros. -/
theorem tokenOrder_eq_iff (left right : Text) : tokenOrder left right = .eq ↔
      (tokens left).map Token.stripped = (tokens right).map Token.stripped := by
  have proper (text : Text) (i : Nat) : ∀ t ∈ ((tokens text).map some).getD i none, t.Proper := by
    intro token present
    cases found : (tokens text)[i]? with
    | none => simp [found] at present
    | some other =>
      obtain rfl : other = token := by simpa [found] using present
      exact tokens_proper text _ (mem_of_getElem? found)
  have stripped (text : Text) (i : Nat) : (((tokens text).map some).getD i none).map Token.stripped =
      ((tokens text).map Token.stripped)[i]? := by
    rw [getD_eq_getElem?_getD, getElem?_map, getElem?_map]
    cases (tokens text)[i]? <;> rfl
  rw [tokenOrder, comparePadded_eq_iff]
  constructor
  · intro every
    apply ext_getElem?
    intro i
    rw [← stripped, ← stripped]
    exact (compareToken_eq_iff (proper left i) (proper right i)).mp (every i)
  · intro same i
    rw [compareToken_eq_iff (proper left i) (proper right i), stripped, stripped, same]

/-- The epoch, the version and the release decide in turn. -/
theorem compareRpmVersion_order (left right : Rpm) : sign (compareRpmVersion left right) =
      (compare left.epoch right.epoch).then ((sign (rpmvercmp left.version right.version)).then
          (sign (rpmvercmp left.release right.release))) := by
  rw [compareRpmVersion]
  rcases Nat.lt_trichotomy left.epoch right.epoch with less | same | greater
  · rw [if_pos (by omega), if_pos less, Nat.compare_eq_lt.mpr less]
    rfl
  · rw [if_neg (not_not.mpr same), Nat.compare_eq_eq.mpr same, Ordering.eq_then]
    dsimp only
    split
    · rename_i differ
      exact (compare_then differ _).symm
    · rename_i equal
      rw [not_not.mp equal, sign_leftEqRight, Ordering.eq_then]
  · rw [if_pos (by omega), if_neg (by omega), Nat.compare_eq_gt.mpr greater]
    rfl

/-- **RPM versions are ordered by their token lists**, up to the first zero byte. -/
theorem rpm_token_order :
    (∀ left right, sign (rpmvercmp left right) = tokenOrder (cString left) (cString right)) ∧
    (∀ left right, rpmvercmp left right = leftEqRight ↔
      (tokens (cString left)).map Token.stripped = (tokens (cString right)).map Token.stripped) ∧
    (∀ left right, rpmvercmp left left = leftEqRight ∧
      sign (rpmvercmp left right) = (sign (rpmvercmp right left)).swap) ∧
    (∀ left middle right, rpmvercmp left middle ≤ 0 → rpmvercmp middle right ≤ 0 →
      rpmvercmp left right ≤ 0) ∧ ∀ left right : Rpm, sign (compareRpmVersion left right) =
      (compare left.epoch right.epoch).then
        ((tokenOrder (cString left.version) (cString right.version)).then
          (tokenOrder (cString left.release) (cString right.release))) := by
  have le_iff (i : Int) : i ≤ 0 ↔ (sign i).isLE = true := by
    rw [sign, ← compare_le_iff_le, Ordering.isLE_iff_ne_gt]
  have zero_iff (i : Int) : i = leftEqRight ↔ sign i = .eq := compare_eq_iff_eq.symm
  refine ⟨rpmvercmp_order, fun left right => ?_, fun left right => ⟨?_, ?_⟩,
    fun left middle right low high => ?_, fun left right => ?_⟩
  · rw [zero_iff, rpmvercmp_order, tokenOrder_eq_iff]
  · rw [zero_iff, rpmvercmp_order]
    exact Std.ReflCmp.compare_self
  · rw [rpmvercmp_order, rpmvercmp_order]
    exact Std.OrientedCmp.eq_swap
  · rw [le_iff, rpmvercmp_order] at low high ⊢
    exact TransCmp.isLE_trans low high
  · rw [compareRpmVersion_order, rpmvercmp_order, rpmvercmp_order]

theorem rpm_token_order_caret : sign (rpmvercmp "1.0^git1".toList "1.00".toList) =
      tokenOrder (cString "1.0^git1".toList) (cString "1.00".toList) ∧
    rpmvercmp "1.0~rc1".toList "1.0.1".toList ≤ 0 :=
  ⟨rpm_token_order.1 _ _, rpm_token_order.2.2.2.1 _ "1.00".toList _ (by decide +kernel)
    (by decide +kernel)⟩

/-- What follows a zero byte is not compared. -/
theorem zero_byte_ends_version : rpmvercmp ['1', nul, '2'] ['1', nul, '3'] = leftEqRight ∧
    tokenOrder ['1', nul, '2'] ['1', nul, '3'] = .lt ∧
    tokens ['1', nul, '2'] = [.digits ['1'], .digits ['2']] := by
  decide +kernel

end Rpm

end GuardSarm
