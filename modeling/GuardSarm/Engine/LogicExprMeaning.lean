import GuardSarm.Engine.LogicExprParse

/-!
# What the evaluator computes

The tree that is built for an expression (`built`) puts a `NOT` that directly
follows another one where it does not belong: it is left below the operand
(`lead`), and negates whatever lies there, or nothing. `excess` counts these
down to the next term or binary operator, and an expression is `Straight` when
the count is even for the expression and for every operand.
-/

namespace GuardSarm.LogicExpr

open List

open Infix

variable {Term Event : Type}

def Expression.value (v : Term → Bool) : Expression Term → Bool
  | .term t => v t
  | .unary _ left => !left.value v
  | .binary op _ left right => op.apply (left.value v) (right.value v)

section evaluator

variable {termBuilder : Term → Event → Bool} {event : Event}

/-- The loop over the operators of a tree pushes its value. The last result is that value as well,
unless the tree is a term. -/
theorem foldlM_operators (e : Expression Term) (operands : List Bool) (result : Bool) :
    ∃ result', (operators termBuilder e).reverse.foldlM (evaluateStep false event)
        (operands, result) = some (e.value (termBuilder · event) :: operands, result') ∧
      ((operators termBuilder e).length ≠ 1 → result' = e.value (termBuilder · event)) := by
  induction e generalizing operands result with
  | term t => exact ⟨result, rfl, fun other => absurd rfl other⟩
  | unary m left ih =>
    obtain ⟨_, run, -⟩ := ih operands result
    refine ⟨_, ?_, fun _ => rfl⟩
    rw [operators, reverse_cons, foldlM_append, run]
    rfl
  | binary op m left right ihl ihr =>
    obtain ⟨result₁, run₁, -⟩ := ihr operands result
    obtain ⟨_, run₂, -⟩ := ihl (right.value (termBuilder · event) :: operands) result₁
    refine ⟨_, ?_, fun _ => rfl⟩
    rw [operators, reverse_append, reverse_cons, foldlM_append, run₁]
    change List.foldlM _ _ _ = _
    rw [foldlM_append, run₂]
    rfl

theorem operators_ne_nil (e : Expression Term) : operators termBuilder e ≠ [] := by
  cases e with
  | term t | unary m left | binary op m left right => exact cons_ne_nil _ _

theorem evaluate_operators (e : Expression Term) :
    evaluate (operators termBuilder e) event = some (e.value (termBuilder · event)) := by
  have several (other : (operators termBuilder e).length ≠ 1) :
      evaluate (operators termBuilder e) event = some (e.value (termBuilder · event)) := by
    obtain ⟨result, run, same⟩ := @foldlM_operators _ _ termBuilder event e [] false
    rw [evaluate, beq_false_of_ne other, run, same other]
    rfl
  cases e with
  | term t => rfl
  | unary m left =>
    have operand := length_pos_iff.mpr (@operators_ne_nil _ _ termBuilder left)
    exact several (by rw [operators, length_cons]; omega)
  | binary op m left right =>
    have operand := length_pos_iff.mpr (@operators_ne_nil _ _ termBuilder left)
    exact several (by rw [operators, length_append, length_cons]; omega)

end evaluator

section built

/-- The marks of the operators that the output has below the expression. -/
def lead : Expr Term → List Nat
  | .term _ => []
  | .unary m (.unary m' e) => lead (.unary m' e) ++ [m]
  | .unary _ e => lead e
  | .binary _ _ l _ => lead l
  | .paren _ _ e => lead e

/-- The tree that is built for the expression. -/
def built : Expr Term → Expression Term
  | .term t => .term t
  | .unary _ (.unary m' e) => built (.unary m' e)
  | .unary m e => .unary m (built e)
  | .binary op m l r => .binary op m (built r) ((lead r).foldr .unary (built l))
  | .paren _ _ e => built e

variable {stack : List (Token Term)}

theorem created_foldr {e : Expression Term} {rest : List (Token Term)}
    (h : created stack = .ok (e, rest)) (marks : List Nat) :
    created (marks.map .unary ++ stack) = .ok (marks.foldr .unary e, rest) := by
  induction marks with
  | nil => exact h
  | cons m marks ih =>
    rw [map_cons, cons_append, created_unary, ih]
    rfl

theorem created_shunted (e : Expr Term) (stack : List (Token Term)) :
    created (shunted e ++ stack) = .ok (built e, (lead e).map .unary ++ stack) := by
  fun_induction shunted e generalizing stack with
  | case1 t => exact created_term t
  | case2 m m' e ih => simpa [built, lead] using ih (.unary m :: stack)
  | case3 m e other ih =>
    rw [cons_append, created_unary, ih]
    rw [built, lead]
    · rfl
    · exact other
    · exact other
  | case4 op m l r ihr ihl =>
    rw [cons_append, append_assoc, created_binary, ihr]
    change (created ((lead r).map .unary ++ (shunted l ++ stack)) >>= _) = _
    rw [created_foldr (ihl stack)]
    rfl
  | case5 m m' e ih => exact ih stack

theorem parse_tokens {e : Expr Term} (grouped : e.Grouped BinaryOp.precedence) :
    parse e.tokens = .ok (built e) := by
  have made := created_shunted e []
  rw [append_nil] at made
  rw [parse_eq, infixToPostfix_tokens grouped]
  change (created (shunted e) >>= _) = _
  rw [made]
  rfl

end built

section straight

/-- How many operators directly follow another one, down to a term or a binary operator. -/
def excess : Expr Term → Nat
  | .term _ => 0
  | .unary _ (.unary m' e) => excess (.unary m' e) + 1
  | .unary _ e => excess e
  | .binary .. => 0
  | .paren _ _ e => excess e

/-- The excess of every operand of a binary operator is even. -/
def StraightOperands : Expr Term → Prop
  | .term _ => True
  | .unary _ e => StraightOperands e
  | .binary _ _ l r => ((excess l).bodd = false ∧ StraightOperands l) ∧
      (excess r).bodd = false ∧ StraightOperands r
  | .paren _ _ e => StraightOperands e

/-- The excess of the expression and of every operand is even. -/
def Straight (e : Expr Term) : Prop := (excess e).bodd = false ∧ StraightOperands e

variable {e : Expr Term} {v : Term → Bool}

theorem bodd_lead (h : StraightOperands e) : (lead e).length.bodd = (excess e).bodd := by
  fun_induction lead e with
  | case1 t => rfl
  | case2 m m' e ih => simp [excess, ih h]
  | case3 m e other ih =>
    rw [excess]
    · exact ih h
    · exact other
  | case4 op m l r ih =>
    rw [ih h.1.2, h.1.1, excess]
    rfl
  | case5 m m' e ih => exact ih h

theorem apply_comm (op : BinaryOp) (a b : Bool) : op.apply a b = op.apply b a := by
  cases op with
  | or => exact Bool.or_comm a b
  | and => exact Bool.and_comm a b

theorem value_foldr (marks : List Nat) (e : Expression Term) :
    (marks.foldr .unary e).value v = xor marks.length.bodd (e.value v) := by
  induction marks with
  | nil => simp
  | cons m marks ih => simp [Expression.value, ih]

/-- The tree of an expression with straight operands has its value up to the excess. -/
theorem value_built (h : StraightOperands e) :
    (built e).value v = xor (excess e).bodd (e.value BinaryOp.apply v) := by
  fun_induction built e with
  | case1 t => simp [excess, Expression.value, Infix.Expr.value]
  | case2 m m' e ih => simp [excess, Infix.Expr.value, ih h]
  | case3 m e other ih =>
    rw [Expression.value, ih h, excess, Infix.Expr.value]
    · simp
    · exact other
  | case4 op m l r ihr ihl =>
    obtain ⟨⟨evenLeft, left⟩, evenRight, right⟩ := h
    have even := (bodd_lead right).trans evenRight
    rw [Expression.value, value_foldr, ihl left, ihr right, evenLeft, evenRight, even, excess,
      Infix.Expr.value, apply_comm]
    simp
  | case5 m m' e ih =>
    rw [excess, Infix.Expr.value]
    exact ih h

end straight

section independent

/-- Expressions with truth values for terms that have the given shape. -/
abbrev Labelled (shape : Expr Unit) := {x : Expr Bool // x.map (fun _ => ()) = shape}

variable {Term' : Type} {e : Expr Term}

@[simp]
theorem excess_map (f : Term → Term') (e : Expr Term) : excess (e.map f) = excess e := by
  fun_induction excess e with
  | case1 t => rfl
  | case2 m m' e ih => simpa [Infix.Expr.map, excess] using ih
  | case3 m e other ih =>
    cases e with
    | unary m' e => exact (other m' e rfl).elim
    | paren m₁ m₂ e => simpa [Infix.Expr.map, excess] using ih
    | _ => simp [Infix.Expr.map, excess]
  | case4 => rfl
  | case5 m m' e ih => simpa [Infix.Expr.map, excess] using ih

@[simp]
theorem lead_map (f : Term → Term') (e : Expr Term) : lead (e.map f) = lead e := by
  fun_induction lead e with
  | case1 t => rfl
  | case2 m m' e ih => simpa [Infix.Expr.map, lead] using ih
  | case3 m e other ih =>
    cases e with
    | unary m' e => exact (other m' e rfl).elim
    | term t => simp [Infix.Expr.map, lead]
    | _ => simpa [Infix.Expr.map, lead] using ih
  | case4 op m l r ih | case5 m m' e ih => simpa [Infix.Expr.map, lead] using ih

@[simp]
theorem straightOperands_map (f : Term → Term') (e : Expr Term) :
    StraightOperands (e.map f) ↔ StraightOperands e := by
  induction e with
  | term t => rfl
  | unary m e ih => exact ih
  | binary op m l r ihl ihr => simp [Infix.Expr.map, StraightOperands, ihl, ihr]
  | paren m m' e ih => exact ih

/-- Two operands that vary independently can be told from the result of the operator. -/
theorem apply_independent {α β : Type} {op : BinaryOp} {s : Bool} {f f' : α → Bool}
    {g g' : β → Bool} (hf : f.Surjective) (hg : g.Surjective) (hg' : g'.Surjective)
    (h : ∀ a b, xor s (op.apply (g' b) (f' a)) = op.apply (f a) (g b)) :
    s = false ∧ (∀ a, f' a = f a) ∧ ∀ b, g' b = g b := by
  -- `zero` decides the operator alone, `one` leaves it to the other operand
  obtain ⟨zero, one, absorbs, neutral, both⟩ : ∃ zero one : Bool,
      (∀ x, op.apply zero x = zero ∧ op.apply x zero = zero) ∧
      (∀ x, op.apply one x = x ∧ op.apply x one = x) ∧
      ∀ x y, op.apply x y = one → x = one ∧ y = one := by
    cases op with
    | or => exact ⟨true, false, by decide, by decide, by decide⟩
    | and => exact ⟨false, true, by decide, by decide, by decide⟩
  obtain ⟨a₀, ha₀⟩ := hf zero
  obtain ⟨b₀, hb₀⟩ := hg' zero
  have clean : s = false := by
    have at₀ := h a₀ b₀
    rw [ha₀, hb₀, (absorbs _).1, (absorbs _).1] at at₀
    cases s with
    | false => rfl
    | true => cases zero <;> cases at₀
  subst clean
  simp only [Bool.false_xor] at h
  obtain ⟨a₁, ha₁⟩ := hf one
  obtain ⟨b₁, hb₁⟩ := hg one
  obtain ⟨right, left⟩ := both _ _ ((h a₁ b₁).trans (by rw [ha₁, hb₁, (neutral _).1]))
  refine ⟨rfl, fun a => ?_, fun b => ?_⟩
  · have at₁ := h a b₁
    rwa [right, hb₁, (neutral _).1, (neutral _).2] at at₁
  · have at₁ := h a₁ b
    rwa [left, ha₁, (neutral _).1, (neutral _).2] at at₁

theorem apply_self (op : BinaryOp) (b : Bool) : op.apply b b = b := by
  cases op with
  | or => exact Bool.or_self b
  | and => exact Bool.and_self b

theorem surjective_value (shape : Expr Unit) :
    Function.Surjective fun x : Labelled shape => x.1.value BinaryOp.apply id := by
  induction shape with
  | term t => exact fun b => ⟨⟨.term b, rfl⟩, rfl⟩
  | unary m e ih =>
    intro b
    obtain ⟨⟨x, rfl⟩, value⟩ := ih !b
    exact ⟨⟨.unary m x, rfl⟩, by simpa [Infix.Expr.value] using congrArg not value⟩
  | binary op m l r ihl ihr =>
    intro b
    obtain ⟨⟨x, rfl⟩, left⟩ := ihl b
    obtain ⟨⟨y, rfl⟩, right⟩ := ihr b
    refine ⟨⟨.binary op m x y, rfl⟩, ?_⟩
    dsimp only at left right ⊢
    rw [Infix.Expr.value, left, right, apply_self]
  | paren m m' e ih =>
    intro b
    obtain ⟨⟨x, rfl⟩, value⟩ := ih b
    exact ⟨⟨.paren m m' x, rfl⟩, value⟩

theorem built_unary_of_map {x : Expr Bool} {m m' : Nat} {e : Expr Unit}
    (h : x.map (fun _ => ()) = .unary m' e) : built (.unary m x) = built x := by
  cases x with
  | unary m₁ x => rw [built]
  | _ => cases h

theorem built_unary_of_ne {x : Expr Bool} {m : Nat}
    (h : ∀ m' e, x.map (fun _ => ()) ≠ .unary m' e) : built (.unary m x) = .unary m (built x) := by
  rw [built]
  rintro m' e rfl
  exact h m' _ rfl

theorem surjective_built (shape : Expr Unit) :
    Function.Surjective fun x : Labelled shape => (built x.1).value id := by
  fun_induction built shape with
  | case1 t => exact fun b => ⟨⟨.term b, rfl⟩, rfl⟩
  | case2 m m' e ih =>
    intro b
    obtain ⟨⟨x, label⟩, value⟩ := ih b
    refine ⟨⟨.unary m x, congrArg (Expr.unary m) label⟩, ?_⟩
    simpa only [built_unary_of_map label] using value
  | case3 m e other ih =>
    intro b
    obtain ⟨⟨x, label⟩, value⟩ := ih !b
    refine ⟨⟨.unary m x, congrArg (Expr.unary m) label⟩, ?_⟩
    have plain := @built_unary_of_ne x m fun m' e' same => other m' e' (label.symm.trans same)
    simp only [plain, Expression.value]
    simpa using congrArg not value
  | case4 op m l r ihr ihl =>
    intro b
    obtain ⟨⟨x, rfl⟩, left⟩ := ihl (xor (lead r).length.bodd b)
    obtain ⟨⟨y, rfl⟩, right⟩ := ihr b
    refine ⟨⟨.binary op m x y, rfl⟩, ?_⟩
    dsimp only at left right ⊢
    rw [built, Expression.value, value_foldr, left, right, lead_map, ← Bool.xor_assoc,
      Bool.xor_self, Bool.false_xor, apply_self]
  | case5 m m' e ih =>
    intro b
    obtain ⟨⟨x, rfl⟩, value⟩ := ih b
    exact ⟨⟨.paren m m' x, rfl⟩, value⟩

/-- With independent terms, only expressions with straight operands have the value of their tree,
up to the excess. -/
theorem straight_of_value (shape : Expr Unit) (s : Bool)
    (h : ∀ x : Labelled shape, xor s ((built x.1).value id) = x.1.value BinaryOp.apply id) :
    s = (excess shape).bodd ∧ StraightOperands shape := by
  induction shape generalizing s with
  | term t =>
    have value := h ⟨.term true, rfl⟩
    refine ⟨?_, trivial⟩
    simpa [built, Expression.value, Infix.Expr.value, excess] using value
  | unary m e ih =>
    by_cases negated : ∃ m' e', e = .unary m' e'
    · obtain ⟨m', e', rfl⟩ := negated
      have inner := ih (!s) fun ⟨x, label⟩ => by
        have value := h ⟨.unary m x, congrArg (Expr.unary m) label⟩
        simp only [built_unary_of_map label, Infix.Expr.value] at value
        simpa using congrArg not value
      refine ⟨?_, inner.2⟩
      rw [excess, Nat.bodd_succ, ← inner.1, Bool.not_not]
    · have other : ∀ m' e', e ≠ .unary m' e' := fun m' e' same => negated ⟨m', e', same⟩
      have inner := ih s fun ⟨x, label⟩ => by
        have value := h ⟨.unary m x, congrArg (Expr.unary m) label⟩
        have plain := @built_unary_of_ne x m fun m' e' same => other m' e' (label.symm.trans same)
        simp only [plain, Expression.value, Infix.Expr.value] at value
        simpa using congrArg not value
      rwa [excess]
      exact other
  | binary op m l r ihl ihr =>
    obtain ⟨clean, left, right⟩ := apply_independent (surjective_value l) (surjective_value r)
      (surjective_built r)
      (show ∀ (x : Labelled l) (y : Labelled r), xor s (op.apply ((built y.1).value id)
          (xor (lead r).length.bodd ((built x.1).value id))) =
          op.apply (x.1.value BinaryOp.apply id) (y.1.value BinaryOp.apply id) by
        rintro ⟨x, rfl⟩ ⟨y, rfl⟩
        have value := h ⟨.binary op m x y, rfl⟩
        simpa only [built, Expression.value, value_foldr, lead_map, Infix.Expr.value] using value)
    obtain ⟨evenRight, straightRight⟩ := ihr false fun y => by simpa using right y
    obtain ⟨evenLeft, straightLeft⟩ := ihl (lead r).length.bodd left
    rw [bodd_lead straightRight, ← evenRight] at evenLeft
    refine ⟨by rw [clean, excess]; rfl, ⟨evenLeft.symm, straightLeft⟩, evenRight.symm, straightRight⟩
  | paren m m' e ih =>
    rw [excess]
    exact ih s fun ⟨x, label⟩ => h ⟨.paren m m' x, congrArg (Expr.paren m m') label⟩

end independent

theorem buildDijstraEvaluator_tokens {e : Expr Term} (grouped : e.Grouped BinaryOp.precedence)
    (termBuilder : Term → Event → Bool) :
    buildDijstraEvaluator termBuilder e.tokens = .ok (evaluate (operators termBuilder (built e))) := by
  rw [buildDijstraEvaluator, parse_tokens grouped]
  rfl

/-- **Logic expressions evaluate as written** exactly when they are straight. For a list of tokens
up to the choice of its terms: whatever the terms are and whatever they evaluate to, a list that
belongs to an expression has a grouped expression, and the evaluator built from the list computes
the value of that; from any other list no expression is built. -/
theorem evaluates_iff_straight (shape : List (Token Unit)) :
    (∀ (Term Event : Type) (tokens : List (Token Term)) (termBuilder : Term → Event → Bool),
      tokens.map (Infix.Token.map fun _ => ()) = shape →
      (∀ e : Expr Term, e.Grouped BinaryOp.precedence → e.tokens = tokens →
        ∃ evaluator, buildDijstraEvaluator termBuilder tokens = .ok evaluator ∧
          ∀ event, evaluator event = some (e.value BinaryOp.apply (termBuilder · event))) ∧
      (Generated tokens → ∃ e : Expr Term, e.Grouped BinaryOp.precedence ∧ e.tokens = tokens) ∧
      (¬Generated tokens → ∃ error, parse tokens = .error error)) ↔
    ∀ e : Expr Unit, e.Grouped BinaryOp.precedence → e.tokens = shape → Straight e := by
  constructor
  · intro correct e grouped same
    obtain ⟨even, straight⟩ := straight_of_value e false fun ⟨x, label⟩ => by
      have shaped : x.tokens.map (Infix.Token.map fun _ => ()) = shape := by
        rw [← Infix.Expr.tokens_map, label, same]
      have groupedLabel : x.Grouped BinaryOp.precedence := by
        rwa [← label, Infix.Expr.grouped_map] at grouped
      obtain ⟨evaluator, made, value⟩ :=
        (correct Bool Unit x.tokens (fun b _ => b) shaped).1 x groupedLabel rfl
      rw [buildDijstraEvaluator_tokens groupedLabel] at made
      cases made
      have computed := value ()
      rw [evaluate_operators] at computed
      rw [Bool.false_xor]
      exact Option.some.inj computed
    exact ⟨even.symm, straight⟩
  · intro straight Term Event tokens termBuilder shaped
    refine ⟨?_, ?_, ?_⟩
    · rintro e grouped rfl
      refine ⟨_, buildDijstraEvaluator_tokens grouped termBuilder, fun event => ?_⟩
      have straight' := straight (e.map fun _ => ()) (by simpa using grouped) (by simpa using shaped)
      rw [Straight, excess_map, straightOperands_map] at straight'
      rw [evaluate_operators, value_built straight'.2, straight'.1, Bool.false_xor]
    · rintro ⟨e, rfl⟩
      exact ⟨e.regroup BinaryOp.precedence, Infix.Expr.grouped_regroup e, Infix.Expr.tokens_regroup e⟩
    · intro other
      cases parsed : parse tokens with
      | error error => exact ⟨error, rfl⟩
      | ok e => exact absurd (generated_of_parse parsed) other

/-- `NOT NOT a` is read as `NOT a`, and `a AND NOT NOT b` as `NOT b AND NOT a`. -/
theorem not_not_misread : (∃ evaluator, buildDijstraEvaluator (fun b (_ : Unit) => b)
        [.unary 0, .unary 4, .term true] = .ok evaluator ∧ evaluator () = some false) ∧
    (Infix.Expr.unary 0 (.unary 4 (.term true)) : Expr Bool).value BinaryOp.apply id = true ∧
    (∃ evaluator, buildDijstraEvaluator (fun b (_ : Unit) => b)
        [.term true, .binary .and 2, .unary 6, .unary 10, .term true] = .ok evaluator ∧
        evaluator () = some false) ∧
    (Infix.Expr.binary .and 2 (.term true) (.unary 6 (.unary 10 (.term true))) :
      Expr Bool).value BinaryOp.apply id = true := by
  refine ⟨⟨_, buildDijstraEvaluator_tokens
      (show (Infix.Expr.unary 0 (.unary 4 (.term true)) : Expr Bool).Grouped BinaryOp.precedence from
        ⟨trivial, trivial, trivial⟩) _, rfl⟩, rfl,
    ⟨_, buildDijstraEvaluator_tokens
      (show (Infix.Expr.binary .and 2 (.term true) (.unary 6 (.unary 10 (.term true))) :
        Expr Bool).Grouped BinaryOp.precedence from
        ⟨trivial, trivial, trivial, trivial, trivial, trivial⟩) _, rfl⟩, rfl⟩

end GuardSarm.LogicExpr
