import GuardSarm.Engine.LogicExpr
import GuardSarm.Lib.Search

/-!
# What the parser accepts, and the postfix form it builds

`shunt_expr` follows the loop of `infixToPostfix` over the tokens of a
grouped expression: some of its operators are still on the operator stack
afterwards, and moving them to the output leaves `shunted`. A `NOT` moves a
`NOT` directly before it to the output at once, below the operand that is
still to come; `shunted` has it there.

In the other direction, `Balanced` and `Read` hold in every state of the loop
(`read_shunt`, `read_run`), and `generated_of_parse` concludes that a list of
tokens from which a tree is built belongs to an expression.
-/

namespace GuardSarm.LogicExpr

open List

open Infix

variable {Term : Type}

abbrev Expr (Term : Type) := Infix.Expr Term BinaryOp Nat

/-- The output for an expression, with the top first. -/
def shunted : Expr Term → List (Token Term)
  | .term t => [.term t]
  | .unary m (.unary m' e) => shunted (.unary m' e) ++ [.unary m]
  | .unary m e => .unary m :: shunted e
  | .binary op m l r => .binary op m :: (shunted r ++ shunted l)
  | .paren _ _ e => shunted e

/-- The lowest precedence of an operator that is left on the stack behind the expression. -/
def rank : Expr Term → Nat
  | .binary op _ _ _ => op.precedence
  | .unary _ _ => 3
  | _ => 4

section forward

variable {stack output moved : List (Token Term)} {n : Nat}

/-- An operator of precedence `n` moves nothing. -/
def Below (n : Nat) : List (Token Term) → Prop
  | [] => True
  | top :: _ => ∀ p, precedence? top = some p → p < n

/-- All tokens are operators of at least this precedence. -/
def Operators (n : Nat) (moved : List (Token Term)) : Prop :=
  ∀ t ∈ moved, ∃ p, precedence? t = some p ∧ n ≤ p

theorem Below.mono {n' : Nat} (h : Below n stack) (le : n ≤ n') : Below n' stack := by
  cases stack with
  | nil => trivial
  | cons top stack => exact fun p operator => lt_of_lt_of_le (h p operator) le

theorem Operators.mono {n' : Nat} (h : Operators n moved) (le : n' ≤ n) : Operators n' moved :=
  fun t member =>
    have ⟨p, operator, high⟩ := h t member
    ⟨p, operator, le_trans le high⟩

theorem popOperators_below (h : Below n stack) : popOperators n output stack = (output, stack) := by
  cases stack with
  | nil => rfl
  | cons top stack =>
    unfold popOperators
    split
    · rename_i p operator
      rw [if_neg (not_le.mpr (h p operator))]
    · rfl

theorem popOperators_append (h : Operators n moved) :
    popOperators n output (moved ++ stack) = popOperators n (moved.reverse ++ output) stack := by
  induction moved generalizing output with
  | nil => rfl
  | cons top moved ih =>
    obtain ⟨p, operator, high⟩ := h top mem_cons_self
    rw [cons_append, popOperators]
    simp only [operator, ge_iff_le, high, if_true]
    rw [ih fun t member => h t (mem_cons_of_mem _ member)]
    simp

theorem popToOpening_append (h : Operators n moved) :
    popToOpening output (moved ++ stack) = popToOpening (moved.reverse ++ output) stack := by
  induction moved generalizing output with
  | nil => rfl
  | cons top moved ih =>
    obtain ⟨p, operator, -⟩ := h top mem_cons_self
    have tail := @ih (top :: output) fun t member => h t (mem_cons_of_mem _ member)
    cases top with
    | opening m => cases operator
    | _ => simpa [popToOpening] using tail

theorem popAll_operators (h : Operators n moved) :
    popAll output moved = .ok (moved.reverse ++ output) := by
  induction moved generalizing output with
  | nil => rfl
  | cons top moved ih =>
    obtain ⟨p, operator, -⟩ := h top mem_cons_self
    have tail := @ih (top :: output) fun t member => h t (mem_cons_of_mem _ member)
    cases top with
    | opening m => cases operator
    | _ => simpa [popAll] using tail

/-- The loop reads the tokens and leaves this state. -/
def Reaches (s : Shunting Term) (tokens : List (Token Term)) (s' : Shunting Term) : Prop :=
  tokens.foldlM shunt s = .ok s'

theorem Reaches.append {s s' s'' : Shunting Term} {tokens tokens' : List (Token Term)}
    (h : Reaches s tokens s') (h' : Reaches s' tokens' s'') : Reaches s (tokens ++ tokens') s'' := by
  unfold Reaches at *
  rw [foldlM_append, h]
  exact h'

theorem Reaches.cons {s s' s'' : Shunting Term} {token : Token Term} {tokens : List (Token Term)}
    (h : shunt s token = .ok s') (h' : Reaches s' tokens s'') : Reaches s (token :: tokens) s'' := by
  unfold Reaches at *
  rw [foldlM_cons, h]
  exact h'

theorem shunt_unary (below : Below 3 stack) (m : Nat) :
    shunt ⟨output, stack, false⟩ (.unary m) = .ok ⟨output, .unary m :: stack, false⟩ := by
  simp only [shunt, popOperators_below below]
  rfl

theorem shunt_unary_unary (m m' : Nat) : shunt ⟨output, .unary m :: stack, false⟩ (.unary m') =
      shunt ⟨.unary m :: output, stack, false⟩ (.unary m') := by
  have moved : popOperators 3 output (.unary m :: stack) =
      popOperators 3 (.unary m :: output) stack := by simp [popOperators, precedence?]
  simp only [shunt, moved]

theorem shunt_binary {op : BinaryOp} (operators : Operators op.precedence moved)
    (below : Below op.precedence stack) (m : Nat) :
    shunt ⟨output, moved ++ stack, true⟩ (.binary op m) =
      .ok ⟨moved.reverse ++ output, .binary op m :: stack, false⟩ := by
  simp only [shunt, popOperators_append operators, popOperators_below below]
  rfl

theorem shunt_closing (operators : Operators n moved) (m m' : Nat) :
    shunt ⟨output, moved ++ .opening m :: stack, true⟩ (.closing m') =
      .ok ⟨moved.reverse ++ output, stack, true⟩ := by
  simp only [shunt, popToOpening_append operators]
  rfl

theorem precedence_le (op : BinaryOp) : op.precedence ≤ 2 := by
  cases op with
  | or => decide
  | and => decide

theorem le_rank {e : Expr Term} (h : e.AtLeast BinaryOp.precedence n) (le : n ≤ 3) : n ≤ rank e := by
  cases e with
  | binary op m l r => exact h
  | unary m e => exact le
  | term t | paren m m' e => exact le_trans le (Nat.le_succ 3)

/-- What the loop does with a grouped expression: `moved` stays on the operator stack, and moving it
as well completes the output. -/
theorem shunt_expr {e : Expr Term} (grouped : e.Grouped BinaryOp.precedence)
    (output stack : List (Token Term)) (below : Below (rank e) stack) :
    ∃ output' moved, Reaches ⟨output, stack, false⟩ e.tokens ⟨output', moved ++ stack, true⟩ ∧
      moved.reverse ++ output' = shunted e ++ output ∧ Operators (rank e) moved := by
  induction e generalizing output stack with
  | term t => exact ⟨.term t :: output, [], rfl, rfl, by simp [Operators]⟩
  | unary m e ih =>
    obtain ⟨operand, grouped⟩ := grouped
    have first : shunt ⟨output, stack, false⟩ (.unary m) = .ok ⟨output, .unary m :: stack, false⟩ :=
      shunt_unary below m
    cases e with
    | binary => exact operand.elim
    | unary m' e =>
      obtain ⟨output', moved, reaches, same, operators⟩ :=
        ih grouped (.unary m :: output) stack below
      refine ⟨output', moved, Reaches.cons first ?_, by simpa [shunted] using same, operators⟩
      unfold Reaches at reaches ⊢
      rw [Infix.Expr.tokens, foldlM_cons] at reaches ⊢
      rwa [shunt_unary_unary]
    | term t =>
      refine ⟨.term t :: output, [.unary m], Reaches.cons first rfl, rfl, ?_⟩
      simp [Operators, rank, precedence?]
    | paren m₁ m₂ e =>
      have free : Below (rank (.paren m₁ m₂ e)) (.unary m :: stack) := by
        simp [Below, rank, precedence?]
      obtain ⟨output', moved, reaches, same, operators⟩ :=
        ih grouped output (.unary m :: stack) free
      refine ⟨output', moved ++ [.unary m], ?_, by simpa [shunted] using same, ?_⟩
      · rw [append_assoc]
        exact Reaches.cons first reaches
      · intro t member
        rcases mem_append.mp member with earlier | last
        · obtain ⟨p, operator, high⟩ := operators t earlier
          exact ⟨p, operator, le_trans (by simp [rank]) high⟩
        · rw [mem_singleton.mp last]
          exact ⟨3, rfl, le_refl 3⟩
  | binary op m l r ihl ihr =>
    obtain ⟨atLeft, atRight, groupedLeft, groupedRight⟩ := grouped
    have low := precedence_le op
    have rankLeft : op.precedence ≤ rank l := le_rank atLeft (by omega)
    have rankRight : op.precedence + 1 ≤ rank r := le_rank atRight (by omega)
    obtain ⟨output₁, moved₁, reaches₁, same₁, operators₁⟩ :=
      ihl groupedLeft output stack (below.mono rankLeft)
    have middle : shunt ⟨output₁, moved₁ ++ stack, true⟩ (.binary op m) =
        .ok ⟨moved₁.reverse ++ output₁, .binary op m :: stack, false⟩ :=
      shunt_binary (operators₁.mono rankLeft) below m
    have free : Below (rank r) (.binary op m :: stack) := by
      intro p operator
      cases operator
      exact rankRight
    obtain ⟨output₂, moved₂, reaches₂, same₂, operators₂⟩ :=
      ihr groupedRight (moved₁.reverse ++ output₁) (.binary op m :: stack) free
    refine ⟨output₂, moved₂ ++ [.binary op m], ?_, ?_, ?_⟩
    · rw [append_assoc]
      exact reaches₁.append (Reaches.cons middle reaches₂)
    · simp [shunted, same₂, same₁]
    · intro t member
      rcases mem_append.mp member with earlier | last
      · obtain ⟨p, operator, high⟩ := operators₂ t earlier
        exact ⟨p, operator, le_trans (Nat.le_of_succ_le rankRight) high⟩
      · rw [mem_singleton.mp last]
        exact ⟨op.precedence, rfl, le_refl _⟩
  | paren m m' e ih =>
    obtain ⟨output', moved, reaches, same, operators⟩ :=
      ih grouped output (.opening m :: stack) (by simp [Below, precedence?])
    refine ⟨moved.reverse ++ output', [], ?_, by simpa [shunted] using same, by simp [Operators]⟩
    exact (Reaches.cons rfl reaches).append (Reaches.cons (shunt_closing operators m m') rfl)

/-- **The postfix form of a grouped expression.** -/
theorem infixToPostfix_tokens {e : Expr Term} (grouped : e.Grouped BinaryOp.precedence) :
    infixToPostfix e.tokens = .ok (shunted e) := by
  obtain ⟨output, moved, reaches, same, operators⟩ := shunt_expr grouped [] [] trivial
  rw [append_nil] at reaches same
  have run : e.tokens.foldlM shunt ⟨[], [], false⟩ = .ok ⟨output, moved, true⟩ := reaches
  rw [infixToPostfix, run, ← same]
  exact popAll_operators operators

end forward

section backward

variable {output stack output' stack' : List (Token Term)} {b : Int}

/-- How many operands a token leaves on a stack of operands, less those that it takes. -/
def weight : Token Term → Int
  | .term _ => 1
  | .binary _ _ => -1
  | _ => 0

def total (tokens : List (Token Term)) : Int := (tokens.map weight).sum

@[simp]
theorem total_cons (token : Token Term) (tokens : List (Token Term)) :
    total (token :: tokens) = weight token + total tokens := rfl

/-- No part of the output at its bottom takes more operands than it leaves, and with the waiting
operators the output leaves `b`. -/
structure Balanced (b : Int) (output stack : List (Token Term)) : Prop where
  bottom : ∀ part, part <:+ output → 0 ≤ total part
  whole : total output + total stack = b
  waiting : ∀ t ∈ stack, weight t ≤ 0

def opens (stack : List (Token Term)) : Nat :=
  stack.countP fun
    | .opening _ => true
    | _ => false

theorem total_nonpos (waiting : ∀ t ∈ stack, weight t ≤ 0) : total stack ≤ 0 := by
  induction stack with
  | nil => exact le_refl 0
  | cons top stack ih =>
    have head := waiting top mem_cons_self
    have tail := ih fun t member => waiting t (mem_cons_of_mem _ member)
    rw [total_cons]
    omega

/-- The top of the operator stack is moved to the output. -/
theorem Balanced.move {top : Token Term} (h : Balanced b output (top :: stack)) (nonneg : 0 ≤ b) :
    Balanced b (top :: output) stack := by
  have waiting : ∀ t ∈ stack, weight t ≤ 0 := fun t member =>
    h.waiting t (mem_cons_of_mem _ member)
  have whole := h.whole
  have rest := total_nonpos waiting
  rw [total_cons] at whole
  refine ⟨fun part below => ?_, by rw [total_cons]; omega, waiting⟩
  rcases suffix_cons_iff.mp below with rfl | inner
  · rw [total_cons]
    omega
  · exact h.bottom part inner

section

variable (h : Balanced b output stack)
include h

theorem Balanced.popOperators {n : Nat} (nonneg : 0 ≤ b)
    (popped : popOperators n output stack = (output', stack')) :
    Balanced b output' stack' ∧ opens stack' = opens stack := by
  induction stack generalizing output with
  | nil =>
    cases popped
    exact ⟨h, rfl⟩
  | cons top stack ih =>
    unfold LogicExpr.popOperators at popped
    split at popped
    · rename_i p operator
      split at popped
      · obtain ⟨balanced, same⟩ := ih (h.move nonneg) popped
        refine ⟨balanced, same.trans ?_⟩
        cases top with
        | opening m => cases operator
        | _ => rfl
      · cases popped
        exact ⟨h, rfl⟩
    · cases popped
      exact ⟨h, rfl⟩

theorem Balanced.popToOpening (nonneg : 0 ≤ b)
    (popped : popToOpening output stack = .ok (output', stack')) :
    Balanced b output' stack' ∧ opens stack' + 1 = opens stack := by
  induction stack generalizing output with
  | nil => cases popped
  | cons top stack ih =>
    cases top with
    | opening m =>
      cases popped
      have whole := h.whole
      rw [total_cons] at whole
      exact ⟨⟨h.bottom, by simpa [weight] using whole, fun t member =>
        h.waiting t (mem_cons_of_mem _ member)⟩, by simp [opens]⟩
    | _ => exact ih (h.move nonneg) popped

theorem Balanced.popAll {result : List (Token Term)} (nonneg : 0 ≤ b)
    (popped : popAll output stack = .ok result) : Balanced b result [] ∧ opens stack = 0 := by
  induction stack generalizing output with
  | nil =>
    cases popped
    exact ⟨h, rfl⟩
  | cons top stack ih =>
    cases top with
    | opening m => cases popped
    | _ => exact ih (h.move nonneg) popped

theorem Balanced.push {b' : Int} {top : Token Term}
    (light : weight top ≤ 0) (sum : b + weight top = b') : Balanced b' output (top :: stack) := by
  refine ⟨h.bottom, ?_, ?_⟩
  · rw [total_cons, ← sum, ← h.whole]
    ring
  · intro t member
    rcases mem_cons.mp member with rfl | member
    · exact light
    · exact h.waiting t member

theorem Balanced.term (t : Term) : Balanced (b + 1) (.term t :: output) stack := by
  have nonneg := h.bottom output (suffix_refl output)
  refine ⟨fun part below => ?_, ?_, h.waiting⟩
  · rcases suffix_cons_iff.mp below with rfl | inner
    · rw [total_cons, weight]
      omega
    · exact h.bottom part inner
  · rw [total_cons, weight, ← h.whole]
    ring

end

/-- The operands that the output and the waiting operators leave in a state. -/
def left (expectsOperator : Bool) : Int := if expectsOperator then 1 else 0

/-- The tokens read so far are the start of an expression, up to an operand or behind one. -/
def Start (expectsOperator : Bool) (n : Nat) (consumed : List (Token Term)) : Prop :=
  match expectsOperator with
  | false => Context n consumed
  | true => ∃ (before : List (Token Term)) (e : Expr Term), Context n before ∧
      consumed = before ++ e.tokens

/-- What holds after the loop has read `consumed`. -/
structure Read (consumed : List (Token Term)) (s : Shunting Term) : Prop where
  balanced : Balanced (left s.expectsOperator) s.output s.operatorStack
  start : Start s.expectsOperator (opens s.operatorStack) consumed

theorem left_nonneg (expectsOperator : Bool) : 0 ≤ left expectsOperator := by
  cases expectsOperator with
  | false => exact le_refl 0
  | true => exact Int.one_nonneg

theorem read_shunt {consumed : List (Token Term)} {s s' : Shunting Term} {token : Token Term}
    (h : Read consumed s) (step : shunt s token = .ok s') : Read (consumed ++ [token]) s' := by
  obtain ⟨output, stack, expectsOperator⟩ := s
  obtain ⟨balanced, start⟩ := h
  dsimp only at balanced start
  cases token with
  | term t =>
    cases expectsOperator with
    | true => cases step
    | false =>
      cases step
      exact ⟨balanced.term t, consumed, .term t, start, rfl⟩
  | unary m =>
    cases expectsOperator with
    | true => cases step
    | false =>
      rcases popped : LogicExpr.popOperators 3 output stack with ⟨output', stack'⟩
      simp only [shunt, popped] at step
      cases step
      obtain ⟨after, same⟩ := balanced.popOperators (left_nonneg _) popped
      refine ⟨after.push (le_refl 0) rfl, ?_⟩
      have opened : opens (.unary m :: stack') = opens stack := same
      rw [opened]
      exact start.unary m
  | binary op m =>
    cases expectsOperator with
    | false => cases step
    | true =>
      rcases popped : LogicExpr.popOperators op.precedence output stack with ⟨output', stack'⟩
      simp only [shunt, popped] at step
      cases step
      obtain ⟨after, same⟩ := balanced.popOperators (left_nonneg _) popped
      refine ⟨after.push (show (-1 : Int) ≤ 0 by decide) rfl, ?_⟩
      have opened : opens (.binary op m :: stack') = opens stack := same
      obtain ⟨before, e, context, rfl⟩ := start
      rw [opened]
      exact context.binary e op m
  | opening m =>
    cases expectsOperator with
    | true => cases step
    | false =>
      cases step
      refine ⟨balanced.push (le_refl 0) rfl, ?_⟩
      have opened : opens (.opening m :: stack) = opens stack + 1 := by simp [opens]
      rw [opened]
      exact start.opening m
  | closing m =>
    cases expectsOperator with
    | false => cases step
    | true =>
      rcases popped : LogicExpr.popToOpening output stack with _ | ⟨output', stack'⟩
      · simp only [shunt, popped] at step
        cases step
      · simp only [shunt, popped] at step
        cases step
        obtain ⟨after, opened⟩ := balanced.popToOpening (left_nonneg _) popped
        refine ⟨after, ?_⟩
        obtain ⟨before, e, context, rfl⟩ := start
        obtain ⟨before', e', shorter, same⟩ := context.close (by omega) e m
        refine ⟨before', e', ?_, same⟩
        rwa [← opened] at shorter

theorem read_run {tokens consumed : List (Token Term)} {s s' : Shunting Term}
    (h : Read consumed s) (reaches : Reaches s tokens s') : Read (consumed ++ tokens) s' := by
  induction tokens generalizing consumed s with
  | nil =>
    cases reaches
    simpa using h
  | cons token tokens ih =>
    unfold Reaches at reaches
    rw [foldlM_cons, Search.bind_ok_iff] at reaches
    obtain ⟨middle, step, rest⟩ := reaches
    simpa using ih (read_shunt h step) rest

end backward

section create

variable {stack : List (Token Term)}

/-- `Expression.create` without the proof that it shortens the stack. -/
def created (stack : List (Token Term)) :
    Except (ParseError Term) (Expression Term × List (Token Term)) :=
  (Expression.create stack).map fun made => (made.1, made.2.1)

theorem created_term (t : Term) : created (.term t :: stack) = .ok (.term t, stack) := by
  rw [created, Expression.create]
  rfl

theorem created_unary (m : Nat) : created (.unary m :: stack) = do
    let (left, rest) ← created stack
    return (.unary m left, rest) := by
  rw [created, Expression.create, created]
  cases Expression.create stack with
  | error e => rfl
  | ok made => rfl

theorem created_binary (op : BinaryOp) (m : Nat) : created (.binary op m :: stack) = do
    let (left, rest) ← created stack
    let (right, rest') ← created rest
    return (.binary op m left right, rest') := by
  rw [created, Expression.create, created]
  rcases Expression.create stack with e | ⟨left, rest, shorter⟩
  · rfl
  · rcases second : Expression.create rest with e | ⟨right, rest', shorter'⟩
    · simp [bind, Except.bind, Except.map, created, second]
    · simp [bind, Except.bind, Except.map, created, second, pure, Except.pure]

theorem parse_eq (tokens : List (Token Term)) : parse tokens = do
    let stack ← infixToPostfix tokens
    let (expression, _) ← created stack
    return expression := by
  rw [parse]
  cases infixToPostfix tokens with
  | error e => rfl
  | ok stack =>
    simp only [bind, Except.bind, created]
    cases Expression.create stack with
    | error e => rfl
    | ok made => rfl

variable {e : Expression Term}

theorem created_cases {rest : List (Token Term)} (h : created stack = .ok (e, rest)) :
    (∃ t, stack = .term t :: rest ∧ e = .term t) ∨
    (∃ m left stack', stack = .unary m :: stack' ∧ created stack' = .ok (left, rest) ∧
      e = .unary m left) ∨ ∃ op m left right stack' middle, stack = .binary op m :: stack' ∧
      created stack' = .ok (left, middle) ∧ created middle = .ok (right, rest) ∧
      e = .binary op m left right := by
  cases stack with
  | nil =>
    rw [created, Expression.create] at h
    cases h
  | cons top stack =>
    cases top with
    | term t =>
      rw [created_term] at h
      cases h
      exact .inl ⟨t, rfl, rfl⟩
    | unary m =>
      rw [created_unary, Search.bind_ok_iff] at h
      obtain ⟨⟨left, rest'⟩, first, same⟩ := h
      cases same
      exact .inr (.inl ⟨m, left, stack, rfl, first, rfl⟩)
    | binary op m =>
      rw [created_binary, Search.bind_ok_iff] at h
      obtain ⟨⟨left, middle⟩, first, h⟩ := h
      obtain ⟨⟨right, rest'⟩, second, same⟩ := Search.bind_ok_iff.mp h
      cases same
      exact .inr (.inr ⟨op, m, left, right, stack, middle, rfl, first, second, rfl⟩)
    | opening m | closing m =>
      rw [created, Expression.create] at h
      cases h

/-- A tree takes what leaves one operand from the top of the stack. -/
theorem created_takes {rest : List (Token Term)}
    (h : created stack = .ok (e, rest)) : rest <:+ stack ∧ total stack = 1 + total rest := by
  induction e generalizing stack rest with
  | term t =>
    obtain ⟨_, rfl, -⟩ | ⟨_, _, _, -, -, other⟩ | ⟨_, _, _, _, _, _, -, -, -, other⟩ := created_cases h
    · exact ⟨suffix_cons _ _, rfl⟩
    · cases other
    · cases other
  | unary m left ih =>
    obtain ⟨_, -, other⟩ | ⟨_, _, _, rfl, first, same⟩ | ⟨_, _, _, _, _, _, -, -, -, other⟩ :=
      created_cases h
    · cases other
    · cases same
      obtain ⟨below, sum⟩ := ih first
      refine ⟨below.trans (suffix_cons _ _), ?_⟩
      have zero : weight (.unary m : Token Term) = 0 := rfl
      rw [total_cons, sum, zero, zero_add]
    · cases other
  | binary op m left right ihl ihr =>
    obtain ⟨_, -, other⟩ | ⟨_, _, _, -, -, other⟩ | ⟨_, _, _, _, _, _, rfl, first, second, same⟩ :=
      created_cases h
    · cases other
    · cases other
    · cases same
      obtain ⟨below, sum⟩ := ihl first
      obtain ⟨below', sum'⟩ := ihr second
      refine ⟨below'.trans (below.trans (suffix_cons _ _)), ?_⟩
      rw [total_cons, sum, sum', weight]
      ring

/-- **Only expressions are accepted.** -/
theorem generated_of_parse {tokens : List (Token Term)}
    (h : parse tokens = .ok e) : Generated tokens := by
  rw [parse_eq, Search.bind_ok_iff] at h
  obtain ⟨stack, shunted, h⟩ := h
  obtain ⟨⟨_, rest⟩, made, -⟩ := Search.bind_ok_iff.mp h
  rw [infixToPostfix, Search.bind_ok_iff] at shunted
  obtain ⟨s, run, popped⟩ := shunted
  have start : Read [] (⟨[], [], false⟩ : Shunting Term) :=
    ⟨⟨by simp [total], rfl, by simp⟩, .nil⟩
  have read := read_run start run
  obtain ⟨balanced, closed⟩ := read.balanced.popAll (left_nonneg _) popped
  obtain ⟨below, sum⟩ := created_takes made
  have bottom := balanced.bottom rest below
  have whole := balanced.whole
  obtain ⟨output, operatorStack, expectsOperator⟩ := s
  cases expectsOperator with
  | false =>
    -- behind an operator the output leaves no operand, and a tree would take one
    have none : total stack = 0 := by simpa [total, left] using whole
    omega
  | true =>
    obtain ⟨before, e, context, same⟩ := read.start
    rw [nil_append] at same
    rw [same]
    exact context.generates closed e

end create

end GuardSarm.LogicExpr
