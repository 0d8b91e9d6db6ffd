import Mathlib

/-!
# Infix expressions

Expressions over terms with one unary operator, binary operators of several
levels and parentheses. `Expr.tokens` writes an expression down without
adding any parentheses, so one list of tokens can be written for several
expressions; `Expr.Grouped` picks the one in which the unary operator binds
tightest, an operator of a higher level binds tighter and operators of one
level associate to the left.
-/

namespace GuardSarm.Infix

variable {Term Term' Op Mark : Type}

/-- Operators and parentheses carry a mark, such as their position in a text. -/
inductive Token (Term Op Mark : Type) where
  | term (t : Term)
  | unary (m : Mark)
  | binary (op : Op) (m : Mark)
  | opening (m : Mark)
  | closing (m : Mark)
  deriving DecidableEq

def Token.map (f : Term → Term') : Token Term Op Mark → Token Term' Op Mark
  | term t => term (f t)
  | unary m => unary m
  | binary op m => binary op m
  | opening m => opening m
  | closing m => closing m

inductive Expr (Term Op Mark : Type) where
  | term (t : Term)
  | unary (m : Mark) (e : Expr Term Op Mark)
  | binary (op : Op) (m : Mark) (l r : Expr Term Op Mark)
  | paren (m m' : Mark) (e : Expr Term Op Mark)

namespace Expr

def tokens : Expr Term Op Mark → List (Token Term Op Mark)
  | term t => [.term t]
  | unary m e => .unary m :: e.tokens
  | binary op m l r => l.tokens ++ .binary op m :: r.tokens
  | paren m m' e => .opening m :: e.tokens ++ [.closing m']

def map (f : Term → Term') : Expr Term Op Mark → Expr Term' Op Mark
  | term t => .term (f t)
  | unary m e => .unary m (e.map f)
  | binary op m l r => .binary op m (l.map f) (r.map f)
  | paren m m' e => .paren m m' (e.map f)

@[simp]
theorem tokens_map (f : Term → Term') (e : Expr Term Op Mark) :
    (e.map f).tokens = e.tokens.map (Token.map f) := by
  induction e with
  | term t => rfl
  | unary m e ih => simp [map, tokens, ih, Token.map]
  | binary op m l r ihl ihr => simp [map, tokens, ihl, ihr, Token.map]
  | paren m m' e ih => simp [map, tokens, ih, Token.map]

/-- The value of an expression whose operators are `not` and `apply`. -/
def value (apply : Op → Bool → Bool → Bool) (v : Term → Bool) : Expr Term Op Mark → Bool
  | term t => v t
  | unary _ e => !e.value apply v
  | binary op _ l r => apply op (l.value apply v) (r.value apply v)
  | paren _ _ e => e.value apply v

section grouping

variable (level : Op → Nat)

/-- The expression is no application of an operator below level `n`. -/
def AtLeast (n : Nat) : Expr Term Op Mark → Prop
  | binary op _ _ _ => n ≤ level op
  | _ => True

/-- The expression is no application of a binary operator. -/
def Operand : Expr Term Op Mark → Prop
  | binary .. => False
  | _ => True

/-- Every operator has the operands that its level gives it. -/
def Grouped : Expr Term Op Mark → Prop
  | term _ => True
  | unary _ e => e.Operand ∧ e.Grouped
  | binary op _ l r =>
    l.AtLeast level (level op) ∧ r.AtLeast level (level op + 1) ∧ l.Grouped ∧ r.Grouped
  | paren _ _ e => e.Grouped

variable {level} {e x : Expr Term Op Mark} {op : Op} {m : Mark} {n : Nat}

theorem Operand.atLeast (h : e.Operand) (n : Nat) : e.AtLeast level n := by
  cases e with
  | binary op m l r => exact h.elim
  | _ => trivial

@[simp]
theorem atLeast_map (f : Term → Term') : (e.map f).AtLeast level n ↔ e.AtLeast level n := by
  cases e <;> rfl

@[simp]
theorem operand_map (f : Term → Term') : (e.map f).Operand ↔ e.Operand := by
  cases e <;> rfl

@[simp]
theorem grouped_map (f : Term → Term') : (e.map f).Grouped level ↔ e.Grouped level := by
  induction e with
  | term t => rfl
  | unary m e ih => simp [map, Grouped, ih]
  | binary op m l r ihl ihr => simp [map, Grouped, ihl, ihr]
  | paren m m' e ih => simpa [map, Grouped] using ih

variable (level) in
/-- An operator and an operand written behind an expression. -/
def extend : Expr Term Op Mark → Op → Mark → Expr Term Op Mark → Expr Term Op Mark
  | binary o k l r, op, m, x =>
    if level o < level op then .binary o k l (r.extend op m x) else .binary op m (.binary o k l r) x
  | e, op, m, x => .binary op m e x

theorem tokens_extend : (e.extend level op m x).tokens = e.tokens ++ .binary op m :: x.tokens := by
  fun_induction extend level e op m x with
  | case1 o k l r op m x lower ih => simp [tokens, ih]
  | case2 o k l r op m x higher => simp [tokens]
  | case3 => rfl

theorem AtLeast.extend (h : e.AtLeast level n) (le : n ≤ level op) :
    (e.extend level op m x).AtLeast level n := by
  unfold Expr.extend
  split
  · split
    · exact h
    · exact le
  · exact le

theorem Grouped.extend (h : e.Grouped level) (operand : x.Operand) (hx : x.Grouped level) :
    (e.extend level op m x).Grouped level := by
  fun_induction Expr.extend level e op m x with
  | case1 o k l r op m x lower ih => exact ⟨h.1, h.2.1.extend lower, h.2.2.1, ih h.2.2.2 operand hx⟩
  | case2 o k l r op m x higher => exact ⟨not_lt.mp higher, operand.atLeast _, h, hx⟩
  | case3 e op m x other =>
    refine ⟨?_, operand.atLeast _, h, hx⟩
    cases e with
    | binary o k l r => exact (other o k l r rfl).elim
    | _ => trivial

variable (level) in
/-- An operand with the operators and operands behind it, put together from the left. -/
def assemble (x : Expr Term Op Mark) (rest : List (Op × Mark × Expr Term Op Mark)) :
    Expr Term Op Mark :=
  rest.foldl (fun e step => e.extend level step.1 step.2.1 step.2.2) x

variable (level) in
/-- The first operand of an expression, and the operators and operands behind it. -/
def flatten : Expr Term Op Mark → Expr Term Op Mark × List (Op × Mark × Expr Term Op Mark)
  | term t => (.term t, [])
  | unary m e => (.unary m e.flatten.1, e.flatten.2)
  | binary op m l r => (l.flatten.1, l.flatten.2 ++ (op, m, r.flatten.1) :: r.flatten.2)
  | paren m m' e => (.paren m m' (assemble level e.flatten.1 e.flatten.2), [])

variable (level) in
/-- The grouped expression with the same tokens. -/
def regroup (e : Expr Term Op Mark) : Expr Term Op Mark :=
  assemble level (e.flatten level).1 (e.flatten level).2

/-- The tokens of a list of operators and operands. -/
def stepTokens (rest : List (Op × Mark × Expr Term Op Mark)) : List (Token Term Op Mark) :=
  rest.flatMap fun step => .binary step.1 step.2.1 :: step.2.2.tokens

theorem tokens_assemble (x : Expr Term Op Mark) (rest : List (Op × Mark × Expr Term Op Mark)) :
    (assemble level x rest).tokens = x.tokens ++ stepTokens rest := by
  induction rest generalizing x with
  | nil => simp [assemble, stepTokens]
  | cons step rest ih =>
    have tail := ih (x.extend level step.1 step.2.1 step.2.2)
    rw [tokens_extend] at tail
    simpa [assemble, stepTokens] using tail

theorem tokens_flatten (e : Expr Term Op Mark) :
    (e.flatten level).1.tokens ++ stepTokens (e.flatten level).2 = e.tokens := by
  induction e with
  | term t => rfl
  | unary m e ih => simpa [flatten, tokens] using ih
  | binary op m l r ihl ihr =>
    rw [tokens, ← ihl, ← ihr]
    simp [flatten, stepTokens]
  | paren m m' e ih =>
    rw [tokens, ← ih, flatten, tokens, tokens_assemble]
    simp [stepTokens]

theorem grouped_assemble {rest : List (Op × Mark × Expr Term Op Mark)} (h : x.Grouped level)
    (operands : ∀ step ∈ rest, step.2.2.Operand ∧ step.2.2.Grouped level) :
    (assemble level x rest).Grouped level := by
  induction rest generalizing x with
  | nil => exact h
  | cons step rest ih =>
    obtain ⟨operand, grouped⟩ := operands step List.mem_cons_self
    exact ih (h.extend operand grouped) fun step member =>
      operands step (List.mem_cons_of_mem _ member)

theorem flatten_operands (e : Expr Term Op Mark) :
    ((e.flatten level).1.Operand ∧ (e.flatten level).1.Grouped level) ∧
      ∀ step ∈ (e.flatten level).2, step.2.2.Operand ∧ step.2.2.Grouped level := by
  induction e with
  | term t => exact ⟨⟨trivial, trivial⟩, by simp [flatten]⟩
  | unary m e ih => exact ⟨⟨trivial, ih.1⟩, ih.2⟩
  | binary op m l r ihl ihr =>
    refine ⟨ihl.1, fun step member => ?_⟩
    rcases List.mem_append.mp member with left | right
    · exact ihl.2 step left
    · rcases List.mem_cons.mp right with rfl | right
      · exact ihr.1
      · exact ihr.2 step right
  | paren m m' e ih => exact ⟨⟨trivial, grouped_assemble ih.1.2 ih.2⟩, by simp [flatten]⟩

theorem tokens_regroup (e : Expr Term Op Mark) : (e.regroup level).tokens = e.tokens := by
  rw [regroup, tokens_assemble, tokens_flatten]

/-- **Every expression can be regrouped.** -/
theorem grouped_regroup (e : Expr Term Op Mark) : (e.regroup level).Grouped level :=
  grouped_assemble (flatten_operands e).1.2 (flatten_operands e).2

end grouping

end Expr

/-- The tokens are those of some expression. -/
def Generated (ts : List (Token Term Op Mark)) : Prop := ∃ e : Expr Term Op Mark, e.tokens = ts

/-- The tokens of an expression up to one of its operands, with `n` parentheses open. -/
inductive Context : Nat → List (Token Term Op Mark) → Prop where
  | nil : Context 0 []
  | unary {n : Nat} {before : List (Token Term Op Mark)} (m : Mark) (h : Context n before) :
      Context n (before ++ [.unary m])
  | binary {n : Nat} {before : List (Token Term Op Mark)} (e : Expr Term Op Mark) (op : Op)
      (m : Mark) (h : Context n before) : Context n (before ++ e.tokens ++ [.binary op m])
  | opening {n : Nat} {before : List (Token Term Op Mark)} (m : Mark) (h : Context n before) :
      Context (n + 1) (before ++ [.opening m])

/-- An operand completes a context without open parentheses. -/
theorem Context.generates {n : Nat} {before : List (Token Term Op Mark)} (h : Context n before)
    (closed : n = 0) (e : Expr Term Op Mark) : Generated (before ++ e.tokens) := by
  induction h generalizing e with
  | nil => exact ⟨e, rfl⟩
  | unary m _ ih => simpa [Expr.tokens] using ih closed (.unary m e)
  | binary l op m _ ih => simpa [Expr.tokens] using ih closed (.binary op m l e)
  | opening m _ _ => cases closed

/-- A closing parenthesis behind an operand makes an operand of a shorter context. -/
theorem Context.close {n : Nat} {before : List (Token Term Op Mark)} (h : Context n before)
    (opened : n ≠ 0) (e : Expr Term Op Mark) (m' : Mark) :
    ∃ (before' : List (Token Term Op Mark)) (e' : Expr Term Op Mark),
      Context (n - 1) before' ∧ before ++ e.tokens ++ [.closing m'] = before' ++ e'.tokens := by
  induction h generalizing e with
  | nil => exact absurd rfl opened
  | unary m _ ih => simpa [Expr.tokens] using ih opened (.unary m e)
  | binary l op m _ ih => simpa [Expr.tokens] using ih opened (.binary op m l e)
  | opening m h _ => exact ⟨_, .paren m m' e, h, by simp [Expr.tokens]⟩

end GuardSarm.Infix
