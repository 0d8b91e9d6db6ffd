import GuardSarm.Lib.Infix
import GuardSarm.Lib.Text

/-!
# Logic expressions

The engine reads an expression such as `a AND NOT (b OR c)` in three loops:
`infixToPostfix` checks the order of the tokens and moves the operators
behind their operands, `Expression.create` builds a tree from the top of the
resulting stack, and the evaluator runs over the nodes of the tree in reverse
with a stack of truth values. Stacks are lists with their top first.
-/

namespace GuardSarm.LogicExpr

open Infix

inductive BinaryOp where
  | or | and
  deriving DecidableEq

/-- `DefaultPrecedencePolicy`, for binary operators. -/
def BinaryOp.precedence : BinaryOp → Nat
  | or => 1
  | and => 2

def BinaryOp.text : BinaryOp → Text
  | or => "OR".toList
  | and => "AND".toList

def BinaryOp.apply : BinaryOp → Bool → Bool → Bool
  | or => Bool.or
  | and => Bool.and

/-- Operators and parentheses carry their position in the expression. The unary operator is
`NOT`. -/
abbrev Token (Term : Type) := Infix.Token Term BinaryOp Nat

inductive ParseError (Term : Type) where
  | unexpectedTerm (t : Term)
  | unexpectedUnary (pos : Nat)
  | unexpectedBinary (op : BinaryOp) (pos : Nat)
  | unexpectedOpen (pos : Nat)
  | unexpectedClose (pos : Nat)
  | parenthesisNotBalanced
  | unbalancedExpression
  | invalidToken

/-- The message that `parse` throws, for terms with a text and a position. -/
def ParseError.what {Term : Type} (text : Term → Text) (pos : Term → Nat) (e : ParseError Term) :
    Text :=
  "Expression parsing failed.".toList ++
    match e with
    | unexpectedTerm t => "Unexpected token TERM '".toList ++ text t ++ "' at position '".toList ++
        decimal (pos t) ++ "'".toList
    | unexpectedUnary p =>
        "Unexpected unary operator 'NOT' at position '".toList ++ decimal p ++ "'".toList
    | unexpectedBinary op p => "Unexpected binary operator '".toList ++ op.text ++
        "' at position '".toList ++ decimal p ++ "'".toList
    | unexpectedOpen p =>
        "Unexpected parenthesis '(' at position '".toList ++ decimal p ++ "'".toList
    | unexpectedClose p =>
        "Unexpected parenthesis ')' at position '".toList ++ decimal p ++ "'".toList
    | parenthesisNotBalanced => "Parenthesis are not balanced".toList
    | unbalancedExpression => "Engine logic expression parser: Got unbalanced expression.".toList
    | invalidToken => ("Engine logic expression parser: Got invalid token with " ++
        "\"PARENTHESIS_OPEN\" or \"PARENTHESIS_CLOSE\".").toList

variable {Term Event : Type}

/-- `syntaxChecker`: the next state, where `true` expects an operator. -/
def syntaxChecker (expectsOperator : Bool) : Token Term → Except (ParseError Term) Bool
  | .term t => if expectsOperator then .error (.unexpectedTerm t) else .ok true
  | .unary pos => if expectsOperator then .error (.unexpectedUnary pos) else .ok false
  | .binary op pos => if expectsOperator then .ok false else .error (.unexpectedBinary op pos)
  | .opening pos => if expectsOperator then .error (.unexpectedOpen pos) else .ok false
  | .closing pos => if expectsOperator then .ok true else .error (.unexpectedClose pos)

/-- The precedence of an operator token; the other tokens have none. -/
def precedence? : Token Term → Option Nat
  | .unary _ => some 3
  | .binary op _ => some op.precedence
  | _ => none

/-- The local state of `infixToPostfix`. -/
structure Shunting (Term : Type) where
  output : List (Token Term)
  operatorStack : List (Token Term)
  expectsOperator : Bool

/-- The loop that a closing parenthesis runs: everything above the opening one is moved. -/
def popToOpening : List (Token Term) → List (Token Term) →
    Except (ParseError Term) (List (Token Term) × List (Token Term))
  | _, [] => .error .parenthesisNotBalanced
  | output, .opening _ :: stack => .ok (output, stack)
  | output, top :: stack => popToOpening (top :: output) stack

/-- The loop that an operator of the given precedence runs. -/
def popOperators (precedence : Nat) :
    List (Token Term) → List (Token Term) → List (Token Term) × List (Token Term)
  | output, [] => (output, [])
  | output, top :: stack =>
    match precedence? top with
    | some p => if p ≥ precedence then popOperators precedence (top :: output) stack
        else (output, top :: stack)
    | none => (output, top :: stack)

/-- One pass of the loop of `infixToPostfix`. -/
def shunt (s : Shunting Term) (token : Token Term) : Except (ParseError Term) (Shunting Term) := do
  let expectsOperator ← syntaxChecker s.expectsOperator token
  match token with
  | .term _ => return ⟨token :: s.output, s.operatorStack, expectsOperator⟩
  | .opening _ => return ⟨s.output, token :: s.operatorStack, expectsOperator⟩
  | .closing _ =>
    let (output, stack) ← popToOpening s.output s.operatorStack
    return ⟨output, stack, expectsOperator⟩
  | .unary _ =>
    let (output, stack) := popOperators 3 s.output s.operatorStack
    return ⟨output, token :: stack, expectsOperator⟩
  | .binary op _ =>
    let (output, stack) := popOperators op.precedence s.output s.operatorStack
    return ⟨output, token :: stack, expectsOperator⟩

/-- The loop after the last token. -/
def popAll : List (Token Term) → List (Token Term) → Except (ParseError Term) (List (Token Term))
  | output, [] => .ok output
  | _, .opening _ :: _ => .error .parenthesisNotBalanced
  | output, top :: stack => popAll (top :: output) stack

def infixToPostfix (tokens : List (Token Term)) : Except (ParseError Term) (List (Token Term)) := do
  let s ← tokens.foldlM shunt ⟨[], [], false⟩
  popAll s.output s.operatorStack

/-- `parser::Expression`; the left operand of a binary operator is the one nearer to the top. -/
inductive Expression (Term : Type) where
  | term (t : Term)
  | unary (pos : Nat) (left : Expression Term)
  | binary (op : BinaryOp) (pos : Nat) (left right : Expression Term)

/-- The constructor of `Expression` takes what it needs from the top of the stack; the rest of the
stack stays. -/
def Expression.create : (stack : List (Token Term)) → Except (ParseError Term)
      (Expression Term × {rest : List (Token Term) // rest.length < stack.length})
  | [] => .error .unbalancedExpression
  | .opening _ :: _ => .error .invalidToken
  | .closing _ :: _ => .error .invalidToken
  | .term t :: stack => .ok (.term t, ⟨stack, by simp⟩)
  | .unary pos :: stack => do
    let (left, ⟨rest, shorter⟩) ← create stack
    return (.unary pos left, ⟨rest, by simp only [List.length_cons]; omega⟩)
  | .binary op pos :: stack => do
    let (left, ⟨rest, shorter⟩) ← create stack
    let (right, ⟨rest', shorter'⟩) ← create rest
    return (.binary op pos left right, ⟨rest', by simp only [List.length_cons]; omega⟩)
termination_by stack => stack.length

/-- `parse`, from the tokens on. What is left on the stack is not looked at. -/
def parse (tokens : List (Token Term)) : Except (ParseError Term) (Expression Term) := do
  let stack ← infixToPostfix tokens
  let (expression, _) ← Expression.create stack
  return expression

/-- The nodes of `evaluator::Expression`. -/
inductive Operator (Event : Type) where
  | term (function : Event → Bool)
  | not
  | binary (op : BinaryOp)

/-- `visit` of `buildDijstraEvaluator`, followed by `visitPreOrder`: the operators of the tree with
every node before its operands. -/
def operators (termBuilder : Term → Event → Bool) : Expression Term → List (Operator Event)
  | .term t => [.term (termBuilder t)]
  | .unary _ left => .not :: operators termBuilder left
  | .binary op _ left right =>
    .binary op :: operators termBuilder left ++ operators termBuilder right

/-- One pass of the evaluator's loop over the operands and the last result, none where it reads the
top of an empty stack. -/
def evaluateStep (single : Bool) (event : Event) :
    List Bool × Bool → Operator Event → Option (List Bool × Bool)
  | (operands, result), .term function =>
    if single then some (operands, function event) else some (function event :: operands, result)
  | (a :: operands, _), .not => some ((!a) :: operands, !a)
  | (a :: b :: operands, _), .binary op => some (op.apply a b :: operands, op.apply a b)
  | _, _ => none

/-- The function that `getDijstraEvaluator` returns. -/
def evaluate (ops : List (Operator Event)) (event : Event) : Option Bool := do
  let (_, result) ← ops.reverse.foldlM (evaluateStep (ops.length == 1) event) ([], false)
  return result

def buildDijstraEvaluator (termBuilder : Term → Event → Bool) (tokens : List (Token Term)) :
    Except (ParseError Term) (Event → Option Bool) := do
  let expression ← parse tokens
  return evaluate (operators termBuilder expression)

end GuardSarm.LogicExpr
