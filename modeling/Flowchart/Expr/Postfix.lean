import Flowchart.Expr.Error
import Flowchart.Number.Layout
import Flowchart.Number.Power
import Flowchart.Token

/-!
# Postfix order

Infix tokens are brought into postfix order with a stack of waiting operators and
brackets, and postfix tokens are evaluated on a stack of values.

All binary operators associate to the left, `^` too. A `-` or `+` at the start, after
an operator or after an opening bracket is a sign; the negation it stands for binds
weaker than `^` and stronger than `*`.
-/

namespace Flowchart.Expr

/-- The lexeme of a negation in postfix order. -/
def negation : String := "neg"

/-- An operator that is not in the list binds weakest. -/
def precedence (lexeme : String) : Nat :=
  if lexeme = "^" then 5
  else if lexeme = negation then 4
  else if lexeme = "*" ∨ lexeme = "/" ∨ lexeme = "//" ∨ lexeme = "%" then 3
  else if lexeme = "+" ∨ lexeme = "-" then 2
  else 0

/-- What closes an opening bracket. -/
def closingOf (opening : String) : String :=
  if opening = "(" then ")" else if opening = "[" then "]" else ""

/-! ## From infix to postfix -/

/-- The tokens put out so far, last one first, the waiting operators and opening
brackets, and the class of the token before; an illegal one stands for none. -/
structure Yard where
  output : List Token
  stack : List Token
  before : TokenClass

namespace Yard

def empty : Yard := ⟨[], [], .illegal⟩

/-- Moves the operators above the innermost opening bracket to the output. -/
def unstack : List Token → List Token → List Token × List Token
  | output, [] => (output, [])
  | output, op :: stack =>
    if op.cls = .opening then (output, op :: stack) else unstack (op :: output) stack

/-- Moves the operators on top that bind at least as strong as `level`. -/
def release (level : Nat) : List Token → List Token → List Token × List Token
  | output, [] => (output, [])
  | output, op :: stack =>
    if op.cls = .opening ∨ precedence op.lexeme < level then (output, op :: stack)
    else release level (op :: output) stack

/-- Does an operand end here, so that an operator has to follow? -/
def afterOperand (y : Yard) : Bool := y.before = .number || y.before = .closing

/-- Does an operand start here, so that `-` and `+` are signs? -/
def atOperand (y : Yard) : Bool :=
  y.before = .illegal || y.before = .operator || y.before = .opening

def close (y : Yard) (t : Token) : Except Error Yard :=
  match unstack y.output y.stack with
  | (_, []) => .error (.unbalancedClosing t.lexeme t.pos)
  | (output, op :: stack) =>
    if closingOf op.lexeme = t.lexeme then .ok ⟨output, stack, t.cls⟩
    else .error (.bracketMismatch t.lexeme t.pos op.lexeme)

def sign (y : Yard) (t : Token) : Except Error Yard :=
  if t.lexeme = "-" then
    .ok { y with stack := { t with lexeme := negation } :: y.stack, before := t.cls }
  else if t.lexeme = "+" then .ok { y with before := t.cls }
  else .error (.operandMissingBefore t.lexeme)

def operator (y : Yard) (t : Token) : Yard :=
  let (output, stack) := release (precedence t.lexeme) y.output y.stack
  ⟨output, t :: stack, t.cls⟩

def feed (y : Yard) (t : Token) : Except Error Yard :=
  match t.cls with
  | .number =>
    if y.afterOperand then .error (.operatorMissingBeforeNumber t.lexeme)
    else .ok { y with output := t :: y.output, before := t.cls }
  | .name => .error (.unknownName t.lexeme)
  | .opening =>
    if y.afterOperand then .error (.operatorMissingBeforeBracket t.lexeme)
    else .ok { y with stack := t :: y.stack, before := t.cls }
  | .closing => y.close t
  | .operator => if y.atOperand then y.sign t else .ok (y.operator t)
  | .endOfText | .illegal => .error (.invalidToken t.lexeme)

def finish (y : Yard) : Except Error (List Token) :=
  match unstack y.output y.stack with
  | (output, []) => .ok output.reverse
  | (_, _ :: _) => .error .unbalancedOpening

end Yard

/-- The tokens in postfix order. Names must have been replaced by numbers before. -/
def toPostfix (tokens : List Token) : Except Error (List Token) := do
  let y ← tokens.foldlM Yard.feed Yard.empty
  y.finish

/-! ## Evaluation -/

def applyOperator (lexeme : String) (a b : Float) : Except Error Float :=
  if lexeme = "+" then .ok (a + b)
  else if lexeme = "-" then .ok (a - b)
  else if lexeme = "*" then .ok (a * b)
  else if lexeme = "/" then
    if b == 0 then .error .divisionByZero else .ok (a / b)
  else if lexeme = "//" then
    if b == 0 then .error .integerDivisionByZero else .ok (Number.floor (a / b))
  else if lexeme = "%" then
    if b == 0 then .error .moduloByZero else .ok (Number.remainder a b)
  else if lexeme = "^" then .ok (Number.pow a b)
  else .error (.unknownOperator lexeme)

/-- One postfix token on a stack of values, the last value first. -/
def evalToken (stack : List Float) (t : Token) : Except Error (List Float) :=
  if t.cls = .number then .ok (t.value :: stack)
  else if t.lexeme = negation then
    match stack with
    | a :: rest => .ok (-a :: rest)
    | [] => .error (.operandMissingFor "-")
  else match stack with
    | b :: a :: rest => (applyOperator t.lexeme a b).map (· :: rest)
    | _ => .error (.operandMissingFor t.lexeme)

/-- The value of a sequence of postfix tokens, which is finite. -/
def evalPostfix (tokens : List Token) : Except Error Float := do
  match ← tokens.foldlM evalToken [] with
  | [v] => if Number.isFinite v then .ok v else .error .invalidResult
  | _ => .error .malformedExpression

/-- Postfix tokens as text, numbers by their values. -/
def postfixText (tokens : List Token) : String :=
  " ".intercalate (tokens.map fun t => if t.cls = .number then Number.format t.value else t.lexeme)

end Flowchart.Expr
