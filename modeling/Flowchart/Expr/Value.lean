import Flowchart.Expr.Postfix
import Flowchart.Text.Blank
import Flowchart.Token.Scan

/-!
# Values of texts

The value of an arithmetic expression, and of a simple operand, which is a variable
name or a number.
-/

namespace Flowchart.Expr

/-- Gives the values of the names that are known. -/
abbrev Resolver := String → Option Float

/-- The resolver that knows no name. -/
def noNames : Resolver := fun _ => none

/-- Names that are known become numbers; the others are left in place. -/
def substitute (resolve : Resolver) (tokens : List Token) : List Token :=
  tokens.map fun t =>
    if t.cls = .name then
      match resolve t.lexeme with
      | some v => ⟨.number, t.lexeme, v, t.pos⟩
      | none => t
    else t

/-- The postfix order of an expression. -/
def postfixOf (resolve : Resolver) (text : String) : Except Error (List Token) := do
  let tokens ← Token.tokenize text
  toPostfix (substitute resolve tokens)

def eval (resolve : Resolver) (text : String) : Except Error Float := do
  if Text.isBlankText text then .error .expressionMissing
  else evalPostfix (← postfixOf resolve text)

/-- A name wins over a number of the same spelling. -/
def simple (resolve : Resolver) (text : String) : Except Error Float :=
  let text := Text.trim text
  if text = "" then .error .valueMissing
  else match resolve text with
    | some v => .ok v
    | none =>
      match Number.literal? text with
      | none => .error (.invalidValue text)
      | some v => if Number.isFinite v then .ok v else .error (.infiniteValue text)

/-! ## Conditions -/

/-- A comparison in textual form. -/
structure Condition where
  left : String
  operator : String
  right : String
deriving Repr, DecidableEq

namespace Condition

/-- Three words: left operand, operator, right operand. An operator given apart wins
over the one in the text, and without any the test is for equality. -/
def parse (text operator : String) : Condition :=
  let words := Text.words text
  let given := Text.trim operator
  let chosen := if given = "" then words.getD 1 "" else given
  { left := words.getD 0 ""
    operator := if chosen = "" then "==" else chosen
    right := words.getD 2 "" }

def text (c : Condition) : String := s!"{c.left} {c.operator} {c.right}"

end Condition

def compare (operator : String) (left right : Float) : Except Error Bool :=
  if operator = "<" then .ok (left < right)
  else if operator = ">" then .ok (left > right)
  else if operator = "==" then .ok (left == right)
  else if operator = "!=" then .ok (left != right)
  else if operator = "<=" then .ok (left ≤ right)
  else if operator = ">=" then .ok (left ≥ right)
  else .error (.unknownComparison operator)

/-! ## Assignment statements -/

/-- A statement `name = expression`. -/
structure Assignment where
  name : String
  expression : String
deriving Repr, DecidableEq

def Assignment.parse (statement : String) : Except Error Assignment :=
  match Text.split '=' statement with
  | [left, right] =>
    let name := Text.trim left
    if name = "" then .error (.invalidAssignment statement) else .ok ⟨name, Text.trim right⟩
  | _ => .error (.invalidAssignment statement)

end Flowchart.Expr
