import Flowchart.Expr.Value
import Flowchart.Graph.Basic
import Flowchart.Scope.Scopes

/-!
# Evaluation of inputs

The values a block works on. An input slot that is bound takes the value of the data
block bound to it, which may have inputs of its own; otherwise the text of the block
counts. Failures inside of data blocks name the block in which they arose.
-/

namespace Flowchart.Machine

/-- Turns an operation that can only crash into an attempt. -/
def attempt {α : Type} : Except Crash α → Attempt α
  | .ok a => .ok a
  | .error c => Attempt.crash c

def resolver (s : Scopes) : Expr.Resolver := s.value?

/-- The value of the data block `h`, whose chain of inputs may be `fuel` blocks long. As
no chain without a cycle is longer than the number of blocks, running out means a cycle. -/
def value (g : Graph) (s : Scopes) : Nat → Handle → Attempt Float
  | 0, h => do
    let n ← attempt (g.node h)
    (Attempt.fail (.graph .inputCycle)).mapFailure (·.fromBlock n.id)
  | fuel + 1, h => do
    let n ← attempt (g.node h)
    Attempt.mapFailure (·.fromBlock n.id) <|
      match n.fields with
      | .arithmetic expression =>
        (Attempt.ofExpr (Expr.eval (resolver s) expression)).mapFailure (·.within "expression")
      | .arrayElement array index => do
        if array = "" then Attempt.fail (.scope .arrayNameMissing)
        else
          let i ← match n.input .index with
            | some producer => value g s fuel producer
            | none => Attempt.ofExpr (Expr.simple (resolver s) index)
          s.element array (Number.floorInt i)
      | _ => Attempt.fail (.graph (.noValue n.type))

/-- The value of an input slot of a block, or of a text if the slot is not bound. -/
def operand (g : Graph) (s : Scopes) (n : Node) (slot : Slot) (text : String) : Attempt Float :=
  match n.input slot with
  | some producer => value g s g.size producer
  | none => Attempt.ofExpr (Expr.simple (resolver s) text)

/-- An array index is rounded down. -/
def arrayIndex (g : Graph) (s : Scopes) (n : Node) (text : String) : Attempt Int := do
  return Number.floorInt (← operand g s n .index text)

/-- Whether a comparison holds. -/
def condition (g : Graph) (s : Scopes) (n : Node) (text operator : String) : Attempt Bool := do
  let c := Expr.Condition.parse text operator
  let left ← operand g s n .left c.left
  let right ← operand g s n .right c.right
  Attempt.ofExpr (Expr.compare c.operator left right)

/-- The text of an output block: a value, or the expression itself if it has none. -/
def outputText (g : Graph) (s : Scopes) (n : Node) (expression : String) : Attempt String :=
  match n.input .value with
  | some producer => (value g s g.size producer).map Number.format
  | none =>
    if Text.isBlankText expression then Attempt.fail (.expression .outputMissing)
    else match Expr.eval (resolver s) expression with
      | .ok v => .ok (Number.format v)
      | .error _ => .ok expression

/-! ## Statements of counting loops -/

/-- The initialization may create its variable, in the current frame. -/
def prepare (s : Scopes) (statement : String) : Attempt Scopes := do
  let a ← Attempt.ofExpr (Expr.Assignment.parse statement)
  let v ← Attempt.ofExpr (Expr.eval (resolver s) a.expression)
  attempt (s.assignCurrent a.name v)

/-- The variable of a step has to exist. -/
def advance (s : Scopes) (statement : String) : Attempt Scopes := do
  let a ← Attempt.ofExpr (Expr.Assignment.parse statement)
  if (s.value? a.name).isNone then Attempt.fail (.scope (.variableUndeclared a.name))
  else
    let v ← Attempt.ofExpr (Expr.eval (resolver s) a.expression)
    s.update a.name v

end Flowchart.Machine
