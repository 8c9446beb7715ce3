import Flowchart.Block.Record
import Flowchart.Text.Blank

/-!
# Fields

The texts of a block that matter for its kind. Texts that name something are trimmed;
texts that are evaluated or shown are kept as they are.
-/

namespace Flowchart

inductive Fields where
  | none
  | declaration (names : String)
  | assignment (target value : String)
  | arithmetic (expression : String)
  | condition (condition operator : String)
  | forLoop (init condition operator step : String)
  | output (expression : String)
  | function (name : String)
  | arrayDeclaration (array size : String)
  | arrayAssignment (array index value : String)
  | arrayElement (array index : String)
deriving Repr, DecidableEq

namespace Fields

def of (k : BlockKind) (d : Data) : Fields :=
  match k with
  | .declaration => .declaration d.variableName
  | .assignment => .assignment (Text.trim d.variableName) d.value
  | .arithmetic => .arithmetic d.expression
  | .branch | .whileLoop => .condition d.condition d.operator
  | .forLoop =>
    .forLoop (Text.trim d.initialization) (Text.trim d.condition) d.operator
      (Text.trim d.iteration)
  | .output => .output d.expression
  | .functionStart | .functionCall => .function (Text.trim d.functionName)
  | .arrayDeclaration => .arrayDeclaration (Text.trim d.arrayName) (Text.trim d.arraySize)
  | .arrayAssignment =>
    .arrayAssignment (Text.trim d.arrayName) (Text.trim d.arrayIndex) (Text.trim d.value)
  | .arrayElement => .arrayElement (Text.trim d.arrayName) (Text.trim d.arrayIndex)
  | .unknown | .start | .stop | .functionEnd => .none

end Fields

/-- The names in a list separated by commas; empty entries are dropped. -/
def nameList (names : String) : List String :=
  ((Text.split ',' names).map Text.trim).filter (· ≠ "")

end Flowchart
