import Flowchart.Failure.Kind

/-!
# Errors of scopes

What can go wrong when variables and arrays are declared, read and changed.
-/

namespace Flowchart.Scope

inductive Error where
  | variableNameMissing
  | variableExists (name : String)
  | variableUndeclared (name : String)
  | arrayNameMissing
  | arraySizeNotPositive (size : Int)
  | arrayExists (name : String)
  | arrayUndeclared (name : String)
  | indexOutOfBounds (index : Int) (name : String) (size : Int)
deriving Repr, DecidableEq

namespace Error

def kind : Error → FailureKind
  | variableNameMissing | variableExists _ | arrayNameMissing | arraySizeNotPositive _
  | arrayExists _ => .declaration
  | variableUndeclared _ | arrayUndeclared _ => .reference
  | indexOutOfBounds .. => .bounds

def message : Error → String
  | variableNameMissing => "variable name missing"
  | variableExists name => s!"variable '{name}' already exists in the current scope"
  | variableUndeclared name => s!"variable '{name}' is not declared"
  | arrayNameMissing => "array name missing"
  | arraySizeNotPositive size => s!"array size must be a positive number, is {size}"
  | arrayExists name => s!"array '{name}' already exists"
  | arrayUndeclared name => s!"array '{name}' is not declared"
  | indexOutOfBounds index name size =>
    s!"index {index} is out of bounds for array '{name}' (size {size})"

end Error

end Flowchart.Scope
