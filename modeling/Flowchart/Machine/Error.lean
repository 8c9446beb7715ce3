import Flowchart.Failure.Kind

/-!
# Errors of runs

What a run reports beyond the errors of expressions, scopes and graphs: functions,
calls, ceilings and array sizes.
-/

namespace Flowchart.Machine

inductive Error where
  | functionNameMissing
  | functionEndMissing (name : String)
  | functionExists (name : String)
  | calleeMissing
  | functionUnknown (name : String)
  | callDepthExceeded (limit : Nat)
  | recursiveCall (name : String)
  | iterationsExceeded (limit : Nat)
  | arraySizeMissing
  | arraySizeInvalid (text : String)
  | notExecutable (type : String)
deriving Repr, DecidableEq

namespace Error

def kind : Error → FailureKind
  | functionNameMissing | functionExists _ | calleeMissing | arraySizeMissing
  | arraySizeInvalid _ => .declaration
  | functionEndMissing _ => .linkage
  | functionUnknown _ => .reference
  | callDepthExceeded _ | recursiveCall _ => .recursion
  | iterationsExceeded _ => .iterationLimit
  | notExecutable _ => .graph

def message : Error → String
  | functionNameMissing => "function name missing"
  | functionEndMissing name => s!"no end block found for function '{name}'"
  | functionExists name => s!"function '{name}' is already declared"
  | calleeMissing => "name of function to call missing"
  | functionUnknown name => s!"function '{name}' not found"
  | callDepthExceeded limit => s!"maximum depth of function calls ({limit}) exceeded"
  | recursiveCall name => s!"recursive call of function '{name}'"
  | iterationsExceeded limit =>
    s!"iteration limit of {limit} exceeded, possibly an endless loop"
  | arraySizeMissing => "array size missing"
  | arraySizeInvalid text => s!"array size must be a positive integer, is '{text}'"
  | notExecutable type => s!"cannot execute {type} block"

end Error

end Flowchart.Machine
