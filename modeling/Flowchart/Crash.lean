import Flowchart.Failure

/-!
# Crashes

Failures are expected and reported. A crash is a step that cannot be taken at all: a
frame of an empty stack, a block that does not exist, storage that cannot be had.
-/

namespace Flowchart

inductive Crash where
  | noCurrentFrame
  | noGlobalFrame
  | noFrameToPop
  /-- A place on the stack that no frame has taken. -/
  | frameMissing
  /-- A handle that leads to no block. -/
  | noBlock
  /-- A block whose fields do not belong to its kind. -/
  | wrongFields
  /-- A position outside of a list. -/
  | outOfRange
  /-- An array that is too large for any memory, or of negative size. -/
  | allocation
deriving Repr, DecidableEq

/-- The words of a crash that explains itself. -/
def Crash.message? : Crash → Option String
  | noCurrentFrame => some "attempt to access memory frame from empty stack"
  | noGlobalFrame => some "attempt to access global memory frame from empty stack"
  | noFrameToPop => some "attempt to pop memory frame from empty call stack"
  | _ => none

/-- Why there is no result. -/
inductive Abort where
  | failed (failure : Failure)
  | crashed (crash : Crash)
deriving Repr, DecidableEq

abbrev Attempt (α : Type) := Except Abort α

namespace Attempt

variable {α : Type}

def fail (cause : Cause) : Attempt α := .error (.failed { cause })

def crash (c : Crash) : Attempt α := .error (.crashed c)

def ofExpr : Except Expr.Error α → Attempt α
  | .ok a => .ok a
  | .error e => fail (.expression e)

/-- Changes the failure, if there is one. -/
def mapFailure (f : Failure → Failure) : Attempt α → Attempt α
  | .ok a => .ok a
  | .error (.failed x) => .error (.failed (f x))
  | .error (.crashed c) => .error (.crashed c)

end Attempt

end Flowchart
