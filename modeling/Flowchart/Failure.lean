import Flowchart.Expr.Error
import Flowchart.Graph.Error
import Flowchart.Machine.Error
import Flowchart.Scope.Error
import Flowchart.Workspace.Error

/-!
# Failures

Everything that goes wrong while a program is edited or run: what the cause is, in
which context it arose, and which blocks it is attributed to.
-/

namespace Flowchart

inductive Cause where
  | expression (error : Expr.Error)
  | scope (error : Scope.Error)
  | graph (error : Graph.Error)
  | edit (error : Workspace.Error)
  | run (error : Machine.Error)
  /-- Stated by the host. -/
  | stated (kind : FailureKind) (reason : Reason) (text : String)
deriving Repr, DecidableEq

namespace Cause

def kind : Cause → FailureKind
  | expression _ => .expression
  | scope e => e.kind
  | graph e => e.kind
  | edit _ => .linkage
  | run e => e.kind
  | stated k _ _ => k

/-- Only failed expressions have a reason, unless the host states one. -/
def reason : Cause → Reason
  | expression e => e.reason
  | stated _ r _ => r
  | _ => .unspecified

def message : Cause → String
  | expression e => e.message
  | scope e => e.message
  | graph e => e.message
  | edit e => e.message
  | run e => e.message
  | stated _ _ text => text

end Cause

/-- `node` is the block a failure is attributed to, `source` the data block in which it
arose, if that is another one. The contexts are the outermost first. -/
structure Failure where
  cause : Cause
  context : List String := []
  node : String := ""
  source : String := ""
deriving Repr, DecidableEq

namespace Failure

def kind (f : Failure) : FailureKind := f.cause.kind

def reason (f : Failure) : Reason := f.cause.reason

/-- The message of the cause behind its contexts. -/
def message (f : Failure) : String :=
  f.context.foldr (fun context text => s!"{context}: {text}") f.cause.message

/-- Attributes a failure to a block, unless it is attributed already. -/
def atBlock (f : Failure) (id : String) : Failure :=
  if f.node = "" then { f with node := id } else f

/-- Names the data block a failure arose in, unless one is named already. -/
def fromBlock (f : Failure) (id : String) : Failure :=
  if f.source = "" then { f with source := id } else f

/-- Puts a failure into a context; all else is kept. -/
def within (f : Failure) (context : String) : Failure :=
  { f with context := context :: f.context }

@[simp] theorem kind_atBlock (f : Failure) (id : String) : (f.atBlock id).kind = f.kind := by
  unfold Failure.atBlock; split <;> rfl

@[simp] theorem kind_within (f : Failure) (c : String) : (f.within c).kind = f.kind := rfl

end Failure

end Flowchart
