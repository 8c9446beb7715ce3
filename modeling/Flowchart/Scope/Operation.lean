import Flowchart.Scope.Scopes

/-!
# Operations on memory

A single change to the memory of a run, and what a sequence of them leads to. A change
that fails leaves the memory as it was.
-/

namespace Flowchart

namespace Scope

inductive Operation where
  | push (name : String)
  | pop
  | unwind (depth : Int)
  | declare (name : String)
  | assignCurrent (name : String) (value : Float)
  | update (name : String) (value : Float)
  | declareArray (name : String) (size : Int)
  | setElement (name : String) (index : Int) (value : Float)
deriving Repr, DecidableEq

end Scope

namespace Scopes

open Scope (Operation)

def apply (s : Scopes) : Operation → Attempt Scopes
  | .push name => .ok (s.push name)
  | .pop => s.pop.mapError .crashed
  | .unwind depth => .ok (s.unwind depth)
  | .declare name => s.declare name
  | .assignCurrent name value => (s.assignCurrent name value).mapError .crashed
  | .update name value => s.update name value
  | .declareArray name size => s.declareArray name size
  | .setElement name index value => s.setElement name index value

/-- The memory after an operation, and why it failed, if it did. -/
def perform (s : Scopes) (o : Operation) : Scopes × Option Abort :=
  match s.apply o with
  | .ok s' => (s', none)
  | .error e => (s, some e)

/-- The memory after operations of which some may fail. -/
def performAll (s : Scopes) (os : List Operation) : Scopes :=
  os.foldl (fun s o => (s.perform o).1) s

@[simp] theorem performAll_nil (s : Scopes) : s.performAll [] = s := rfl

@[simp] theorem performAll_cons (s : Scopes) (o : Operation) (os : List Operation) :
    s.performAll (o :: os) = (s.perform o).1.performAll os := rfl

/-- A property that every operation keeps holds after any number of operations. -/
theorem performAll_induction {P : Scopes → Prop} (step : ∀ s o, P s → P (s.perform o).1)
    (s : Scopes) (os : List Operation) (h : P s) : P (s.performAll os) := by
  induction os generalizing s with
  | nil => exact h
  | cons o os ih => exact ih _ (step s o h)

end Scopes

end Flowchart
