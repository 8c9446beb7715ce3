import Flowchart.Machine.Run

/-!
# Recursive execution

What a program means, said by recursion over its blocks and without tasks: the body of a
loop and the body of a function are carried out by a call, and what comes after them
follows when that call comes back. A failure ends all calls up to the innermost function
call. The recursion need not end, so its depth is bounded by the caller.
-/

namespace Flowchart.Machine

/-! ## Worlds -/

/-- What blocks read and change: a state without its tasks. -/
structure World where
  scopes : Scopes
  calls : List String
  output : Array Message
  failures : Array Failure

/-- Why a path of blocks is not followed to its end. -/
inductive Halt where
  /-- A block failed, and its failure is recorded. -/
  | failed (world : World)
  | crashed (crash : Crash)
  /-- The bound on the recursion was reached. -/
  | unfinished

def State.world (s : State) : World := ⟨s.scopes, s.calls, s.output, s.failures⟩

namespace World

def state (w : World) (tasks : List Task) : State :=
  ⟨tasks, w.scopes, w.calls, w.output, w.failures⟩

def record (w : World) (n : Node) (f : Failure) : World :=
  { w with failures := w.failures.push (f.atBlock n.id) }

def fail {α : Type} (w : World) (n : Node) (f : Failure) : Except Halt α :=
  .error (.failed (w.record n f))

/-- The result of an attempt made for block `n`. -/
def get {α : Type} (w : World) (n : Node) : Attempt α → Except Halt α
  | .ok a => .ok a
  | .error (.failed f) => w.fail n f
  | .error (.crashed c) => .error (.crashed c)

/-! ## Single blocks -/

/-- Carries out a block that neither branches nor calls. -/
def execute (g : Graph) (w : World) (n : Node) : Except Halt World :=
  match executeBlock g (w.state []) n with
  | .ok (s, none) => .ok s.world
  | .ok (s, some f) => s.world.fail n f
  | .error c => .error (.crashed c)

/-- Does the condition of a block hold? -/
def holds (g : Graph) (w : World) (n : Node) : Except Halt Bool :=
  match n.fields with
  | .condition text operator => w.get n (condition g w.scopes n text operator)
  | _ => .error (.crashed .wrongFields)

/-- Does a counting loop go on? Without a condition it does not. -/
def repeats (g : Graph) (w : World) (n : Node) : Except Halt Bool :=
  match n.fields with
  | .forLoop _ text operator _ =>
    if text = "" then .ok false else w.get n (condition g w.scopes n text operator)
  | _ => .error (.crashed .wrongFields)

/-- Opens the scope of a counting loop and carries out its initialization there. -/
def enterLoop (w : World) (n : Node) : Except Halt World :=
  match n.fields with
  | .forLoop init _ _ _ => do
    let opened := { w with scopes := w.scopes.push s!"for {n.id}" }
    if init = "" then .ok opened
    else
      let scopes ← opened.get n
        ((prepare opened.scopes init).mapFailure (·.within "loop initialization"))
      return { w with scopes }
  | _ => .error (.crashed .wrongFields)

/-- Carries out the step of a counting loop. -/
def advance (w : World) (n : Node) : Except Halt World :=
  match n.fields with
  | .forLoop _ _ _ step => do
    if step = "" then .ok w
    else
      let scopes ← w.get n ((Machine.advance w.scopes step).mapFailure (·.within "loop step"))
      return { w with scopes }
  | _ => .error (.crashed .wrongFields)

/-- The function that a block may call, with its name. -/
def callee (p : Program) (w : World) (n : Node) : Except Halt (String × Function) :=
  match n.fields with
  | .function name =>
    if name = "" then w.fail n { cause := .run .calleeMissing }
    else if p.limits.maxCallDepth ≤ w.calls.length then
      w.fail n { cause := .run (.callDepthExceeded p.limits.maxCallDepth) }
    else if w.calls.contains name then w.fail n { cause := .run (.recursiveCall name) }
    else match p.functions.get? name with
      | none => w.fail n { cause := .run (.functionUnknown name) }
      | some f => .ok (name, f)
  | _ => .error (.crashed .wrongFields)

/-- Closes all scopes above the given depth. -/
def close (w : World) (depth : Nat) : World := { w with scopes := w.scopes.unwind depth }

def enterCall (w : World) (name : String) : World :=
  { w with calls := name :: w.calls, scopes := w.scopes.push name }

/-- Closes the scopes of the innermost call, which began at the given depth. -/
def leaveCall (w : World) (depth : Nat) : World := { w.close depth with calls := w.calls.tail }

end World

/-- The block of a handle. -/
def blockAt (p : Program) (h : Handle) : Except Halt Node := (p.graph.node h).mapError .crashed

/-- The caller of a function goes on, whether or not the function failed. -/
def resume (body : Except Halt World) (k : World → Except Halt World) : Except Halt World :=
  match body with
  | .ok w | .error (.failed w) => k w
  | .error halt => .error halt

/-! ## Paths of blocks -/

mutual

/-- Carries out the path that starts at a block, after `k` loop bodies and up to the block
`stop`, by a recursion at most `fuel` deep. -/
def exec (p : Program) : (fuel : Nat) → Option Handle → (k : Nat) → (stop : Option Handle) → World →
    Except Halt World
  | 0, _, _, _, _ => .error .unfinished
  | _ + 1, none, _, _, w => .ok w
  | fuel + 1, some h, k, stop, w => do
    let n ← blockAt p h
    if p.limits.maxIterations < k then
      w.fail n { cause := .run (.iterationsExceeded p.limits.maxIterations) }
    else if some h = stop then .ok w
    else match n.kind with
      | .start | .functionStart | .functionEnd | .arithmetic | .arrayElement =>
        exec p fuel n.next k stop w
      | .declaration | .assignment | .output | .arrayDeclaration | .arrayAssignment => do
        let w ← w.execute p.graph n
        exec p fuel n.next k stop w
      | .unknown => w.fail n { cause := .graph (.unknownType n.type) }
      | .stop => .ok w
      | .branch => do
        let holds ← w.holds p.graph n
        exec p fuel (if holds then n.onTrue else n.onFalse) k stop w
      | .whileLoop => do
        let holds ← w.holds p.graph n
        if holds then
          match n.onTrue with
          | some body => do
            let w ← exec p fuel (some body) (k + 1) stop w
            exec p fuel (some h) (k + 1) stop w
          | none => .ok w
        else exec p fuel n.onFalse k stop w
      | .forLoop => do
        let entered ← w.enterLoop n
        execLoop p fuel n k stop w.scopes.depth entered
      | .functionCall => do
        let (name, f) ← w.callee p n
        let first ← blockAt p f.start
        resume (exec p fuel first.next 0 (some f.stop) (w.enterCall name)) fun body =>
          exec p fuel n.next k stop (body.leaveCall w.scopes.depth)

/-- Runs the counting loop `n` after `j` loop bodies; its scope was opened at `depth`. -/
def execLoop (p : Program) :
    (fuel : Nat) → Node → (j : Nat) → (stop : Option Handle) → (depth : Nat) →
    World → Except Halt World
  | 0, _, _, _, _, _ => .error .unfinished
  | fuel + 1, n, j, stop, depth, w => do
    if p.limits.maxIterations < j then
      w.fail n { cause := .run (.iterationsExceeded p.limits.maxIterations) }
    else
      let repeats ← w.repeats p.graph n
      if repeats then
        let body ← exec p fuel n.onTrue (j + 1) stop w
        let advanced ← body.advance n
        execLoop p fuel n (j + 1) stop depth advanced
      else exec p fuel n.onFalse j stop (w.close depth)

end

/-- Carries out a program from its start block. A failure outside of all calls ends it, and
closes all scopes but the global one. -/
def runRecursive (p : Program) (fuel : Nat) (start : Handle) (failures : List Failure) :
    Except Crash (Option World) :=
  match exec p fuel (some start) 0 none ⟨Scopes.initial, [], #[], failures.toArray⟩ with
  | .ok w => .ok (some w)
  | .error (.failed w) => .ok (some (w.close 1))
  | .error (.crashed c) => .error c
  | .error .unfinished => .ok none

end Flowchart.Machine
