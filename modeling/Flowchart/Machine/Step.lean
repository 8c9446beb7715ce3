import Flowchart.Machine.Evaluate
import Flowchart.Machine.Functions
import Flowchart.Machine.Limits

/-!
# The machine

A run keeps a stack of pending tasks instead of recursing into loop and function bodies:
visiting a block schedules the tasks of its successors, the one to run next on top. One
step takes the topmost task and carries it out.
-/

namespace Flowchart.Machine

/-! ## States -/

inductive Activity where
  /-- Carry out a block and schedule what follows. -/
  | visit
  /-- Test the condition of a counting loop. -/
  | check
  /-- Carry out the step of a counting loop. -/
  | step
  /-- Leave a function body. -/
  | leave
deriving Repr, DecidableEq

/-- `iteration` counts loop bodies on the path that leads to the task, `stop` is the end of
the function body it belongs to, and `depth` the scope depth to go back to when a loop or
function is left. Counts are meant to stay below 2 ^ 63, and none of them wraps around. -/
structure Task where
  activity : Activity
  node : Handle
  iteration : Nat
  stop : Option Handle
  depth : Nat := 0
deriving Repr, DecidableEq

/-- A line of output, with the block that put it out. -/
structure Message where
  node : String
  text : String
deriving Repr, DecidableEq

/-- Tasks and calls are stacks, the topmost first. -/
structure State where
  tasks : List Task
  scopes : Scopes
  calls : List String
  output : Array Message
  failures : Array Failure

/-- What stays the same in a run. -/
structure Program where
  graph : Graph
  functions : Table Function
  limits : Limits

/-- The state after a task, and the failure if the task failed. -/
abbrev Effect := Except Crash (State × Option Failure)

namespace State

def done (s : State) : Effect := .ok (s, none)

def failing (s : State) (cause : Cause) : Effect := .ok (s, some { cause })

/-- Goes on with the result of an attempt, or fails in state `s`. -/
def after {α : Type} (s : State) (r : Attempt α) (next : α → Effect) : Effect :=
  match r with
  | .ok a => next a
  | .error (.failed f) => .ok (s, some f)
  | .error (.crashed c) => .error c

def schedule (s : State) (t : Task) : State := { s with tasks := t :: s.tasks }

/-- Schedules a visit; without a block there is nothing to visit. -/
def visitNext (s : State) (h : Option Handle) (iteration : Nat) (stop : Option Handle) : State :=
  match h with
  | some node => s.schedule { activity := .visit, node, iteration, stop }
  | none => s

/-- Schedules a successor on the path of task `t`. -/
def follow (s : State) (h : Option Handle) (t : Task) : State :=
  s.visitNext h t.iteration t.stop

def unwind (s : State) (depth : Nat) : State := { s with scopes := s.scopes.unwind depth }

end State

/-! ## Blocks that neither branch nor call -/

/-- Declares variables one after the other; those before a failing one stay declared. -/
def declareAll (s : State) : List String → Effect
  | [] => s.done
  | name :: rest => s.after (s.scopes.declare name) fun scopes => declareAll { s with scopes } rest

def executeBlock (g : Graph) (s : State) (n : Node) : Effect :=
  match n.fields with
  | .declaration names =>
    match nameList names with
    | [] => s.failing (.scope .variableNameMissing)
    | name :: rest => declareAll s (name :: rest)
  | .assignment target text =>
    if target = "" then s.failing (.scope .variableNameMissing)
    else if (s.scopes.value? target).isNone then
      s.failing (.scope (.variableUndeclared target))
    else
      s.after (operand g s.scopes n .value text) fun v =>
      s.after (s.scopes.update target v) fun scopes => { s with scopes }.done
  | .output expression =>
    s.after (outputText g s.scopes n expression) fun text =>
    { s with output := s.output.push ⟨n.id, text⟩ }.done
  | .arrayDeclaration array size =>
    if array = "" then s.failing (.scope .arrayNameMissing)
    else if size = "" then s.failing (.run .arraySizeMissing)
    else match Number.integer size with
      | .ok count =>
        if count ≤ 0 then s.failing (.run (.arraySizeInvalid size))
        else s.after (s.scopes.declareArray array count) fun scopes => { s with scopes }.done
      | .error _ => s.failing (.run (.arraySizeInvalid size))
  | .arrayAssignment array index text =>
    if array = "" then s.failing (.scope .arrayNameMissing)
    else
      s.after (arrayIndex g s.scopes n index) fun i =>
      s.after (operand g s.scopes n .value text) fun v =>
      s.after (s.scopes.setElement array i v) fun scopes => { s with scopes }.done
  | _ => s.failing (.run (.notExecutable n.type))

/-! ## Counting loops -/

/-- Opens the scope of a loop and carries out its initialization. -/
def enterLoop (s : State) (n : Node) (t : Task) : Effect :=
  match n.fields with
  | .forLoop init _ _ _ =>
    let depth := s.scopes.depth
    let opened := s.scopes.push s!"for {n.id}"
    let prepared : Attempt Scopes :=
      if init = "" then .ok opened
      else (prepare opened init).mapFailure (·.within "loop initialization")
    ({ s with scopes := opened }.unwind depth).after prepared fun scopes =>
      ({ s with scopes }.schedule { t with activity := .check, depth }).done
  | _ => .error .wrongFields

/-- Runs the body once more, or closes the scope of the loop and goes on behind it. -/
def checkLoop (p : Program) (s : State) (t : Task) : Effect := do
  let n ← p.graph.node t.node
  let closed := s.unwind t.depth
  if p.limits.maxIterations < t.iteration then
    closed.failing (.run (.iterationsExceeded p.limits.maxIterations))
  else match n.fields with
    | .forLoop _ text operator _ =>
      let holds := if text = "" then .ok false else condition p.graph s.scopes n text operator
      closed.after holds fun holds =>
        if holds then
          ((s.schedule { t with activity := .step }).visitNext n.onTrue (t.iteration + 1)
            t.stop).done
        else (closed.follow n.onFalse t).done
    | _ => .error .wrongFields

/-- Carries out the step of a loop after its body. -/
def stepLoop (p : Program) (s : State) (t : Task) : Effect := do
  let n ← p.graph.node t.node
  match n.fields with
  | .forLoop _ _ _ step =>
    let advanced : Attempt Scopes :=
      if step = "" then .ok s.scopes
      else (advance s.scopes step).mapFailure (·.within "loop step")
    (s.unwind t.depth).after advanced fun scopes =>
      ({ s with scopes }.schedule { t with activity := .check, iteration := t.iteration + 1 }).done
  | _ => .error .wrongFields

/-! ## Calls -/

/-- Enters a function body in a new scope; the body counts its iterations from zero. -/
def call (p : Program) (s : State) (n : Node) (t : Task) : Effect :=
  match n.fields with
  | .function name =>
    if name = "" then s.failing (.run .calleeMissing)
    else if p.limits.maxCallDepth ≤ s.calls.length then
      s.failing (.run (.callDepthExceeded p.limits.maxCallDepth))
    else if s.calls.contains name then s.failing (.run (.recursiveCall name))
    else match p.functions.get? name with
      | none => s.failing (.run (.functionUnknown name))
      | some f => do
        let first ← p.graph.node f.start
        let depth := s.scopes.depth
        let entered : State :=
          { s with calls := name :: s.calls, scopes := s.scopes.push name }
        ((entered.schedule { t with activity := .leave, depth }).visitNext first.next 0
          (some f.stop)).done
  | _ => .error .wrongFields

/-- Leaves a function: its scope and its place among the calls are given up, and the
caller goes on behind the call. -/
def leaveCall (p : Program) (s : State) (t : Task) : Except Crash State := do
  let n ← p.graph.node t.node
  return { s.unwind t.depth with calls := s.calls.tail }.follow n.next t

/-! ## Visits -/

def branchOn (p : Program) (s : State) (n : Node) (decide : Bool → State) : Effect :=
  match n.fields with
  | .condition text operator =>
    s.after (condition p.graph s.scopes n text operator) fun holds => (decide holds).done
  | _ => .error .wrongFields

/-- A branch never goes on with its next link, and an end block ends its path. -/
def visit (p : Program) (s : State) (t : Task) : Effect := do
  let n ← p.graph.node t.node
  if p.limits.maxIterations < t.iteration then
    s.failing (.run (.iterationsExceeded p.limits.maxIterations))
  else if some t.node = t.stop then s.done
  else match n.kind with
    | .start | .functionStart | .functionEnd | .arithmetic | .arrayElement =>
      (s.follow n.next t).done
    | .stop => s.done
    | .declaration | .assignment | .output | .arrayDeclaration | .arrayAssignment =>
      match ← executeBlock p.graph s n with
      | (s', none) => (s'.follow n.next t).done
      | failed => .ok failed
    | .branch => branchOn p s n fun holds => s.follow (if holds then n.onTrue else n.onFalse) t
    | .whileLoop => branchOn p s n fun holds =>
        if holds then
          match n.onTrue with
          | some body =>
            (s.visitNext (some t.node) (t.iteration + 1) t.stop).visitNext (some body)
              (t.iteration + 1) t.stop
          | none => s
        else s.follow n.onFalse t
    | .forLoop => enterLoop s n t
    | .functionCall => call p s n t
    | .unknown => s.failing (.graph (.unknownType n.type))

/-! ## Steps -/

/-- The innermost pending return from a call, and the tasks below it. -/
def innermostCall : List Task → Option (Task × List Task)
  | [] => none
  | t :: rest => if t.activity = .leave then some (t, rest) else innermostCall rest

/-- Records a failure and gives up the path up to the innermost call, whose caller goes on.
Outside of all calls the run ends. -/
def State.abandon (p : Program) (s : State) (t : Task) (f : Failure) : Except Crash State :=
  let f := match p.graph.node? t.node with
    | some n => f.atBlock n.id
    | none => f
  let s := { s with failures := s.failures.push f }
  match innermostCall s.tasks with
  | some (ret, rest) => leaveCall p { s with tasks := rest } ret
  | none => .ok ({ s with tasks := [] }.unwind 1)

/-- Carries out a task that has been taken off the stack. -/
def perform (p : Program) (s : State) (t : Task) : Effect :=
  match t.activity with
  | .visit => visit p s t
  | .check => checkLoop p s t
  | .step => stepLoop p s t
  | .leave => do (← leaveCall p s t).done

/-- Nothing is left to do in a state without tasks. -/
def step (p : Program) (s : State) : Except Crash (Option State) :=
  match s.tasks with
  | [] => .ok none
  | t :: rest => do
    match ← perform p { s with tasks := rest } t with
    | (s', none) => return some s'
    | (s', some f) => return some (← s'.abandon p t f)

end Flowchart.Machine
