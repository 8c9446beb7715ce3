import Flowchart.Fingerprint.Serial
import Flowchart.Machine.Step

/-!
# Runs

A run starts at the start block and makes steps until no task is left. Programs without
loop blocks on a cycle of links would run forever, so the number of steps is bounded by
the caller.
-/

namespace Flowchart.Machine

/-- At most `fuel` steps from a state; nothing if that is not enough. -/
def steps (p : Program) : Nat → State → Except Crash (Option State)
  | 0, _ => .ok none
  | fuel + 1, s => do
    match ← step p s with
    | none => return some s
    | some s' => steps p fuel s'

/-- The state before the first step. -/
def State.initial (start : Handle) (failures : List Failure) : State :=
  { tasks := [{ activity := .visit, node := start, iteration := 0, stop := none }]
    scopes := Scopes.initial
    calls := []
    output := #[]
    failures := failures.toArray }

end Flowchart.Machine

namespace Flowchart

/-! ## Results -/

/-- What a run leaves behind: variables, arrays, failures and output in the order in which
they came about, and the functions that were found. -/
structure Result where
  vars : List (String × Float) := []
  arrays : List (String × Scope.NumberArray) := []
  failures : List Failure := []
  output : List Machine.Message := []
  functions : List String := []
  fingerprint : String := ""

namespace Result

def success (r : Result) : Bool := r.failures.isEmpty

def lines (r : Result) : List String := r.output.map (·.text)

/-- The failures of a block, also those that arose in it as a data block. -/
def failuresAt (r : Result) (id : String) : List Failure :=
  r.failures.filter fun f => f.node == id || f.source == id

def value? (r : Result) (name : String) : Option Float :=
  (r.vars.find? (·.1 = name)).map (·.2)

def arrayNames (r : Result) : List String := r.arrays.map (·.1)

end Result

/-- How a run ends. -/
inductive Run where
  | finished (result : Result)
  | crashed (crash : Crash)
  /-- The bound on the number of steps was reached. -/
  | unfinished

/-- Carries out programs within limits, and within a number of steps. -/
structure Interpreter where
  limits : Limits := Limits.standard
  fuel : Nat

namespace Interpreter

def runGraph (i : Interpreter) (g : Graph) : Except Crash (Option Result) :=
  match g.start with
  | none => .ok (some { failures := [{ cause := .graph .startNotFound }] })
  | some start => do
    let functions ← Machine.Functions.ofGraph g
    let program : Machine.Program := ⟨g, functions.table, i.limits⟩
    match ← Machine.steps program i.fuel (.initial start functions.failures) with
    | none => return none
    | some s =>
      let vars ← s.scopes.vars
      let arrays ← s.scopes.arrays
      return some
        { vars
          arrays
          failures := s.failures.toList
          output := s.output.toList
          functions := functions.table.keys }

/-- Runs a program. All problems are reported in the result; records that form no graph, or
one without a start, are not run at all. -/
def execute (i : Interpreter) (records : List Record) : Run :=
  let result : Except Crash (Option Result) :=
    match Graph.build records with
    | .error f => .ok (some { failures := [f] })
    | .ok g => i.runGraph g
  match result with
  | .ok (some r) => .finished { r with fingerprint := fingerprint records }
  | .ok none => .unfinished
  | .error c => .crashed c

end Interpreter

end Flowchart
