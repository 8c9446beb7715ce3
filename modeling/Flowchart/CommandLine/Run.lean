import Flowchart.CommandLine.Options
import Flowchart.Session.Basic

/-!
# The command line

With a file as an argument the program in it is displayed, validated or run; without one
a session reads commands line by line.
-/

namespace Flowchart.CommandLine

/-- What is put out, and the exit code. -/
structure Outcome where
  output : String
  exit : Nat
deriving Repr, DecidableEq

def success : Nat := 0

/-- Problems in the program, or failures of its run. -/
def failure : Nat := 1

/-- Wrong arguments, a file that cannot be loaded, or a crash. -/
def trouble : Nat := 2

/-- A new session within the limits that the options state. -/
def session (fuel : Nat) (o : Options) : Session :=
  { interpreter := { limits := Limits.standard.adjust o.limits, fuel } }

/-! ## Programs in files -/

/-- Validates or runs the program of a session. -/
def process (s : Session) (o : Options) : Outcome :=
  if o.check then
    let problems := Graph.problems s.records
    ⟨Session.problemDisplay problems, if problems.isEmpty then success else failure⟩
  else
    let reply := s.run
    match reply.ending, reply.session.last with
    | .done, some r => ⟨reply.output, if r.success then success else failure⟩
    | _, _ => ⟨reply.output, trouble⟩

def runFile (fuel : Nat) (files : Files) (o : Options) (path : String) : Outcome :=
  match (session fuel o).load files path with
  | .error e => ⟨Display.error e.message, trouble⟩
  | .ok s =>
    let tree := if o.tree then Session.treeDisplay s.records else ""
    let outcome := process s o
    { outcome with output := tree ++ outcome.output }

/-! ## Sessions -/

def welcome : String :=
  Display.info "Welcome to blockrun. Enter 'help' for a list of commands, quit with <ctrl>D"

/-- What happens at a line of a session. -/
structure Turn where
  session : Session
  output : String := ""
  saved : Option (String × String) := none
  /-- The exit code, if the session ends here. -/
  exit : Option Nat := none

/-- Takes one line. Blank ones are passed over, and errors are displayed. -/
def turn (files : Files) (s : Session) (line : String) : Turn :=
  if Text.isBlankText line then { session := s }
  else
    let reply := s.eval files line
    let next : Turn := { session := reply.session, output := reply.output, saved := reply.saved }
    match reply.ending with
    | .done => next
    | .quit => { next with exit := some success }
    | .failed e => { next with output := reply.output ++ Display.error e.message }
    | .crashed _ | .unfinished => { next with exit := some trouble }

/-- Takes lines until a command ends the session. -/
def converse (d : Directory) (s : Session) : List String → Outcome
  | [] => ⟨"", success⟩
  | line :: lines =>
    let t := turn d.files s line
    match t.exit with
    | some code => ⟨t.output, code⟩
    | none =>
      let d := match t.saved with
        | some (path, text) => d.write path text
        | none => d
      let rest := converse d t.session lines
      { rest with output := t.output ++ rest.output }

/-! ## The whole command -/

/-- The command with its files and its input at hand. -/
def run (fuel : Nat) (d : Directory) (args : List String) (input : String) : Outcome :=
  match parse args with
  | .help => ⟨"", success⟩
  | .malformed => ⟨"", trouble⟩
  | .start o (path :: _) => runFile fuel d.files o path
  | .start o [] =>
    let lines := (input.split fun c => c == '\n' || c == '\r').toList.map (·.toString)
    let outcome := converse d (session fuel o) lines
    { outcome with output := welcome ++ outcome.output }

end Flowchart.CommandLine
