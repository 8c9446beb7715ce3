import Flowchart.Document.Writer
import Flowchart.Graph.Validation
import Flowchart.Machine.Run
import Flowchart.Session.Command
import Flowchart.Session.Files
import Flowchart.Session.Outline

/-!
# Sessions

A program that is edited, displayed and run by one command after the other. A command that
fails leaves the session as it was.
-/

namespace Flowchart

/-- The program, its name, and the result of the last run. -/
structure Session where
  interpreter : Interpreter
  workspace : Workspace := .empty
  name : String := ""
  last : Option Result := none

namespace Session

inductive Error where
  | usage (error : Command.Error)
  | edit (failure : Failure)
  | file (error : FileError)
  | document (error : Document.DecodeError)
deriving Repr, DecidableEq

def Error.message : Error → String
  | usage e => e.message
  | edit f => f.message
  | file e => e.message
  | document e => e.message

/-- How a command ends. -/
inductive Ending where
  | done
  | quit
  | failed (error : Error)
  | crashed (crash : Crash)
  /-- A run has reached the bound on its steps. -/
  | unfinished
deriving Repr, DecidableEq

/-- The session after a command, what the command displays, and the file it writes. A file that
could be opened but not written is `spoiled`: it holds only so much of its text. -/
structure Reply where
  session : Session
  output : String := ""
  ending : Ending := .done
  saved : Option (String × String) := none
  spoiled : Option (String × String) := none

/-! ## Displays -/

/-- Where and why something failed. -/
def describe (kind : FailureKind) (place message : String) : String :=
  if place = "" then s!"{kind.name}: {message}" else s!"{kind.name} at [{place}]: {message}"

/-- The texts of a block that are set. -/
def fieldSummary (d : Data) : String :=
  ", ".intercalate ((d.named.filter (·.2 ≠ "")).map fun (name, value) => s!"{name}={value}")

/-- The inputs of a block that are bound. -/
def inputSummary (r : Record) : String :=
  ", ".intercalate <| (Slot.all.filter (r.input · ≠ "")).map fun s => s!"{s.label}<-{r.input s}"

def blockTable (records : List Record) : String :=
  Display.table <| ["ID", "Type", "Fields", "Next", "True", "False", "Inputs"] ::
    records.map fun r =>
      [r.id, r.type, fieldSummary r.data, r.next, r.onTrue, r.onFalse, inputSummary r]

def variableTable (r : Result) : String :=
  if r.vars.isEmpty then ""
  else Display.table <| ["Variable", "Value"] ::
    r.vars.map fun (name, value) => [name, Number.format value]

def arrayTable (r : Result) : String :=
  if r.arrays.isEmpty then ""
  else Display.table <| ["Array", "Size", "Elements"] :: r.arrays.map fun (name, a) =>
    [name, toString a.size, " ".intercalate (a.elements.toList.map Number.format)]

/-- The variables and arrays that a run has left behind. -/
def stateDisplay (r : Result) : String := variableTable r ++ arrayTable r

/-- The block of a failure, and the data block it arose in. -/
def place (f : Failure) : String :=
  if f.source = "" then f.node else s!"{f.node} <- {f.source}"

/-- The output of a run, its failures, and the state at its end. -/
def resultDisplay (r : Result) : String :=
  String.join (r.lines.map Display.info) ++
    String.join (r.failures.map fun f => Display.error (describe f.kind (place f) f.message)) ++
    stateDisplay r

/-- The problems of a program, or that there are none. -/
def problemDisplay (problems : List Failure) : String :=
  if problems.isEmpty then Display.info "program is valid"
  else String.join (problems.map fun f => Display.error (describe f.kind f.node f.message))

/-- The control flow of a program. -/
def treeDisplay (records : List Record) : String :=
  match Graph.build records with
  | .error f => Display.error f.message
  | .ok g =>
    match Outline.treeItems g with
    | [] => Display.info "no start block"
    | items => Display.tree items

/-! ## Actions -/

def records (s : Session) : List Record := s.workspace.records

/-- The session goes on, and displays something. -/
def shows (s : Session) (output : String) : Reply := { session := s, output }

def fails (s : Session) (e : Error) : Reply := { session := s, ending := .failed e }

/-- Changes the workspace, unless it refuses the change. -/
def edit (s : Session) (e : Edit) : Reply :=
  match s.workspace.apply e with
  | .ok workspace => { session := { s with workspace } }
  | .error f => s.fails (.edit f)

/-- A path without the ending of program files. -/
def programName (path : String) : String :=
  let ending := ".yaml".toList
  let cs := path.toList
  if ending.isSuffixOf cs then String.ofList (cs.take (cs.length - ending.length)) else path

def load (s : Session) (files : Files) (path : String) : Except Error Session := do
  let text ← (files.read path).mapError .file
  let records ← (Document.decode text).mapError .document
  let workspace ← (Workspace.ofRecords records).mapError .edit
  return { s with workspace, name := programName path }

def save (s : Session) (files : Files) (path : String) : Reply :=
  let text := Document.encode s.name s.records
  match files.write path text with
  | .complete => { session := s, saved := some (path, text) }
  | .refused e => s.fails (.file e)
  | .broken e kept => { s.fails (.file e) with spoiled := some (path, kept) }

/-- Replaces one text of a block. -/
def setField (s : Session) (id field text : String) : Reply :=
  match s.workspace.block? id with
  | none => s.fails (.usage (.unknownBlock id))
  | some r =>
    match r.data.set? field text with
    | none => s.fails (.usage (.unknownField field))
    | some data => s.edit (.update id data)

/-- Runs the program and keeps the result. -/
def run (s : Session) : Reply :=
  match s.interpreter.execute s.records with
  | .finished r => { session := { s with last := some r }, output := resultDisplay r }
  | .crashed c => { session := s, ending := .crashed c }
  | .unfinished => { session := s, ending := .unfinished }

def perform (files : Files) (s : Session) : Command → Reply
  | .help => s.shows (Display.table Command.summary)
  | .quit => { session := s, ending := .quit }
  | .load path =>
    match s.load files path with
    | .ok loaded => { session := loaded }
    | .error e => s.fails e
  | .save path => s.save files path
  | .edit change => s.edit change
  | .set id field text => s.setField id field text
  | .list => s.shows (blockTable s.records)
  | .tree => s.shows (treeDisplay s.records)
  | .check => s.shows (problemDisplay (Graph.problems s.records))
  | .run => s.run
  | .vars =>
    match s.last with
    | some r => s.shows (stateDisplay r)
    | none => s.fails (.usage .nothingRun)

/-- The command of a line; a blank line has none. -/
def command? (line : String) : Option (Except Command.Error Command) :=
  match Text.words line with
  | [] => none
  | name :: args => some (Command.parse name args)

/-- Carries out a line. A blank line cannot be carried out. -/
def eval (files : Files) (s : Session) (line : String) : Reply :=
  match command? line with
  | none => { session := s, ending := .crashed .outOfRange }
  | some (.error e) => s.fails (.usage e)
  | some (.ok c) => s.perform files c

end Session

end Flowchart
