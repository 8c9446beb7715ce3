import Flowchart.CommandLine.Run

/-!
# The program

Connects the command line to standard input and output and to files.
-/

namespace Flowchart.Program

open CommandLine

/-- Runs never come to this number of steps. -/
def stepBound : Nat := Nat.pow 2 60

def openError (path : String) : IO.Error → FileError
  | .noFileOrDirectory .. => .notFound path
  | e => { path, reason := toString e }

/-- The files as a command sees them: only the text of the file it reads is fetched. -/
def filesFor (path : String) : IO Files := do
  let text ← (IO.FS.readFile path).toBaseIO
  return {
    read := fun _ => text.mapError (openError path)
    write := fun _ _ => .complete }

/-- Writes a text, and says how far that came. -/
def write (path text : String) : IO Writing := do
  match ← (IO.FS.writeFile path "").toBaseIO with
  | .error e => return .refused (openError path e)
  | .ok _ =>
    match ← (IO.FS.writeFile path text).toBaseIO with
    | .ok _ => return .complete
    | .error e =>
      let kept ← (IO.FS.readFile path).toBaseIO
      return .broken { path, reason := toString e, action := .writing } (kept.toOption.getD "")

/-- What a line may find when it loads a file. A file it saves is written right away. -/
def filesOfLine (s : Session) (line : String) : IO Files := do
  match Session.command? line with
  | some (.ok (.load path)) => filesFor path
  | some (.ok (.save path)) =>
    let written ← write path (Document.encode s.name s.records)
    return { read := fun p => .error (.notFound p), write := fun _ _ => written }
  | _ => return { read := fun p => .error (.notFound p), write := fun _ _ => .complete }

/-- Takes line after line until the input or the session ends. -/
def converse (input : IO.FS.Stream) (start : Session) : IO UInt32 := do
  let output ← IO.getStdout
  let mut session := start
  repeat
    output.flush
    let line ← input.getLine
    if line.isEmpty then break
    let t := turn (← filesOfLine session line) session line
    IO.print t.output
    if let some code := t.exit then return code.toUInt32
    session := t.session
  return success.toUInt32

end Flowchart.Program

open Flowchart CommandLine Program in
def main (args : List String) : IO UInt32 := do
  match parse args with
  | .help => return success.toUInt32
  | .malformed => return trouble.toUInt32
  | .start o (path :: _) =>
    let outcome := runFile stepBound (← filesFor path) o path
    IO.print outcome.output
    return outcome.exit.toUInt32
  | .start o [] =>
    IO.print welcome
    let code ← Program.converse (← IO.getStdin) (session stepBound o)
    IO.eprintln "Good bye!"
    return code
