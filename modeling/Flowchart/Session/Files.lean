import Flowchart.Table

/-!
# Files

What a session sees of the files around it: the texts it can read, and what becomes of the
texts it writes.
-/

namespace Flowchart

/-- What was tried with a file. -/
inductive FileAction where
  | opening
  | writing
deriving Repr, DecidableEq

/-- A file with which something failed, and why. -/
structure FileError where
  path : String
  reason : String
  action : FileAction := .opening
deriving Repr, DecidableEq

namespace FileError

def message (e : FileError) : String :=
  match e.action with
  | .opening => s!"open {e.path}: {e.reason}"
  | .writing => s!"yaml: write error: write {e.path}: {e.reason}"

def notFound (path : String) : FileError := { path, reason := "no such file or directory" }

end FileError

/-- How far a text comes that is written to a file. -/
inductive Writing where
  | complete
  /-- The file could not be opened, and is as it was. -/
  | refused (error : FileError)
  /-- The file was opened, which empties it, and then `kept` is all that was written. -/
  | broken (error : FileError) (kept : String)
deriving Repr, DecidableEq

structure Files where
  read : String → Except FileError String
  /-- What becomes of a text under a path. -/
  write : String → String → Writing

/-! ## A directory in memory -/

/-- The texts of files by their names, without any directories below. -/
abbrev Directory := Table String

namespace Directory

/-- The name of the file a path leads to, if it is a file of this directory. -/
def fileName? (path : String) : Option String :=
  let parts := ((path.split (· == '/')).toList.map (·.toString)).filter (· ≠ ".")
  match parts with
  | [name] => if name = "" then none else some name
  | _ => none

def files (d : Directory) : Files where
  read path :=
    match (fileName? path).bind (d.get? ·) with
    | some text => .ok text
    | none => .error (.notFound path)
  write path _ := if (fileName? path).isSome then .complete else .refused (.notFound path)

def write (d : Directory) (path text : String) : Directory :=
  match fileName? path with
  | some name => d.put name text
  | none => d

end Directory

end Flowchart
