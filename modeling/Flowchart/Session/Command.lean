import Flowchart.Workspace.Edit

/-!
# Commands

The commands of a session. A line is split at blanks into the name of a command and its
arguments; further arguments than a command needs are ignored.
-/

namespace Flowchart

inductive Command where
  | help
  | quit
  | load (path : String)
  | save (path : String)
  | edit (change : Edit)
  /-- Set one text of a block. -/
  | set (id field text : String)
  | list
  | tree
  | check
  | run
  | vars
deriving Repr, DecidableEq

namespace Command

/-- Why a command cannot be carried out. -/
inductive Error where
  | tooFewArguments (command : String) (needed : Nat)
  | unknownCommand (command : String)
  | unknownType (type : String)
  | unknownPort (port : String)
  | unknownInput (slot : String)
  | unknownBlock (id : String)
  | unknownField (field : String)
  | nothingRun
deriving Repr, DecidableEq

def Error.message : Error → String
  | tooFewArguments command needed => s!"{command} needs {needed} argument(s), try 'help'"
  | unknownCommand command => s!"unknown command '{command}', try 'help'"
  | unknownType type => s!"unknown block type '{type}'"
  | unknownPort port => s!"unknown port '{port}'"
  | unknownInput slot => s!"unknown input '{slot}'"
  | unknownBlock id => s!"no block '{id}'"
  | unknownField field => s!"unknown field '{field}'"
  | nothingRun => "no program has been run yet"

/-- A port by its label. -/
def port (s : String) : Except Error Port :=
  match [Port.next, .onTrue, .onFalse, .top].find? (·.label = s) with
  | some p => .ok p
  | none => .error (.unknownPort s)

/-- A slot by its label. -/
def slot (s : String) : Except Error Slot :=
  match Slot.all.find? (·.label = s) with
  | some s => .ok s
  | none => .error (.unknownInput s)

def parse (name : String) (args : List String) : Except Error Command :=
  let needs (n : Nat) : Except Error Command := .error (.tooFewArguments name n)
  match name, args with
  | "help", _ => .ok .help
  | "quit", _ | "exit", _ => .ok .quit
  | "load", path :: _ => .ok (.load path)
  | "load", _ => needs 1
  | "save", path :: _ => .ok (.save path)
  | "save", _ => needs 1
  | "add", type :: id :: _ =>
    if (BlockKind.ofTag? type).isSome then .ok (.edit (.add { id, type }))
    else .error (.unknownType type)
  | "add", _ => needs 2
  | "set", id :: field :: word :: words =>
    .ok (.set id field (" ".intercalate (word :: words)))
  | "set", _ => needs 3
  | "connect", source :: p :: target :: _ => do
    return .edit (.connect source (← port p) target)
  | "connect", _ => needs 3
  | "disconnect", id :: p :: _ => do return .edit (.disconnect id (← port p))
  | "disconnect", _ => needs 2
  | "bind", producer :: target :: s :: _ => do
    return .edit (.connectInput producer target (← slot s))
  | "bind", _ => needs 3
  | "unbind", id :: s :: _ => do return .edit (.disconnectInput id (← slot s))
  | "unbind", _ => needs 2
  | "remove", id :: _ => .ok (.edit (.remove id))
  | "remove", _ => needs 1
  | "list", _ => .ok .list
  | "tree", _ => .ok .tree
  | "check", _ => .ok .check
  | "run", _ => .ok .run
  | "vars", _ => .ok .vars
  | _, _ => .error (.unknownCommand name)

/-- The table of all commands. -/
def summary : List (List String) :=
  [["Command", "Arguments", "Description"],
   ["load", "<file>", "load a program (YAML or JSON)"],
   ["save", "<file>", "save the program as YAML"],
   ["add", "<type> <id>", "add a block"],
   ["set", "<id> <field> <text>", "set a data field, e.g. set w1 condition i < 10"],
   ["connect", "<from> next|true|false <to>", "connect blocks"],
   ["disconnect", "<id> top|next|true|false", "remove a connection"],
   ["bind", "<producer> <target> value|left|right|index", "bind a data input"],
   ["unbind", "<id> value|left|right|index", "clear a data input"],
   ["remove", "<id>", "remove a block"],
   ["list", "", "list all blocks"],
   ["tree", "", "display control flow"],
   ["check", "", "validate the program"],
   ["run", "", "run the program"],
   ["vars", "", "show variables and arrays of the last run"],
   ["quit", "", "leave"]]

end Command

/-! ## Fields by name -/

/-- Sets a text of a block by its name; nothing if there is no such text. -/
def Data.set? (d : Data) (field text : String) : Option Data :=
  match field with
  | "variableName" => some { d with variableName := text }
  | "value" => some { d with value := text }
  | "condition" => some { d with condition := text }
  | "operator" => some { d with operator := text }
  | "expression" => some { d with expression := text }
  | "initialization" => some { d with initialization := text }
  | "iteration" => some { d with iteration := text }
  | "functionName" => some { d with functionName := text }
  | "arrayName" => some { d with arrayName := text }
  | "arraySize" => some { d with arraySize := text }
  | "arrayIndex" => some { d with arrayIndex := text }
  | _ => none

/-- The texts of a block with their names. -/
def Data.named (d : Data) : List (String × String) :=
  [("variableName", d.variableName), ("value", d.value), ("condition", d.condition),
   ("operator", d.operator), ("expression", d.expression),
   ("initialization", d.initialization), ("iteration", d.iteration),
   ("functionName", d.functionName), ("arrayName", d.arrayName), ("arraySize", d.arraySize),
   ("arrayIndex", d.arrayIndex)]

end Flowchart
