import Flowchart.Machine.Limits

/-!
# Options

The options in front of the other arguments: one or two dashes, a name, and a value
behind an equals sign or, unless the option is a flag, in the next argument.
-/

namespace Flowchart.CommandLine

structure Options where
  trace : String := "Error"
  check : Bool := false
  tree : Bool := false
  limits : LimitSettings := {}
deriving Repr, DecidableEq

/-- What the arguments ask for. -/
inductive Request where
  | start (options : Options) (arguments : List String)
  | help
  | malformed
deriving Repr, DecidableEq

/-- The spellings of a truth value. -/
def flag? (s : String) : Option Bool :=
  if ["1", "t", "T", "TRUE", "true", "True"].contains s then some true
  else if ["0", "f", "F", "FALSE", "false", "False"].contains s then some false
  else none

def integer? (s : String) : Option Int := (Number.markedInteger s).toOption

/-- How an argument reads. -/
inductive Form where
  /-- Not an option: the options end in front of it. -/
  | argument
  /-- Two dashes and nothing else: the options end behind it. -/
  | separator
  | option (name : String) (value : Option String)
  | malformed
deriving Repr, DecidableEq

/-- Divides an option at the first equals sign, which cannot be the first character. -/
def optionForm : List Char → Form
  | [] => .malformed
  | c :: cs =>
    if c = '-' ∨ c = '=' then .malformed
    else
      let name := String.ofList (c :: cs.takeWhile (· ≠ '='))
      match cs.dropWhile (· ≠ '=') with
      | [] => .option name none
      | _ :: value => .option name (some (String.ofList value))

def form (arg : String) : Form :=
  match arg.toList with
  | ['-', '-'] => .separator
  | '-' :: '-' :: cs => optionForm cs
  | '-' :: c :: cs => optionForm (c :: cs)
  | _ => .argument

/-- Sets a flag; without a value it is on. -/
def setFlag (o : Options) (name : String) (value : Option String) : Option Options := do
  let on ← match value with
    | some s => flag? s
    | none => some true
  match name with
  | "check" => some { o with check := on }
  | "tree" => some { o with tree := on }
  | _ => none

/-- Sets an option that needs a value. -/
def setValue (o : Options) (name value : String) : Option Options :=
  match name with
  | "trace" => some { o with trace := value }
  | "max-iterations" =>
    (integer? value).map fun n => { o with limits := { o.limits with maxIterations := n } }
  | "max-depth" =>
    (integer? value).map fun n => { o with limits := { o.limits with maxCallDepth := n } }
  | _ => none

def isFlag (name : String) : Bool := name = "check" || name = "tree"

def isHelp (name : String) : Bool := name = "h" || name = "help"

/-- Reads options until the first argument that is none. -/
def parseFrom (o : Options) : List String → Request
  | [] => .start o []
  | arg :: rest =>
    match form arg with
    | .argument => .start o (arg :: rest)
    | .separator => .start o rest
    | .malformed => .malformed
    | .option name value =>
      if isHelp name then .help
      else if isFlag name then
        match setFlag o name value with
        | some o' => parseFrom o' rest
        | none => .malformed
      else match value with
        | some v =>
          match setValue o name v with
          | some o' => parseFrom o' rest
          | none => .malformed
        | none =>
          match rest with
          | [] => .malformed
          | v :: rest' =>
            match setValue o name v with
            | some o' => parseFrom o' rest'
            | none => .malformed

def parse (args : List String) : Request := parseFrom {} args

end Flowchart.CommandLine
