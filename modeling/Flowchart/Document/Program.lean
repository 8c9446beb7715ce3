import Flowchart.Block.Record
import Flowchart.Document.Reader

/-!
# Programs as documents

A program is a map with a name and a list of blocks, or a bare list of blocks. Keys are
the host's names of the fields. Empty texts are left out, except for the id and the type
of a block; unknown keys are ignored.
-/

namespace Flowchart.Document

/-- Why a text is no program: it cannot be read, or a node is not of the kind expected. -/
inductive DecodeError where
  | program
  | blocks
deriving Repr, DecidableEq

def DecodeError.message : DecodeError → String
  | .program => "cannot decode block program"
  | .blocks => "cannot decode blocks"

/-! ## Records to nodes -/

/-- The entry of a text that is left out if it is empty. -/
def optionalEntry (key value : String) : List (Node × Node) :=
  if value = "" then [] else [(.text key, .text value)]

/-- The entry of a group that is left out if it is empty. -/
def groupEntry (key : String) (entries : List (Node × Node)) : List (Node × Node) :=
  if entries.isEmpty then [] else [(.text key, .map entries)]

def inputEntries (i : Inputs) : List (Node × Node) :=
  optionalEntry "valueInputId" i.value ++ optionalEntry "leftInputId" i.left ++
    optionalEntry "rightInputId" i.right ++ optionalEntry "indexInputId" i.index

def dataEntries (d : Data) : List (Node × Node) :=
  optionalEntry "variableName" d.variableName ++ optionalEntry "value" d.value ++
    optionalEntry "condition" d.condition ++ optionalEntry "operator" d.operator ++
    optionalEntry "expression" d.expression ++ optionalEntry "initialization" d.initialization ++
    optionalEntry "iteration" d.iteration ++ optionalEntry "functionName" d.functionName ++
    optionalEntry "arrayName" d.arrayName ++ optionalEntry "arraySize" d.arraySize ++
    optionalEntry "arrayIndex" d.arrayIndex

def ofRecord (r : Record) : Node :=
  .map <|
    [(.text "instanceId", .text r.id)] ++ optionalEntry "id" r.template ++
      [(.text "type", .text r.type)] ++ optionalEntry "title" r.title ++
      optionalEntry "category" r.category ++ optionalEntry "nextBlockId" r.next ++
      optionalEntry "trueBlockId" r.onTrue ++ optionalEntry "falseBlockId" r.onFalse ++
      optionalEntry "previousBlockId" r.previous ++
      groupEntry "inputConnections" (inputEntries r.inputs) ++
      groupEntry "data" (dataEntries r.data)

def ofProgram (name : String) (records : List Record) : Node :=
  .map (optionalEntry "name" name ++ [(.text "blocks", .list (records.map ofRecord))])

/-! ## Nodes to records -/

/-- The name of a key; a null names nothing, and collections are no keys. -/
def keyName? : Node → Option (Option String)
  | .text value => some (some value)
  | .null _ => some none
  | .list _ | .map _ => none

/-- How a key is spelt; two keys of one spelling are the same. -/
def keySpelling : Node → String
  | .text value | .null value => value
  | .list _ | .map _ => ""

def distinct : List String → Bool
  | [] => true
  | s :: rest => !rest.contains s && distinct rest

/-- The named entries of a map, unless a key occurs twice or is a collection. -/
def namedEntries? (entries : List (Node × Node)) : Option (List (String × Node)) :=
  if distinct (entries.map fun e => keySpelling e.1) then
    (entries.mapM fun e => (keyName? e.1).map fun name => (name, e.2)).map
      (·.filterMap fun e => e.1.map fun name => (name, e.2))
  else none

/-- A text; a null is an empty one. -/
def text? : Node → Option String
  | .text value => some value
  | .null _ => some ""
  | .list _ | .map _ => none

def textField? (entries : List (String × Node)) (key : String) : Option String :=
  match entries.lookup key with
  | some node => text? node
  | none => some ""

/-- The entries of a group; a null is an empty one. -/
def group? : Option Node → Option (List (String × Node))
  | some (.map entries) => namedEntries? entries
  | some (.null _) => some []
  | none => some []
  | _ => none

def inputsOf? (entries : List (String × Node)) : Option Inputs := do
  let field := textField? entries
  return {
    value := ← field "valueInputId", left := ← field "leftInputId"
    right := ← field "rightInputId", index := ← field "indexInputId" }

def dataOf? (entries : List (String × Node)) : Option Data := do
  let field := textField? entries
  return {
    variableName := ← field "variableName", value := ← field "value"
    condition := ← field "condition", operator := ← field "operator"
    expression := ← field "expression", initialization := ← field "initialization"
    iteration := ← field "iteration", functionName := ← field "functionName"
    arrayName := ← field "arrayName", arraySize := ← field "arraySize"
    arrayIndex := ← field "arrayIndex" }

def recordOf? (entries : List (String × Node)) : Option Record := do
  let field := textField? entries
  let inputs ← group? (entries.lookup "inputConnections")
  let data ← group? (entries.lookup "data")
  return {
    id := ← field "instanceId", template := ← field "id", type := ← field "type"
    title := ← field "title", category := ← field "category"
    next := ← field "nextBlockId", onTrue := ← field "trueBlockId"
    onFalse := ← field "falseBlockId", previous := ← field "previousBlockId"
    inputs := ← inputsOf? inputs, data := ← dataOf? data }

/-- The record of an item of a list of blocks; a null is none. -/
def item? : Node → Option (Option Record)
  | .map entries => do return some (← recordOf? (← namedEntries? entries))
  | .null _ => some none
  | .text _ | .list _ => none

def records? (items : List Node) : Option (List Record) :=
  (items.mapM item?).map (·.filterMap id)

/-- The blocks of a program; a null stands for none. -/
def blocks? : Option Node → Option (List Record)
  | some (.list items) => records? items
  | some (.null _) => some []
  | none => some []
  | _ => none

/-- The records of a whole document. -/
def decodeNode : Node → Except DecodeError (List Record)
  | .list items =>
    match records? items with
    | some records => .ok records
    | none => .error .blocks
  | .null _ => .ok []
  | .map entries =>
    let records : Option (List Record) := do
      let entries ← namedEntries? entries
      let _ ← textField? entries "name"
      blocks? (entries.lookup "blocks")
    match records with
    | some records => .ok records
    | none => .error .program
  | .text _ => .error .program

/-- The records of a text; one without content has none. -/
def decode (text : String) : Except DecodeError (List Record) :=
  match parse text with
  | .error _ => .error .program
  | .ok none => .ok []
  | .ok (some node) => decodeNode node

end Flowchart.Document
