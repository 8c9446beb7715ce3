import Flowchart.Block.Fields
import Flowchart.Crash
import Flowchart.Table

/-!
# Graphs

The blocks of a program with their links resolved to handles. A handle is the position
of a block; links to unknown ids are dropped.
-/

namespace Flowchart

/-- The position of a block. Programs are meant to have fewer than 2 ^ 31 blocks, and no handle
wraps around. -/
abbrev Handle := Nat

structure Node where
  id : String
  kind : BlockKind
  type : String
  title : String
  next : Option Handle
  onTrue : Option Handle
  onFalse : Option Handle
  previous : Option Handle
  inputs : Slots (Option Handle)
  fields : Fields
deriving Repr, DecidableEq

namespace Node

def summary (n : Node) : String := s!"<{n.type} {n.id}>"

/-- The block bound to a slot, if there is one. -/
def input (n : Node) (s : Slot) : Option Handle := (n.inputs.get? s).join

end Node

structure Graph where
  nodes : Array Node
  index : Table Handle
  start : Option Handle

namespace Graph

def size (g : Graph) : Nat := g.nodes.size

def lookup (g : Graph) (id : String) : Option Handle := g.index.get? id

def node? (g : Graph) (h : Handle) : Option Node := g.nodes[h]?

/-- The block of a handle that is expected to lead to one. -/
def node (g : Graph) (h : Handle) : Except Crash Node :=
  match g.nodes[h]? with
  | some n => .ok n
  | none => .error .noBlock

/-! ## Building -/

/-- Adds the ids of records from position `i` on to an index. -/
def indexFrom (i : Nat) (index : Table Handle) : List Record → Except Failure (Table Handle)
  | [] => .ok index
  | r :: rest =>
    if r.id = "" then .error { cause := .graph (.idMissing i) }
    else if index.contains r.id then
      .error { cause := .graph (.duplicateId r.id), node := r.id }
    else indexFrom (i + 1) (index.put r.id i) rest

/-- The start block among the records from position `i` on; `found` is one before them. -/
def startFrom (i : Nat) (found : Option Handle) : List Record → Except Failure (Option Handle)
  | [] => .ok found
  | r :: rest =>
    if r.kind = .start then
      if found.isSome then .error { cause := .graph .secondStart, node := r.id }
      else startFrom (i + 1) (some i) rest
    else startFrom (i + 1) found rest

def resolve (index : Table Handle) (id : String) : Option Handle :=
  if id = "" then none else index.get? id

def nodeOf (index : Table Handle) (r : Record) : Node :=
  { id := r.id
    kind := r.kind
    type := r.type
    title := r.title
    next := resolve index r.next
    onTrue := resolve index r.onTrue
    onFalse := resolve index r.onFalse
    previous := resolve index r.previous
    inputs := r.inputs.map (resolve index)
    fields := Fields.of r.kind r.data }

/-- Ids must be there and differ, and at most one block may be the start. -/
def build (records : List Record) : Except Failure Graph := do
  let index ← indexFrom 0 Table.empty records
  let start ← startFrom 0 none records
  return { nodes := (records.map (nodeOf index)).toArray, index, start }

end Graph

end Flowchart
