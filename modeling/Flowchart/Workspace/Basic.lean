import Flowchart.Block.Record
import Flowchart.Failure
import Flowchart.Table

/-!
# Workspaces

The blocks of a program while it is edited. Every edit keeps the links between blocks
sound, or is refused and changes nothing.
-/

namespace Flowchart

/-- The records in the order they were added, and the position of each id. -/
structure Workspace where
  records : List Record
  index : Table Nat
deriving Repr, DecidableEq

namespace Workspace

def empty : Workspace := ⟨[], .empty⟩

def size (w : Workspace) : Nat := w.records.length

def block? (w : Workspace) (id : String) : Option Record :=
  (w.index.get? id).bind (w.records[·]?)

/-- Refusals are attributed to a block, and sometimes to a data block. -/
def refuse {α : Type} (error : Error) (node : String) (source : String := "") :
    Except Failure α :=
  .error { cause := .edit error, node, source }

def find (w : Workspace) (id : String) : Except Failure Record :=
  match w.block? id with
  | some r => .ok r
  | none => refuse (.noBlock id) id

/-- Changes the record of an id. -/
def modify (w : Workspace) (id : String) (change : Record → Record) : Workspace :=
  match w.index.get? id with
  | some i => { w with records := w.records.modify i change }
  | none => w

/-! ## Adding and removing -/

def add (w : Workspace) (r : Record) : Except Failure Workspace :=
  if r.id = "" then refuse .idMissing ""
  else if w.index.contains r.id then refuse (.duplicateId r.id) r.id
  else if r.isStart && w.records.any Record.isStart then refuse .secondStart r.id
  else .ok ⟨w.records ++ [r], w.index.put r.id w.records.length⟩

def ofRecords (records : List Record) : Except Failure Workspace :=
  records.foldlM add empty

/-- Clears every link and binding of a record that leads to `id`. -/
def forget (id : String) (r : Record) : Record :=
  let clear (other : String) := if other = id then "" else other
  { r with
    next := clear r.next
    onTrue := clear r.onTrue
    onFalse := clear r.onFalse
    previous := clear r.previous
    inputs := r.inputs.map clear }

/-- The positions of ids, for records from position `i` on. -/
def positionsFrom (i : Nat) (index : Table Nat) : List Record → Table Nat
  | [] => index
  | r :: rest => positionsFrom (i + 1) (index.put r.id i) rest

def remove (w : Workspace) (id : String) : Except Failure Workspace :=
  match w.index.get? id with
  | none => refuse (.noBlock id) id
  | some i =>
    let records := (w.records.eraseIdx i).map (forget id)
    .ok ⟨records, positionsFrom 0 (w.index.erase id) records⟩

/-- Replaces the texts of a block. -/
def update (w : Workspace) (id : String) (data : Data) : Except Failure Workspace := do
  let _ ← w.find id
  return w.modify id fun r => { r with data }

/-! ## Control links -/

/-- Does any block lead to `id`? -/
def hasIncoming (w : Workspace) (id : String) : Bool :=
  w.records.any fun r => r.next == id || r.onTrue == id || r.onFalse == id

/-- May links start at this port of this block? -/
def checkPort (r : Record) (p : Port) : Except Failure Unit :=
  match p with
  | .next => .ok ()
  | .onTrue | .onFalse =>
    if r.kind.isBranching then .ok () else refuse (.branchMissing r.type p) r.id
  | _ => refuse (.notOutgoing p) r.id

/-- Each port carries at most one link, and at most one link leads to a block. -/
def connect (w : Workspace) (source : String) (p : Port) (target : String) :
    Except Failure Workspace := do
  if source = target then refuse .selfConnection source
  else
    let src ← w.find source
    let dest ← w.find target
    checkPort src p
    if src.link p ≠ "" then refuse (.portTaken p) source
    else if dest.previous ≠ "" ∨ w.hasIncoming target then refuse .incomingTaken target
    else
      return (w.modify source (·.setLink p target)).modify target fun r =>
        { r with previous := source }

/-- Clears the ports of a record that lead to `id`. -/
def dropLinks (id : String) (r : Record) : Record :=
  Port.outgoing.foldl (fun r p => if r.link p = id then r.setLink p "" else r) r

/-- Removes the link at a port, at both of its ends. -/
def disconnect (w : Workspace) (id : String) (p : Port) : Except Failure Workspace := do
  let r ← w.find id
  match p with
  | .top =>
    if r.previous = "" then return w
    else return (w.modify r.previous (dropLinks id)).modify id fun r => { r with previous := "" }
  | .next | .onTrue | .onFalse =>
    let target := r.link p
    if target = "" then return w
    else
      return (w.modify target fun t =>
        if t.previous = id then { t with previous := "" } else t).modify id (·.setLink p "")
  | .unlisted _ => refuse (.unknownPort p) id

/-! ## Data inputs -/

/-- Binds an input of a block to a block that produces a value; an earlier binding is
replaced. -/
def connectInput (w : Workspace) (producer target : String) (s : Slot) :
    Except Failure Workspace := do
  if producer = target then refuse .selfBinding target
  else
    let p ← w.find producer
    let t ← w.find target
    if p.kind.isProducer = false then refuse (.noValue p.type) target producer
    else if t.kind.accepts s = false then refuse (.inputMissing t.type s) target producer
    else return w.modify target (·.setInput s producer)

def disconnectInput (w : Workspace) (id : String) (s : Slot) : Except Failure Workspace := do
  let _ ← w.find id
  return w.modify id (·.setInput s "")

end Workspace

end Flowchart
