import Flowchart.Block.Record
import Flowchart.Failure
import Flowchart.Table

/-!
# Validation

Structural problems of a list of records, found without running anything: ids and start
blocks first, then the links and inputs of each record, then cycles of data inputs.
-/

namespace Flowchart.Graph

/-! ## Ids and start blocks -/

/-- The first record of each id, the number of start blocks among these, and the
problems found. -/
structure Census where
  index : Table Record
  starts : Nat
  problems : List Failure

/-- Takes the records from position `i` on into account; problems come last one first. -/
def census (i : Nat) (c : Census) : List Record → Census
  | [] => c
  | r :: rest =>
    if r.id = "" then
      census (i + 1) { c with problems := { cause := .graph (.idMissing i) } :: c.problems } rest
    else if c.index.contains r.id then
      let problem : Failure := { cause := .graph (.duplicateId r.id), node := r.id }
      census (i + 1) { c with problems := problem :: c.problems } rest
    else
      let index := c.index.put r.id r
      if r.isStart then
        let problems :=
          if 0 < c.starts then { cause := .graph .secondStart, node := r.id } :: c.problems
          else c.problems
        census (i + 1) ⟨index, c.starts + 1, problems⟩ rest
      else census (i + 1) { c with index } rest

/-! ## Links -/

/-- The problems of one link, and how many links lead to each block so far. -/
def checkLink (index : Table Record) (r : Record) (incoming : Table Nat) (p : Port) :
    List Failure × Table Nat :=
  let target := r.link p
  if target = "" then ([], incoming)
  else
    let branch : List Failure :=
      if p ≠ .next ∧ r.kind.isBranching = false then
        [{ cause := .graph (.branchMissing r.type p), node := r.id }]
      else []
    if target = r.id then
      (branch ++ [{ cause := .graph .selfLink, node := r.id }], incoming)
    else if index.contains target = false then
      (branch ++ [{ cause := .graph (.unknownLink p target), node := r.id }], incoming)
    else
      let count := (incoming.get? target).getD 0 + 1
      let second : List Failure :=
        if count = 2 then [{ cause := .graph .secondIncoming, node := target }] else []
      (branch ++ second, incoming.put target count)

def checkLinks (index : Table Record) (r : Record) (incoming : Table Nat) :
    List Port → List Failure × Table Nat
  | [] => ([], incoming)
  | p :: rest =>
    let (problems, incoming) := checkLink index r incoming p
    let (others, incoming) := checkLinks index r incoming rest
    (problems ++ others, incoming)

/-! ## Inputs -/

def checkInput (index : Table Record) (r : Record) (s : Slot) : List Failure :=
  let producer := r.input s
  if producer = "" then []
  else if r.kind.accepts s = false then
    [{ cause := .graph (.inputMissing r.type s), node := r.id }]
  else match index.get? producer with
    | none => [{ cause := .graph (.unknownInput s producer), node := r.id }]
    | some p =>
      if p.kind.isProducer then []
      else [{ cause := .graph (.inputWithoutValue s p.kind), node := r.id }]

/-- The problems of one record after the other; one without an id is passed over. -/
def checkRecords (index : Table Record) (incoming : Table Nat) : List Record → List Failure
  | [] => []
  | r :: rest =>
    if r.id = "" then checkRecords index incoming rest
    else
      let type : List Failure :=
        if (BlockKind.ofTag? r.type).isNone then
          [{ cause := .graph (.unknownType r.type), node := r.id }]
        else []
      let (links, incoming) := checkLinks index r incoming Port.outgoing
      let inputs := Slot.all.flatMap (checkInput index r)
      type ++ links ++ inputs ++ checkRecords index incoming rest

/-! ## Cycles of inputs -/

/-- The blocks searched completely, those on the current path, and the blocks at which a
cycle was met, last one first. -/
structure Search where
  done : List String
  path : List String
  cycles : List String

/-- Searches the inputs of block `id`, at most `fuel` blocks deep. No path is longer than
the number of blocks. -/
def searchCycles (index : Table Record) : Nat → String → Search → Search
  | 0, _, st => st
  | fuel + 1, id, st =>
    if st.done.contains id then st
    else match index.get? id with
      | none => st
      | some r =>
        let st := Slot.all.foldl
          (fun st s =>
            let producer := r.input s
            if producer = "" then st
            else if st.path.contains producer then { st with cycles := producer :: st.cycles }
            else searchCycles index fuel producer st)
          { st with path := id :: st.path }
        { st with path := st.path.filter (· ≠ id), done := id :: st.done }

/-- Each cycle is reported once, at the block where it closes. -/
def inputCycles (index : Table Record) (records : List Record) : List String :=
  let st := records.foldl
    (fun st r => if r.id = "" then st else searchCycles index (records.length + 1) r.id st)
    ⟨[], [], []⟩
  st.cycles.reverse

/-! ## All problems -/

def problems (records : List Record) : List Failure :=
  let c := census 0 ⟨.empty, 0, []⟩ records
  let start : List Failure := if c.starts = 0 then [{ cause := .graph .startMissing }] else []
  let cycles := (inputCycles c.index records).map fun id =>
    ({ cause := .graph .inputCycle, node := id } : Failure)
  c.problems.reverse ++ start ++ checkRecords c.index .empty records ++ cycles

end Flowchart.Graph
