import Flowchart.Graph.Basic

/-!
# Functions

A function is a start block with a name and the first end block on its chain of next
links. Functions have neither parameters nor results.
-/

namespace Flowchart.Machine

/-- The handles of the blocks that begin and end a function. -/
structure Function where
  start : Handle
  stop : Handle
deriving Repr, DecidableEq

/-- Follows next links to the first end block. A block that was `visited` before ends the search,
and every other one is visited now, so that `fuel` has to cover each block once and one more
look. -/
def findEnd (g : Graph) : Nat → List Handle → Option Handle → Except Crash (Option Handle)
  | 0, _, _ => .ok none
  | _ + 1, _, none => .ok none
  | fuel + 1, visited, some h =>
    if visited.contains h then .ok none
    else do
      let n ← g.node h
      if n.kind = .functionEnd then return some h
      else findEnd g fuel (h :: visited) n.next

/-- The end of the function that begins at `start`. -/
def endOf (g : Graph) (start : Handle) : Except Crash (Option Handle) :=
  findEnd g (g.size + 1) [] (some start)

/-- The functions in the order they were found, and what was wrong with the others. -/
structure Functions where
  table : Table Function
  failures : List Failure

namespace Functions

def report (fs : Functions) (n : Node) (e : Error) : Functions :=
  { fs with failures := fs.failures ++ [{ cause := .run e, node := n.id }] }

/-- Takes one block into account. -/
def discover (g : Graph) (fs : Functions) (h : Handle) (n : Node) : Except Crash Functions :=
  if n.kind ≠ .functionStart then .ok fs
  else match n.fields with
    | .function name =>
      if name = "" then .ok (fs.report n .functionNameMissing)
      else do
        match ← endOf g h with
        | none => return fs.report n (.functionEndMissing name)
        | some stop =>
          if fs.table.contains name then return fs.report n (.functionExists name)
          else return { fs with table := fs.table.put name ⟨h, stop⟩ }
    | _ => .error .wrongFields

def discoverFrom (g : Graph) (fs : Functions) (h : Handle) : List Node → Except Crash Functions
  | [] => .ok fs
  | n :: rest => do discoverFrom g (← fs.discover g h n) (h + 1) rest

def ofGraph (g : Graph) : Except Crash Functions :=
  discoverFrom g ⟨.empty, []⟩ 0 g.nodes.toList

end Functions

end Flowchart.Machine
