import Flowchart.Display.Layout
import Flowchart.Expr.Value
import Flowchart.Graph.Basic

/-!
# Outlines

The control flow of a graph as an outline. It starts at the start block and at each
function, follows next links on the same level, and goes two levels deeper into each
branch. A block that has been listed before is only referred to.
-/

namespace Flowchart.Outline

/-- A line of an outline. -/
inductive Entry where
  /-- A block that is listed for the first time. -/
  | block (node : Node)
  /-- A reference to a block listed before. -/
  | again (node : Node)
  /-- The heading of a branch. -/
  | branch (taken : Bool)
deriving Repr, DecidableEq

/-- What is still to be listed. -/
inductive Pending where
  | chain (start : Handle)
  | heading (taken : Bool)
deriving Repr, DecidableEq

/-- The heading of a branch and its blocks, if there are any. -/
def branchOf (taken : Bool) (level : Nat) : Option Handle → List (Nat × Pending)
  | some h => [(level + 1, .heading taken), (level + 2, .chain h)]
  | none => []

def chainOf (level : Nat) : Option Handle → List (Nat × Pending)
  | some h => [(level, .chain h)]
  | none => []

/-- Everything that follows a block: its branches, then its next block. -/
def successors (n : Node) (level : Nat) : List (Nat × Pending) :=
  branchOf true level n.onTrue ++ branchOf false level n.onFalse ++ chainOf level n.next

/-- Lists what is pending, first things first. Every block is listed at most once, so that
`fuel` has to cover the roots and five entries for each block. -/
def entries (g : Graph) : Nat → List Handle → List (Nat × Pending) → List (Nat × Entry)
  | 0, _, _ => []
  | _, _, [] => []
  | fuel + 1, visited, (level, .heading taken) :: rest =>
    (level, .branch taken) :: entries g fuel visited rest
  | fuel + 1, visited, (level, .chain h) :: rest =>
    match g.node? h with
    | none => entries g fuel visited rest
    | some n =>
      if visited.contains h then (level, .again n) :: entries g fuel visited rest
      else (level, .block n) :: entries g fuel (h :: visited) (successors n level ++ rest)

/-- The start block and the starts of functions. -/
def roots (g : Graph) : List Handle :=
  g.start.toList ++ (List.range g.size).filter fun h =>
    (g.node? h).any (·.kind = .functionStart)

def ofGraph (g : Graph) : List (Nat × Entry) :=
  let roots := roots g
  entries g (roots.length + 5 * g.size) [] (roots.map fun h => (0, .chain h))

/-! ## Texts -/

/-- What a block does, in short. -/
def label (n : Node) : String :=
  let head := s!"{n.type} {n.id}"
  match n.fields with
  | .declaration names => s!"{head}: {names}"
  | .assignment target value => s!"{head}: {target} = {value}"
  | .condition text operator => s!"{head}: {(Expr.Condition.parse text operator).text}"
  | .forLoop init text operator step =>
    s!"{head}: {init}; {(Expr.Condition.parse text operator).text}; {step}"
  | .output expression => s!"{head}: {expression}"
  | .function name => s!"{head}: {name}"
  | .arrayDeclaration array size => s!"{head}: {array}[{size}]"
  | .arrayAssignment array index value => s!"{head}: {array}[{index}] = {value}"
  | .none | .arithmetic _ | .arrayElement _ _ => head

def Entry.text : Entry → String
  | .block n => label n
  | .again n => "↻ " ++ n.id
  | .branch taken => if taken then "true:" else "false:"

/-- The outline of a graph as a tree. -/
def treeItems (g : Graph) : List Display.TreeItem :=
  (ofGraph g).map fun (level, entry) => ⟨level, entry.text⟩

end Flowchart.Outline
