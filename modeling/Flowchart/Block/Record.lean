import Flowchart.Block.Port

/-!
# Records

A placed block as hosts exchange it: an instance id, a type tag, free texts, and links
to other blocks by their ids. An empty id is no link.
-/

namespace Flowchart

/-- The editable texts of a block. Which of them matter depends on the block's type. -/
structure Data where
  variableName : String := ""
  value : String := ""
  condition : String := ""
  operator : String := ""
  expression : String := ""
  initialization : String := ""
  iteration : String := ""
  functionName : String := ""
  arrayName : String := ""
  arraySize : String := ""
  arrayIndex : String := ""
deriving Repr, DecidableEq

/-- The ids of the blocks bound to the input slots. -/
abbrev Inputs := Slots String

def Inputs.none : Inputs := ⟨"", "", "", ""⟩

structure Record where
  id : String
  template : String := ""
  type : String
  title : String := ""
  category : String := ""
  next : String := ""
  onTrue : String := ""
  onFalse : String := ""
  previous : String := ""
  inputs : Inputs := Inputs.none
  data : Data := {}
deriving Repr, DecidableEq

namespace Record

def kind (r : Record) : BlockKind := BlockKind.ofTag r.type

def isStart (r : Record) : Bool := r.type == BlockKind.start.tag

def summary (r : Record) : String := s!"<{r.type} {r.id}>"

/-- The id a port leads to, or nothing. -/
def link (r : Record) : Port → String
  | .next => r.next
  | .onTrue => r.onTrue
  | .onFalse => r.onFalse
  | .top => r.previous
  | .unlisted _ => ""

def setLink (r : Record) (p : Port) (id : String) : Record :=
  match p with
  | .next => { r with next := id }
  | .onTrue => { r with onTrue := id }
  | .onFalse => { r with onFalse := id }
  | .top => { r with previous := id }
  | .unlisted _ => r

/-- The id bound to a slot, or nothing. -/
def input (r : Record) (s : Slot) : String := (r.inputs.get? s).getD ""

def setInput (r : Record) (s : Slot) (id : String) : Record :=
  { r with inputs := r.inputs.set s id }

end Record

end Flowchart
