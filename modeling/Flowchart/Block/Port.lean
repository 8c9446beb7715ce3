import Flowchart.Block.Kind

/-!
# Ports and slots

Where blocks are joined: control flows through ports, data through input slots. Both
travel as small numbers, and a number that is not in the list names no port or slot.
-/

namespace Flowchart

/-- `next`, `onTrue` and `onFalse` lead out of a block, `top` is its only way in. -/
inductive Port where
  | next
  | onTrue
  | onFalse
  | top
  | unlisted (code : Int)
deriving Repr, DecidableEq

namespace Port

def ofCode : Int → Port
  | 0 => next
  | 1 => onTrue
  | 2 => onFalse
  | 3 => top
  | code => unlisted code

def label : Port → String
  | next => "next"
  | onTrue => "true"
  | onFalse => "false"
  | top => "top"
  | unlisted code => s!"<port {code}>"

/-- The ports that lead out of a block. -/
def outgoing : List Port := [next, onTrue, onFalse]

end Port

inductive Slot where
  | value
  | left
  | right
  | index
  | unlisted (code : Int)
deriving Repr, DecidableEq

namespace Slot

def ofCode : Int → Slot
  | 0 => value
  | 1 => left
  | 2 => right
  | 3 => index
  | code => unlisted code

def label : Slot → String
  | value => "value"
  | left => "left"
  | right => "right"
  | index => "index"
  | unlisted code => s!"<slot {code}>"

def all : List Slot := [value, left, right, index]

end Slot

/-- The data inputs that a kind of block offers. -/
def BlockKind.slots : BlockKind → List Slot
  | .assignment | .output => [.value]
  | .branch | .whileLoop | .forLoop => [.left, .right]
  | .arrayAssignment => [.value, .index]
  | .arrayElement => [.index]
  | _ => []

def BlockKind.accepts (k : BlockKind) (s : Slot) : Bool := k.slots.contains s

/-- One entry for each slot. -/
structure Slots (α : Type) where
  value : α
  left : α
  right : α
  index : α
deriving Repr, DecidableEq

namespace Slots

variable {α β : Type}

def get? (i : Slots α) : Slot → Option α
  | .value => some i.value
  | .left => some i.left
  | .right => some i.right
  | .index => some i.index
  | .unlisted _ => none

/-- Setting a slot that does not exist changes nothing. -/
def set (i : Slots α) (s : Slot) (a : α) : Slots α :=
  match s with
  | .value => { i with value := a }
  | .left => { i with left := a }
  | .right => { i with right := a }
  | .index => { i with index := a }
  | .unlisted _ => i

def map (f : α → β) (i : Slots α) : Slots β :=
  ⟨f i.value, f i.left, f i.right, f i.index⟩

def toList (i : Slots α) : List α := [i.value, i.left, i.right, i.index]

end Slots

end Flowchart
