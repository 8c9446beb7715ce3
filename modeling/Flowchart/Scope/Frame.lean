import Flowchart.Crash
import Flowchart.Number.Layout
import Flowchart.Table

/-!
# Frames

A frame is the memory of one scope: the global one, a function body or a counting loop.
Variables and arrays live in separate tables, so they may share a name. Frames form a
stack whose bottom frame is never popped.
-/

namespace Flowchart.Scope

/-! ## Arrays -/

/-- The size that an array was declared with, and its elements, which are changed in place. -/
structure NumberArray where
  size : Int
  elements : Array Float
deriving Repr, DecidableEq

namespace NumberArray

def zeros (size : Int) : NumberArray := ⟨size, Array.replicate size.toNat 0⟩

def set (a : NumberArray) (i : Nat) (v : Float) : NumberArray :=
  { a with elements := a.elements.setIfInBounds i v }

end NumberArray

/-- No array takes more than this many bytes, at eight bytes for an element. -/
def maxArrayBytes : Nat := Nat.pow 2 48

/-- An array of zeros, if there can be storage for it. -/
def zeroArray (size : Int) : Except Crash NumberArray :=
  if size < 0 ∨ (maxArrayBytes : Int) < 8 * size then .error .allocation
  else .ok (.zeros size)

/-! ## Symbols -/

/-- What a table of symbols holds under a name. -/
inductive Symbol where
  | number (value : Float)
  | array (array : NumberArray)
deriving Repr, DecidableEq

def Symbol.summary (name : String) : Symbol → String
  | .number value => s!"<tag '{name}'={Number.general value}>"
  | .array a => s!"<tag '{name}'[{a.size}]>"

/-- Defines a number with value zero; without a name nothing is defined. The second
result is what the name stood for before. -/
def defineSymbol (t : Table Symbol) (name : String) :
    Table Symbol × Option (Symbol × Option Symbol) :=
  if name = "" then (t, none) else (t.put name (.number 0), some (.number 0, t.get? name))

/-! ## Frames -/

/-- `index` counts from the bottom of the stack. -/
structure Frame where
  name : String
  index : Nat
  vars : Table Float
  arrays : Table NumberArray
deriving Repr, DecidableEq

namespace Frame

def new (name : String) (index : Nat) : Frame := ⟨name, index, .empty, .empty⟩

def summary (f : Frame) : String := s!"<mem {f.name} #{f.index}>"

def setVariable (f : Frame) (name : String) (v : Float) : Frame :=
  { f with vars := f.vars.put name v }

def setArray (f : Frame) (name : String) (a : NumberArray) : Frame :=
  { f with arrays := f.arrays.put name a }

end Frame

/-! ## Stacks of frames -/

/-- The innermost frame first. -/
abbrev Frames := List Frame

namespace Frames

def depth : Frames → Nat
  | [] => 0
  | f :: _ => f.index + 1

def push (fs : Frames) (name : String) : Frames := Frame.new name (depth fs) :: fs

/-- The frame popped, and the rest; popping the bottom frame does nothing. -/
def pop : Frames → Except Crash (Option Frame × Frames)
  | [] => .error .noFrameToPop
  | [f] => .ok (none, [f])
  | f :: g :: rest => .ok (some f, g :: rest)

def current : Frames → Except Crash Frame
  | [] => .error .noCurrentFrame
  | f :: _ => .ok f

def globals (fs : Frames) : Except Crash Frame :=
  match fs.getLast? with
  | none => .error .noGlobalFrame
  | some f => .ok f

/-- Puts frames into the places that their indices name. -/
def placeAll (places : Array (Option Frame)) : Frames → Except Crash (Array (Option Frame))
  | [] => .ok places
  | f :: rest =>
    if f.index < places.size then placeAll (places.setIfInBounds f.index (some f)) rest
    else .error .outOfRange

/-- The frames of places that are all taken. -/
def taken : List (Option Frame) → Except Crash (List Frame)
  | [] => .ok []
  | none :: _ => .error .frameMissing
  | some f :: rest => do return f :: (← taken rest)

/-- All frames, the bottom one first: as many places as the stack is deep, filled by index. -/
def each (fs : Frames) : Except Crash (List Frame) := do
  let places ← placeAll (Array.replicate fs.depth none) fs
  taken places.toList

/-- Changes the innermost frame. -/
def modifyCurrent (fs : Frames) (change : Frame → Frame) : Except Crash Frames :=
  match fs with
  | [] => .error .noCurrentFrame
  | f :: rest => .ok (change f :: rest)

/-- Defines a variable with value zero in the innermost frame; without a name nothing is
defined. The result holds its value and the one of a variable it replaces. -/
def define (fs : Frames) (name : String) :
    Except Crash (Frames × Option (Float × Option Float)) :=
  match fs with
  | [] => .error .noCurrentFrame
  | f :: rest =>
    if name = "" then .ok (f :: rest, none)
    else .ok (f.setVariable name 0 :: rest, some (0, f.vars.get? name))

end Frames

end Flowchart.Scope
