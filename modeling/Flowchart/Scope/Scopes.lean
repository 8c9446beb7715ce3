import Flowchart.Scope.Frame

/-!
# Scopes

The memory of a run. Names are looked up in the innermost frame first. Declaring a
variable looks for it in the current frame only, declaring an array in all frames;
updating never creates a binding.
-/

namespace Flowchart

structure Scopes where
  frames : Scope.Frames
deriving Repr, DecidableEq

namespace Scopes

open Scope (Frame Frames NumberArray)

/-- Memory with an empty global frame. -/
def initial : Scopes := ⟨Frames.push [] "global"⟩

def depth (s : Scopes) : Nat := s.frames.depth

def push (s : Scopes) (name : String) : Scopes := ⟨s.frames.push name⟩

/-- The bottom frame stays. -/
def pop (s : Scopes) : Except Crash Scopes :=
  s.frames.pop.map fun r => ⟨r.2⟩

/-- Drops frames until at most `depth` are left, and at least the bottom one. -/
def unwindFrames (depth : Int) : Frames → Frames
  | [] => []
  | [f] => [f]
  | f :: g :: rest => if depth < f.index + 1 then unwindFrames depth (g :: rest) else f :: g :: rest

def unwind (s : Scopes) (depth : Int) : Scopes := ⟨unwindFrames (max depth 1) s.frames⟩

/-! ## Variables -/

def declare (s : Scopes) (name : String) : Attempt Scopes :=
  if name = "" then Attempt.fail (.scope .variableNameMissing)
  else match s.frames with
    | [] => Attempt.crash .noCurrentFrame
    | f :: rest =>
      if f.vars.contains name then Attempt.fail (.scope (.variableExists name))
      else .ok ⟨f.setVariable name 0 :: rest⟩

/-- Sets a variable of the current frame and creates it there if needed. -/
def assignCurrent (s : Scopes) (name : String) (v : Float) : Except Crash Scopes :=
  (s.frames.modifyCurrent fun f => f.setVariable name v).map Scopes.mk

/-- The value of the innermost variable, and the index of its frame. -/
def lookupIn (name : String) : Frames → Option (Float × Nat)
  | [] => none
  | f :: rest =>
    match f.vars.get? name with
    | some v => some (v, f.index)
    | none => lookupIn name rest

def lookup (s : Scopes) (name : String) : Option (Float × Nat) := lookupIn name s.frames

def value? (s : Scopes) (name : String) : Option Float := (s.lookup name).map (·.1)

def updateIn (name : String) (v : Float) : Frames → Option Frames
  | [] => none
  | f :: rest =>
    if f.vars.contains name then some (f.setVariable name v :: rest)
    else (updateIn name v rest).map (f :: ·)

def update (s : Scopes) (name : String) (v : Float) : Attempt Scopes :=
  match updateIn name v s.frames with
  | some frames => .ok ⟨frames⟩
  | none => Attempt.fail (.scope (.variableUndeclared name))

/-! ## Arrays -/

def findArrayIn (name : String) : Frames → Option NumberArray
  | [] => none
  | f :: rest =>
    match f.arrays.get? name with
    | some a => some a
    | none => findArrayIn name rest

def findArray (s : Scopes) (name : String) : Option NumberArray := findArrayIn name s.frames

def declareArray (s : Scopes) (name : String) (size : Int) : Attempt Scopes :=
  if name = "" then Attempt.fail (.scope .arrayNameMissing)
  else if size ≤ 0 then Attempt.fail (.scope (.arraySizeNotPositive size))
  else if (s.findArray name).isSome then Attempt.fail (.scope (.arrayExists name))
  else match s.frames, Scope.zeroArray size with
    | [], _ => Attempt.crash .noCurrentFrame
    | _, .error c => Attempt.crash c
    | f :: rest, .ok a => .ok ⟨f.setArray name a :: rest⟩

/-- The array of a name and a position in it. -/
def checkedArray (s : Scopes) (name : String) (index : Int) : Attempt (NumberArray × Nat) :=
  match s.findArray name with
  | none => Attempt.fail (.scope (.arrayUndeclared name))
  | some a =>
    if index < 0 ∨ a.size ≤ index then
      Attempt.fail (.scope (.indexOutOfBounds index name a.size))
    else .ok (a, index.toNat)

def element (s : Scopes) (name : String) (index : Int) : Attempt Float := do
  let (a, i) ← s.checkedArray name index
  match a.elements[i]? with
  | some v => .ok v
  | none => Attempt.crash .outOfRange

def setElementIn (name : String) (i : Nat) (v : Float) : Frames → Frames
  | [] => []
  | f :: rest =>
    match f.arrays.get? name with
    | some a => f.setArray name (a.set i v) :: rest
    | none => f :: setElementIn name i v rest

def setElement (s : Scopes) (name : String) (index : Int) (v : Float) : Attempt Scopes := do
  let (a, i) ← s.checkedArray name index
  if i < a.elements.size then .ok ⟨setElementIn name i v s.frames⟩ else Attempt.crash .outOfRange

/-! ## Snapshots -/

/-- What the frames hold in one of their tables. The outermost frame comes first, and the
innermost value of a name wins. -/
def snapshot {α : Type} (s : Scopes) (table : Frame → Table α) : Except Crash (List (String × α)) :=
  do
  let frames ← s.frames.each
  return (frames.foldl (fun t f => t.merge (table f)) Table.empty).entries

def vars (s : Scopes) : Except Crash (List (String × Float)) := s.snapshot Frame.vars

def arrays (s : Scopes) : Except Crash (List (String × NumberArray)) := s.snapshot Frame.arrays

end Scopes

end Flowchart
