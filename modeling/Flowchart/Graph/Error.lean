import Flowchart.Block.Port
import Flowchart.Failure.Kind

/-!
# Errors of graphs

What can be wrong with the way blocks are put together.
-/

namespace Flowchart.Graph

inductive Error where
  | idMissing (position : Nat)
  | duplicateId (id : String)
  | secondStart
  | startMissing
  | startNotFound
  | unknownType (type : String)
  | branchMissing (type : String) (port : Port)
  | selfLink
  | unknownLink (port : Port) (target : String)
  | secondIncoming
  | inputMissing (type : String) (slot : Slot)
  | unknownInput (slot : Slot) (producer : String)
  | inputWithoutValue (slot : Slot) (kind : BlockKind)
  | inputCycle
  | noValue (type : String)
deriving Repr, DecidableEq

namespace Error

def kind : Error → FailureKind
  | idMissing _ | duplicateId _ | secondStart | startMissing | startNotFound
  | unknownType _ => .graph
  | branchMissing .. | selfLink | unknownLink .. | secondIncoming | inputMissing ..
  | unknownInput .. | inputWithoutValue .. | inputCycle | noValue _ => .linkage

def message : Error → String
  | idMissing position => s!"block #{position} has no instance ID"
  | duplicateId id => s!"duplicate instance ID '{id}'"
  | secondStart => "more than one start block"
  | startMissing => "no start block"
  | startNotFound => "no start block found"
  | unknownType type => s!"unknown block type '{type}'"
  | branchMissing type port => s!"{type} block has no {port.label} branch"
  | selfLink => "block links to itself"
  | unknownLink port target => s!"{port.label} link to unknown block '{target}'"
  | secondIncoming => "block has more than one incoming link"
  | inputMissing type slot => s!"{type} block has no {slot.label} input"
  | unknownInput slot producer => s!"{slot.label} input bound to unknown block '{producer}'"
  | inputWithoutValue slot kind =>
    s!"{slot.label} input bound to {kind.tag} block, which produces no value"
  | inputCycle => "data inputs form a cycle"
  | noValue type => s!"{type} block produces no value"

end Error

end Flowchart.Graph
