import Flowchart.Block.Port

/-!
# Errors of edits

Why a workspace refuses a change.
-/

namespace Flowchart.Workspace

inductive Error where
  | idMissing
  | duplicateId (id : String)
  | secondStart
  | noBlock (id : String)
  | selfConnection
  | branchMissing (type : String) (port : Port)
  | notOutgoing (port : Port)
  | portTaken (port : Port)
  | incomingTaken
  | selfBinding
  | noValue (type : String)
  | inputMissing (type : String) (slot : Slot)
  | unknownPort (port : Port)
deriving Repr, DecidableEq

def Error.message : Error → String
  | idMissing => "block has no instance ID"
  | duplicateId id => s!"duplicate instance ID '{id}'"
  | secondStart => "workspace already has a start block"
  | noBlock id => s!"no block '{id}' in workspace"
  | selfConnection => "cannot connect a block to itself"
  | branchMissing type port => s!"{type} block has no {port.label} branch"
  | notOutgoing port => s!"cannot connect from {port.label} port"
  | portTaken port => s!"{port.label} port is already connected"
  | incomingTaken => "block already has an incoming link"
  | selfBinding => "cannot bind a block to itself"
  | noValue type => s!"{type} block produces no value"
  | inputMissing type slot => s!"{type} block has no {slot.label} input"
  | unknownPort port => s!"unknown port {port.label}"

end Flowchart.Workspace
