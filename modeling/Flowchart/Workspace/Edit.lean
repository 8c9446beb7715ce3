import Flowchart.Workspace.Basic

/-!
# Edits

A single change to a workspace, and what a sequence of them leads to. An edit that is
refused is reported and leaves the workspace as it was.
-/

namespace Flowchart

inductive Edit where
  | add (record : Record)
  | remove (id : String)
  | update (id : String) (data : Data)
  | connect (source : String) (port : Port) (target : String)
  | disconnect (id : String) (port : Port)
  | connectInput (producer target : String) (slot : Slot)
  | disconnectInput (id : String) (slot : Slot)
deriving Repr, DecidableEq

namespace Workspace

def apply (w : Workspace) : Edit → Except Failure Workspace
  | .add record => w.add record
  | .remove id => w.remove id
  | .update id data => w.update id data
  | .connect source port target => w.connect source port target
  | .disconnect id port => w.disconnect id port
  | .connectInput producer target slot => w.connectInput producer target slot
  | .disconnectInput id slot => w.disconnectInput id slot

/-- The workspace after an edit, and why the edit was refused, if it was. -/
def edit (w : Workspace) (e : Edit) : Workspace × Option Failure :=
  match w.apply e with
  | .ok w' => (w', none)
  | .error f => (w, some f)

/-- The workspace after edits of which some may be refused. -/
def editAll (w : Workspace) (es : List Edit) : Workspace :=
  es.foldl (fun w e => (w.edit e).1) w

@[simp] theorem editAll_nil (w : Workspace) : w.editAll [] = w := rfl

@[simp] theorem editAll_cons (w : Workspace) (e : Edit) (es : List Edit) :
    w.editAll (e :: es) = (w.edit e).1.editAll es := rfl

/-- A property that every edit keeps holds after any number of edits. -/
theorem editAll_induction {P : Workspace → Prop} (step : ∀ w e, P w → P (w.edit e).1)
    (w : Workspace) (es : List Edit) (h : P w) : P (w.editAll es) := by
  induction es generalizing w with
  | nil => exact h
  | cons e es ih => exact ih _ (step w e h)

end Workspace

end Flowchart
