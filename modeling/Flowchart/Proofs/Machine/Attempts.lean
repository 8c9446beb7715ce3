import Flowchart.Machine.Evaluate
import Flowchart.Proofs.Graph.Build
import Flowchart.Proofs.Scope.Frames

/-!
# What attempts can end in

Reading and changing memory and evaluating inputs may fail for reasons that lie in the
program, but they do not crash: there is always a current frame, positions in arrays are
checked, and inputs lead to blocks. Only an array that is too large for any memory crashes.
-/

namespace Flowchart

/-- Neither the way blocks are put together nor a linkage is to blame. -/
def Cause.Ordinary (c : Cause) : Prop := c.kind ≠ .graph ∧ c.kind ≠ .linkage

theorem ordinary_expression (e : Expr.Error) : Cause.Ordinary (.expression e) := by
  simp [Cause.Ordinary, Cause.kind]

theorem ordinary_scope (e : Scope.Error) : Cause.Ordinary (.scope e) := by
  cases e <;> simp [Cause.Ordinary, Cause.kind, Scope.Error.kind]

namespace Attempt

variable {α β : Type} {P : Cause → Prop}

/-- The attempt does not crash, and fails only for causes in `P`. -/
inductive Allows (P : Cause → Prop) : Attempt α → Prop
  | ok (a : α) : Allows P (.ok a)
  | failed (f : Failure) (hf : P f.cause) : Allows P (.error (.failed f))

theorem allows_fail {c : Cause} (hc : P c) :
    Allows P (fail c : Attempt α) := .failed { cause := c } hc

theorem allows_ofExpr (hP : ∀ c, Cause.Ordinary c → P c) (x : Except Expr.Error α) :
    Allows P (ofExpr x) := by
  cases x with
  | ok a => exact .ok a
  | error e => exact allows_fail (hP _ (ordinary_expression e))

theorem Allows.bind {x : Attempt α} {k : α → Attempt β} (hx : Allows P x)
    (hk : ∀ a, x = .ok a → Allows P (k a)) : Allows P (x >>= k) := by
  cases hx with
  | ok a => exact hk a rfl
  | failed f hf => exact .failed f hf

theorem Allows.map {x : Attempt α} (hx : Allows P x) (k : α → β) : Allows P (Except.map k x) := by
  cases hx with
  | ok a => exact .ok (k a)
  | failed f hf => exact .failed f hf

theorem Allows.within {x : Attempt α} (hx : Allows P x) (context : String) :
    Allows P (x.mapFailure (·.within context)) := by
  cases hx with
  | ok a => exact .ok a
  | failed f hf => exact .failed (f.within context) hf

theorem cause_fromBlock (f : Failure) (id : String) : (f.fromBlock id).cause = f.cause := by
  unfold Failure.fromBlock
  split_ifs <;> rfl

theorem Allows.fromBlock {x : Attempt α} (hx : Allows P x) (id : String) :
    Allows P (x.mapFailure (·.fromBlock id)) := by
  cases hx with
  | ok a => exact .ok a
  | failed f hf =>
    rw [← cause_fromBlock f id] at hf
    exact .failed (f.fromBlock id) hf

end Attempt

open Attempt

/-! ## Memory -/

namespace Scopes

variable {P : Cause → Prop} {s : Scopes}

theorem allows_declare (hP : ∀ c, Cause.Ordinary c → P c) (hs : s.frames ≠ []) (name : String) :
    Allows P (s.declare name) := by
  unfold declare
  split_ifs
  · exact allows_fail (hP _ (ordinary_scope _))
  · split
    · exact absurd (by assumption) hs
    · split_ifs
      · exact allows_fail (hP _ (ordinary_scope _))
      · exact .ok _

theorem allows_assignCurrent (hs : s.frames ≠ []) (name : String) (v : Float) :
    Allows P (Machine.attempt (s.assignCurrent name v)) := by
  unfold assignCurrent Scope.Frames.modifyCurrent
  split
  · exact absurd (by assumption) hs
  · exact .ok _

theorem allows_update (hP : ∀ c, Cause.Ordinary c → P c) (name : String) (v : Float) :
    Allows P (s.update name v) := by
  unfold update
  split
  · exact .ok _
  · exact allows_fail (hP _ (ordinary_scope _))

theorem allows_checkedArray (hP : ∀ c, Cause.Ordinary c → P c) (name : String) (index : Int) :
    Allows P (s.checkedArray name index) := by
  unfold checkedArray
  split
  · exact allows_fail (hP _ (ordinary_scope _))
  · split_ifs
    · exact allows_fail (hP _ (ordinary_scope _))
    · exact .ok _

theorem Sized.lt_of_checkedArray (hs : s.Sized) {name : String} {index : Int}
    {a : Scope.NumberArray} {i : Nat} (h : s.checkedArray name index = .ok (a, i)) :
    i < a.elements.size := by
  obtain ⟨hfound, -, hlt⟩ := checkedArray_eq_ok h
  have hsize : a.size = a.elements.size := hs.findArray hfound
  omega

theorem allows_element (hP : ∀ c, Cause.Ordinary c → P c) (hs : s.Sized) (name : String)
    (index : Int) :
    Allows P (s.element name index) := by
  refine (allows_checkedArray hP name index).bind ?_
  rintro ⟨a, i⟩ hchecked
  simp only [Array.getElem?_eq_getElem (hs.lt_of_checkedArray hchecked)]
  exact .ok _

theorem ordinary_of_element {name : String} {index : Int} {f : Failure}
    (h : s.element name index = .error (.failed f)) : Cause.Ordinary f.cause := by
  have hallows := allows_checkedArray (s := s) (P := Cause.Ordinary) (fun _ h => h) name index
  unfold element at h
  cases hchecked : s.checkedArray name index with
  | error e =>
    rw [hchecked] at h hallows
    cases h
    cases hallows with
    | failed _ hf => exact hf
  | ok found =>
    rw [hchecked] at h
    dsimp only [bind, Except.bind] at h
    split at h <;> cases h

theorem allows_setElement (hP : ∀ c, Cause.Ordinary c → P c) (hs : s.Sized) (name : String)
    (index : Int) (v : Float) : Allows P (s.setElement name index v) := by
  refine (allows_checkedArray hP name index).bind ?_
  rintro ⟨a, i⟩ hchecked
  simp only [hs.lt_of_checkedArray hchecked, if_true]
  exact .ok _

theorem declareArray_allows (hP : ∀ c, Cause.Ordinary c → P c) (hs : s.frames ≠ []) (name : String)
    (size : Int) :
    Allows P (s.declareArray name size) ∨
      s.declareArray name size = .error (.crashed .allocation) ∧
        (Scope.maxArrayBytes : Int) < 8 * size := by
  unfold declareArray
  split_ifs with hname hsize hfound
  · exact Or.inl (allows_fail (hP _ (ordinary_scope _)))
  · exact Or.inl (allows_fail (hP _ (ordinary_scope _)))
  · exact Or.inl (allows_fail (hP _ (ordinary_scope _)))
  · unfold Scope.zeroArray
    split
    · exact absurd (by assumption) hs
    · rename_i hzero _
      split_ifs at hzero with hlarge
      cases hzero
      exact Or.inr ⟨rfl, by omega⟩
    · exact Or.inl (.ok _)

end Scopes

/-! ## Inputs -/

namespace Machine

open Flowchart.Graph

variable {g : Graph} {P : Cause → Prop}

/-- `Serves fuel h` says what is known of a chain of inputs that starts at `h` and may be `fuel`
blocks long. -/
structure Chained (g : Graph) (P : Cause → Prop) (Serves : Nat → Handle → Prop) : Prop where
  block : ∀ fuel h, Serves fuel h → h < g.size
  cycle : ∀ h, Serves 0 h → P (.graph .inputCycle)
  value : ∀ fuel h n, Serves fuel h → g.node h = .ok n → n.kind.isProducer = false →
    P (.graph (.noValue n.type))
  input : ∀ fuel h n slot h', Serves (fuel + 1) h → g.node h = .ok n → n.input slot = some h' →
    Serves fuel h'

theorem isProducer_of_fields {k : BlockKind} {d : Data}
    (harithmetic : ∀ e, Fields.of k d ≠ .arithmetic e)
    (helement : ∀ a i, Fields.of k d ≠ .arrayElement a i) : k.isProducer = false := by
  cases k
  case arithmetic => exact absurd rfl (harithmetic _)
  case arrayElement => exact absurd rfl (helement _ _)
  all_goals rfl

theorem allows_value (hg : g.Linked) (hP : ∀ c, Cause.Ordinary c → P c)
    (Serves : Nat → Handle → Prop) (hc : Chained g P Serves) {s : Scopes} (hs : s.Sized)
    (fuel : Nat) {h : Handle} (hh : Serves fuel h) :
    Allows P (value g s fuel h) := by
  induction fuel generalizing h with
  | zero =>
    obtain ⟨n, hn⟩ := exists_node (hc.block 0 h hh)
    simp only [value, hn, attempt]
    exact (allows_fail (hc.cycle h hh)).fromBlock n.id
  | succ fuel ih =>
    obtain ⟨n, hn⟩ := exists_node (hc.block (fuel + 1) h hh)
    simp only [value, hn, attempt]
    refine Allows.fromBlock ?_ n.id
    split
    · exact (allows_ofExpr hP _).within "expression"
    · split_ifs
      · exact allows_fail (hP _ (ordinary_scope _))
      · split
        · rename_i producer hinput
          refine (ih (hc.input fuel h n .index producer hh hn hinput)).bind fun i _ => ?_
          exact Scopes.allows_element hP hs _ _
        · refine (allows_ofExpr hP _).bind fun i _ => ?_
          exact Scopes.allows_element hP hs _ _
    · -- No other fields give a value, and no other kind has these fields.
      rename_i harithmetic helement
      obtain ⟨data, hfields⟩ := hg.fields h n hn
      rw [hfields] at harithmetic helement
      exact allows_fail (hc.value (fuel + 1) h n hh hn (isProducer_of_fields harithmetic helement))

/-- What blocks may fail for: their own faults, an unknown kind, and the faults of their inputs. -/
structure Permits (g : Graph) (P : Cause → Prop) : Prop where
  ordinary : ∀ c, Cause.Ordinary c → P c
  unknown : ∀ h n, g.node h = .ok n → n.kind = .unknown → P (.graph (.unknownType n.type))
  inputs : ∀ h n slot h' s, g.node h = .ok n → n.input slot = some h' → s.Sized →
    Allows P (value g s g.size h')

variable {h : Handle} {n : Node} {s : Scopes}

theorem allows_operand (hp : Permits g P) (hs : s.Sized) (hn : g.node h = .ok n) (slot : Slot)
    (text : String) :
    Allows P (operand g s n slot text) := by
  unfold operand
  split
  · rename_i producer hinput
    exact hp.inputs h n slot producer s hn hinput hs
  · exact allows_ofExpr hp.ordinary _

theorem allows_arrayIndex (hp : Permits g P) (hs : s.Sized) (hn : g.node h = .ok n)
    (text : String) :
    Allows P (arrayIndex g s n text) :=
  (allows_operand hp hs hn .index text).bind fun i _ => .ok (Number.floorInt i)

theorem allows_condition (hp : Permits g P) (hs : s.Sized) (hn : g.node h = .ok n)
    (text operator : String) :
    Allows P (condition g s n text operator) := by
  refine (allows_operand hp hs hn .left _).bind fun left _ => ?_
  refine (allows_operand hp hs hn .right _).bind fun right _ => ?_
  exact allows_ofExpr hp.ordinary _

theorem allows_outputText (hp : Permits g P) (hs : s.Sized) (hn : g.node h = .ok n)
    (text : String) :
    Allows P (outputText g s n text) := by
  unfold outputText
  split
  · rename_i producer hinput
    exact (hp.inputs h n .value producer s hn hinput hs).map _
  · split_ifs
    · exact allows_fail (hp.ordinary _ (ordinary_expression _))
    · split <;> exact .ok _

theorem allows_prepare (hP : ∀ c, Cause.Ordinary c → P c) (hs : s.frames ≠ [])
    (statement : String) :
    Allows P (prepare s statement) := by
  refine (allows_ofExpr hP _).bind fun a _ => ?_
  refine (allows_ofExpr hP _).bind fun v _ => ?_
  exact Scopes.allows_assignCurrent hs a.name v

theorem allows_advance (hP : ∀ c, Cause.Ordinary c → P c) (statement : String) :
    Allows P (advance s statement) := by
  refine (allows_ofExpr hP _).bind fun a _ => ?_
  split_ifs
  · exact allows_fail (hP _ (ordinary_scope _))
  · refine (allows_ofExpr hP _).bind fun v _ => ?_
    exact Scopes.allows_update hP a.name v

end Machine

end Flowchart
