import Flowchart.Proofs.Machine.Memory
import Flowchart.Proofs.Scope.Snapshots

/-!
# Finite numbers

Expressions may overflow on the way to their value, but what comes out of them is checked.
Variables and elements are read without a check, so that they are finite is an invariant of the
whole memory, kept by everything a run stores.
-/

namespace Flowchart

/-! ## Memory that holds finite numbers -/

structure Scope.Frame.Finite (f : Scope.Frame) : Prop where
  vars : ∀ name v, f.vars.get? name = some v → Number.isFinite v
  arrays : ∀ name a, f.arrays.get? name = some a → ∀ v ∈ a.elements, Number.isFinite v

def Scopes.Finite (m : Scopes) : Prop := ∀ f ∈ m.frames, f.Finite

namespace Scope.Frame

theorem finite_new (name : String) (index : Nat) : (Frame.new name index).Finite where
  vars name v h := by cases h
  arrays name a h := by cases h

theorem Finite.setVariable {f : Frame} (h : f.Finite) (name : String) {v : Float}
    (hv : Number.isFinite v) :
    (f.setVariable name v).Finite where
  vars other w hw := by
    simp only [Frame.setVariable, Table.get?_put] at hw
    split_ifs at hw
    · cases hw
      exact hv
    · exact h.vars other w hw
  arrays := h.arrays

theorem Finite.setArray {f : Frame} (h : f.Finite) (name : String) {a : NumberArray}
    (ha : ∀ v ∈ a.elements, Number.isFinite v) : (f.setArray name a).Finite where
  vars := h.vars
  arrays other b hb := by
    simp only [Frame.setArray, Table.get?_put] at hb
    split_ifs at hb
    · cases hb
      exact ha
    · exact h.arrays other b hb

end Scope.Frame

theorem Number.isFinite_zero : Number.isFinite 0 := by decide +kernel

theorem Scope.Wrote.finite {o : Scope.Operation} {f f' : Scope.Frame} (hw : Scope.Wrote o f f')
    (hstored : ∀ v, o.stored? = some v → Number.isFinite v) (h : f.Finite) : f'.Finite := by
  cases hw with
  | declared name => exact h.setVariable name Number.isFinite_zero
  | assigned name v => exact h.setVariable name (hstored v rfl)
  | updated name v _ hf => exact h.setVariable name (hstored v rfl)
  | arrayDeclared name size =>
    refine h.setArray name fun v hv => ?_
    rw [Array.eq_of_mem_replicate hv]
    exact Number.isFinite_zero
  | elementSet name i a v _ hf =>
    refine h.setArray name fun w hw => ?_
    rcases Array.mem_or_eq_of_mem_setIfInBounds hw with hw | rfl
    · exact h.arrays name a hf w hw
    · exact hstored w rfl

namespace Scopes.Finite

variable {m : Scopes}

theorem value? (h : m.Finite) {name : String} {v : Float} (hv : m.value? name = some v) :
    Number.isFinite v := by
  obtain ⟨⟨w, i⟩, hlookup, rfl⟩ := Option.map_eq_some_iff.mp hv
  obtain ⟨f, ⟨inner, outer, hfs, -, hf⟩, -⟩ := (lookup_eq_some_iff m name w i).mp hlookup
  exact (h f (by simp [hfs])).vars name w hf

theorem element (h : m.Finite) {name : String} {index : Int} {v : Float}
    (hv : m.element name index = .ok v) :
    Number.isFinite v := by
  obtain ⟨⟨a, i⟩, hchecked, hv⟩ := bind_eq_ok hv
  simp only at hv
  split at hv
  · rename_i w hw
    cases hv
    obtain ⟨f, inner, outer, hfs, -, hf⟩ :=
      (findArray_eq_some_iff m name a).mp (checkedArray_eq_ok hchecked).1
    exact (h f (by simp [hfs])).arrays name a hf v (Array.mem_of_getElem? hw)
  · cases hv

end Scopes.Finite

/-! ## Evaluation -/

namespace Expr

theorem finite_eval {resolve : Resolver} {text : String} {v : Float}
    (h : eval resolve text = .ok v) :
    Number.isFinite v := by
  unfold eval at h
  split_ifs at h
  obtain ⟨tokens, -, h⟩ := bind_eq_ok h
  obtain ⟨stack, -, h⟩ := bind_eq_ok h
  split at h
  · split_ifs at h with hv
    cases h
    exact hv
  · cases h

theorem finite_simple {resolve : Resolver}
    (hresolve : ∀ name v, resolve name = some v → Number.isFinite v) {text : String} {v : Float}
    (h : simple resolve text = .ok v) : Number.isFinite v := by
  unfold simple at h
  simp only at h
  split_ifs at h
  split at h
  · rename_i w hw
    cases h
    exact hresolve _ v hw
  · split at h
    · cases h
    · split_ifs at h with hv
      cases h
      exact hv

/-- The number stands on top of the stack of values at some point of an evaluation. -/
def PassesThrough (resolve : Resolver) (text : String) (x : Float) : Prop :=
  ∃ tokens k stack, postfixOf resolve text = .ok tokens ∧ (tokens.take k).foldlM evalToken [] =
    .ok (x :: stack)

/-- The value of a text may be a finite number although infinite ones and such that are no number
at all occur on the way. -/
theorem passesThrough_overflow (resolve : Resolver) :
    eval resolve "(9^999 % 1)^0" = .ok 1 ∧
      (∃ x, PassesThrough resolve "(9^999 % 1)^0" x ∧ x.isInf) ∧
      ∃ x, PassesThrough resolve "(9^999 % 1)^0" x ∧ x.isNaN := by
  have htokens : Token.tokenize "(9^999 % 1)^0" = .ok [⟨.opening, "(", 0, 0⟩, ⟨.number, "9", 9, 1⟩,
      ⟨.operator, "^", 0, 2⟩, ⟨.number, "999", 999, 3⟩, ⟨.operator, "%", 0, 7⟩,
      ⟨.number, "1", 1, 9⟩,
      ⟨.closing, ")", 0, 10⟩, ⟨.operator, "^", 0, 11⟩, ⟨.number, "0", 0, 12⟩] := by decide +kernel
  have hpostfix : postfixOf resolve "(9^999 % 1)^0" =
      .ok [⟨.number, "9", 9, 1⟩, ⟨.number, "999", 999, 3⟩,
      ⟨.operator, "^", 0, 2⟩, ⟨.number, "1", 1, 9⟩, ⟨.operator, "%", 0, 7⟩, ⟨.number, "0", 0, 12⟩,
      ⟨.operator, "^", 0, 11⟩] := by
    rw [postfixOf, htokens]
    rfl
  refine ⟨?_, ⟨Number.pow 9 999, ⟨_, 3, [], hpostfix, rfl⟩, by decide +kernel⟩,
    ⟨Number.remainder (Number.pow 9 999) 1, ⟨_, 5, [], hpostfix, by rfl⟩, by decide +kernel⟩⟩
  rw [eval, hpostfix]
  rfl

end Expr

namespace Machine

variable {p : Program} {g : Graph} {m : Scopes} {n : Node}

/-- The value of an input slot whose chain of inputs may be `fuel` blocks long, or of a text if the
slot is not bound. -/
def inputValue (g : Graph) (m : Scopes) (fuel : Nat) (n : Node) (slot : Slot) (text : String) :
    Attempt Float :=
  match n.input slot with
  | some producer => value g m fuel producer
  | none => Attempt.ofExpr (Expr.simple (resolver m) text)

theorem value_arrayElement {h : Handle} {array text : String} (hn : g.node h = .ok n)
    (hfields : n.fields = .arrayElement array text) (harray : array ≠ "") (fuel : Nat) :
    value g m (fuel + 1) h =
      (inputValue g m fuel n .index text >>= fun v =>
        m.element array (Number.floorInt v)).mapFailure (·.fromBlock n.id) := by
  simp only [value, inputValue, hn, attempt, bind, Except.bind, hfields, if_neg harray]
  cases n.input .index <;> rfl

theorem finite_value (hm : m.Finite) {fuel : Nat} {h : Handle} {v : Float}
    (hv : value g m fuel h = .ok v) :
    Number.isFinite v := by
  cases fuel with
  | zero =>
    obtain ⟨n, -, hv⟩ := bind_eq_ok hv
    cases hv
  | succ fuel =>
    obtain ⟨n, -, hv⟩ := bind_eq_ok hv
    have hv := mapFailure_ok hv
    split at hv
    · exact Expr.finite_eval (ofExpr_eq_ok (mapFailure_ok hv))
    · split_ifs at hv
      · cases hv
      · split at hv
        all_goals
          obtain ⟨i, -, hv⟩ := bind_eq_ok hv
          exact hm.element hv
    · cases hv

theorem finite_inputValue (hm : m.Finite) {fuel : Nat} {slot : Slot} {text : String} {v : Float}
    (hv : inputValue g m fuel n slot text = .ok v) : Number.isFinite v := by
  unfold inputValue at hv
  split at hv
  · exact finite_value hm hv
  · exact Expr.finite_simple (fun _ _ => hm.value?) (ofExpr_eq_ok hv)

theorem Evaluated.finite (hm : m.Finite) {v : Float} (h : Evaluated g m v) : Number.isFinite v := by
  cases h with
  | operand n slot text hv => exact finite_inputValue hm hv
  | expression text hv => exact Expr.finite_eval hv

/-! ## Runs -/

theorem finite_of_reaches {start : Handle} {failures : List Failure} {s : State}
    (h : Reaches p (.initial start failures) s) : s.scopes.Finite :=
  h.frames Scope.Frame.finite_new fun _ _ _ _ hw hwrote hm =>
    hwrote.finite fun _ hv => (hw.evaluated hv).finite hm

/-- How a comparison comes out: an operand has no value, or the values of both are finite and
compared. -/
inductive Compared (g : Graph) (m : Scopes) (n : Node) (c : Expr.Condition) : Attempt Bool → Prop
  | leftFailed (e : Abort) (h : operand g m n .left c.left = .error e) : Compared g m n c (.error e)
  | rightFailed (left : Float) (e : Abort) (hl : operand g m n .left c.left = .ok left)
      (h : operand g m n .right c.right = .error e) : Compared g m n c (.error e)
  | compared (left right : Float) (hl : operand g m n .left c.left = .ok left)
      (hr : operand g m n .right c.right = .ok right) (hleft : Number.isFinite left)
      (hright : Number.isFinite right) :
      Compared g m n c (Attempt.ofExpr (Expr.compare c.operator left right))

theorem compared_condition (hm : m.Finite) (text operator : String) :
    Compared g m n (Expr.Condition.parse text operator) (condition g m n text operator) := by
  unfold condition
  simp only [bind, Except.bind]
  cases hl : operand g m n .left (Expr.Condition.parse text operator).left with
  | error e => exact .leftFailed e hl
  | ok left =>
    simp only
    cases hr : operand g m n .right (Expr.Condition.parse text operator).right with
    | error e => exact .rightFailed left e hl hr
    | ok right =>
      exact .compared left right hl hr (finite_inputValue hm hl) (finite_inputValue hm hr)

/-- How an access to an array comes out: its index has no value, or a finite one that is rounded
down. -/
inductive Indexed {α : Type} (index : Attempt Float) (access : Int → Attempt α) : Attempt α → Prop
  | failed (e : Abort) (h : index = .error e) : Indexed index access (.error e)
  | accessed (v : Float) (h : index = .ok v) (hv : Number.isFinite v) :
      Indexed index access (access (Number.floorInt v))

theorem indexed_bind {α : Type} (hm : m.Finite) (fuel : Nat) (text : String)
    (access : Int → Attempt α) :
    Indexed (inputValue g m fuel n .index text) access
      (inputValue g m fuel n .index text >>= fun v => access (Number.floorInt v)) := by
  cases hv : inputValue g m fuel n .index text with
  | error e => exact .failed e rfl
  | ok v => exact .accessed v rfl (finite_inputValue hm hv)

/-- In every state of every run all variables and elements of all frames hold finite numbers. What
is compared is finite, and so is every index, of an assignment and of an element that is read.
Inside of one expression this is not so. -/
theorem numbers_stay_finite (p : Program) (start : Handle) (failures : List Failure) (s : State)
    (h : Reaches p (.initial start failures) s) :
    (∀ f ∈ s.scopes.frames, f.Finite) ∧
    (∀ n text operator, Compared p.graph s.scopes n (.parse text operator)
      (condition p.graph s.scopes n text operator)) ∧
    (∀ n text, Indexed (operand p.graph s.scopes n .index text) .ok
      (arrayIndex p.graph s.scopes n text)) ∧
    (∀ fuel h n array text, p.graph.node h = .ok n → n.fields = .arrayElement array text →
      array ≠ "" →
      ∃ r, Indexed (inputValue p.graph s.scopes fuel n .index text) (s.scopes.element array) r ∧
        value p.graph s.scopes (fuel + 1) h = r.mapFailure (·.fromBlock n.id)) ∧
    ∃ text v, Expr.eval (resolver s.scopes) text = .ok v ∧
      (∃ x, Expr.PassesThrough (resolver s.scopes) text x ∧ x.isInf) ∧
      ∃ x, Expr.PassesThrough (resolver s.scopes) text x ∧ x.isNaN := by
  have hm := finite_of_reaches h
  refine ⟨hm, fun n text operator => compared_condition hm text operator, fun n text => ?_, ?_, ?_⟩
  · -- An operand is an input whose chain may be as long as the graph has blocks.
    exact indexed_bind hm p.graph.size text .ok
  · intro fuel h n array text hn hfields harray
    exact ⟨_, indexed_bind hm fuel text _, value_arrayElement hn hfields harray fuel⟩
  · exact ⟨_, _, Expr.passesThrough_overflow (resolver s.scopes)⟩

/-- An element is set to a value that an expression overflows for, and compared. -/
def overflowing : List Record :=
  [{ id := "start", type := "start", next := "array" },
   { id := "array", type := "arrayDeclaration", next := "set",
     data := { arrayName := "a", arraySize := "2" } },
   { id := "set", type := "arrayAssignment", next := "if",
     data := { arrayName := "a", arrayIndex := "1" }, inputs := ⟨"power", "", "", ""⟩ },
   { id := "power", type := "arithmetic", data := { expression := "(9^999 % 1)^0" } },
   { id := "if", type := "if", data := { condition := "x < 2" },
     inputs := ⟨"", "element", "", ""⟩ },
   { id := "element", type := "arrayElement", data := { arrayName := "a", arrayIndex := "1.5" } }]

theorem numbers_stay_finite_overflowing :
    ∃ p s n, Loads overflowing p (.initial 0 []) ∧ Reaches p (.initial 0 []) s ∧
      s.scopes.arrays = .ok [("a", ⟨2, #[0, 1]⟩)] ∧
      (∀ f ∈ s.scopes.frames, f.Finite) ∧ p.graph.node 4 = .ok n ∧
      condition p.graph s.scopes n "x < 2" "" = .ok true ∧
      Compared p.graph s.scopes n (.parse "x < 2" "") (.ok true) := by
  obtain ⟨p, s₀, s, n, hload, hs, rfl, harrays, hn, htrue⟩ : ∃ p s₀ s n, Loads overflowing p s₀ ∧
      Reaches p s₀ s ∧ s₀ = .initial 0 [] ∧ s.scopes.arrays = .ok [("a", ⟨2, #[0, 1]⟩)] ∧
      p.graph.node 4 = .ok n ∧ condition p.graph s.scopes n "x < 2" "" = .ok true :=
    ⟨_, _, _, _, .mk rfl rfl rfl .standard, .tail (.tail (.tail .refl (by rfl)) (by rfl)) (by rfl),
      rfl, by rfl, rfl, by rfl⟩
  have h := numbers_stay_finite p 0 [] s hs
  exact ⟨p, s, n, hload, hs, harrays, h.1, hn, htrue, htrue ▸ h.2.1 n "x < 2" ""⟩

end Machine

end Flowchart
