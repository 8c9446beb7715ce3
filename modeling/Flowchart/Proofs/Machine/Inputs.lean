import Flowchart.Proofs.Graph.Chains
import Flowchart.Proofs.Graph.Renaming
import Flowchart.Proofs.Machine.Finite
import Flowchart.Proofs.Machine.Safety

/-!
# Chains of inputs

A data block may need the value of another one as its index, and that block may need a third.
Where such an evaluation fails is told by rules that carry the chain along. The machine does
not look at the chain: it counts, and names the block that failed on the way back.
-/

namespace Flowchart

def Failure.IsInputCycle (f : Failure) : Prop :=
  f.kind = .linkage ∧ f.message = "data inputs form a cycle"

namespace Machine

open Attempt Flowchart.Graph

variable {g : Graph} {m : Scopes} {fuel : Nat} {h h' : Handle} {n : Node} {path : List Handle}
  {x f : Failure}

/-- The block that the data block `h` takes its index from. -/
def indexBlock? (g : Graph) (h : Handle) : Option Handle :=
  (g.node? h).bind fun n =>
    match n.fields with
    | .arrayElement array _ => if array = "" then none else n.input .index
    | _ => none

theorem indexBlock?_eq_some_iff :
    indexBlock? g h = some h' ↔ ∃ n array text, g.node h = .ok n ∧
      n.fields = .arrayElement array text ∧ array ≠ "" ∧
      n.input .index = some h' := by
  simp only [indexBlock?, node?, node_eq_ok_iff, Option.bind_eq_some_iff]
  constructor
  · rintro ⟨n, hn, hinput⟩
    split at hinput
    · split_ifs at hinput with harray
      exact ⟨n, _, _, hn, by assumption, harray, hinput⟩
    · cases hinput
  · rintro ⟨n, array, text, hn, hfields, harray, hinput⟩
    exact ⟨n, hn, by simp [hfields, harray, hinput]⟩

/-! ## Rules for failures -/

/-- The data block `h` cannot be evaluated itself: the block it takes its index from, if there is
one, has a value. Behind `h` a chain may be `fuel` blocks long. -/
inductive OwnFault (g : Graph) (m : Scopes) : (fuel : Nat) → Handle → Failure → Prop
  | cycle {h : Handle} {n : Node} (hn : g.node h = .ok n) :
      OwnFault g m 0 h { cause := .graph .inputCycle }
  | expression {fuel : Nat} {h : Handle} {n : Node} {text : String} {e : Expr.Error}
      (hn : g.node h = .ok n) (hfields : n.fields = .arithmetic text)
      (he : Expr.eval (resolver m) text = .error e) :
      OwnFault g m (fuel + 1) h { cause := .expression e, context := ["expression"] }
  | nameMissing {fuel : Nat} {h : Handle} {n : Node} {text : String} (hn : g.node h = .ok n)
      (hfields : n.fields = .arrayElement "" text) :
      OwnFault g m (fuel + 1) h { cause := .scope .arrayNameMissing }
  | index {fuel : Nat} {h : Handle} {n : Node} {array text : String} {e : Expr.Error}
      (hn : g.node h = .ok n) (hfields : n.fields = .arrayElement array text) (harray : array ≠ "")
      (hfree : n.input .index = none) (he : Expr.simple (resolver m) text = .error e) :
      OwnFault g m (fuel + 1) h { cause := .expression e }
  | element {fuel : Nat} {h : Handle} {n : Node} {array text : String} {v : Float} {c : Cause}
      (hn : g.node h = .ok n) (hfields : n.fields = .arrayElement array text) (harray : array ≠ "")
      (hv : inputValue g m fuel n .index text = .ok v)
      (hc : m.element array (Number.floorInt v) = Attempt.fail c) :
      OwnFault g m (fuel + 1) h { cause := c }
  | noValue {fuel : Nat} {h : Handle} {n : Node} (hn : g.node h = .ok n)
      (harithmetic : ∀ e, n.fields ≠ .arithmetic e)
      (helement : ∀ a i, n.fields ≠ .arrayElement a i) :
      OwnFault g m (fuel + 1) h { cause := .graph (.noValue n.type) }

/-- The data block `h` cannot be evaluated because the last block on `path` cannot. The path starts
at `h`, and the blocks before the last one only use its value. -/
inductive Faulty (g : Graph) (m : Scopes) :
    (fuel : Nat) → Handle → (path : List Handle) → Failure → Prop
  | own {fuel : Nat} {h : Handle} {x : Failure} (hx : OwnFault g m fuel h x) :
      Faulty g m fuel h [h] x
  | input {fuel : Nat} {h h' : Handle} {path : List Handle} {x : Failure}
      (hlink : indexBlock? g h = some h') (hx : Faulty g m fuel h' path x) :
      Faulty g m (fuel + 1) h (h :: path) x

/-- The id of the last block on a path; nothing on an empty one. -/
def sourceOf (g : Graph) (path : List Handle) : String :=
  ((path.getLast?.bind g.node?).map Node.id).getD ""

theorem sourceOf_singleton (hn : g.node h = .ok n) : sourceOf g [h] = n.id := by
  simp [sourceOf, node?, node_eq_ok_iff.mp hn]

theorem sourceOf_cons (hpath : path ≠ []) : sourceOf g (h :: path) = sourceOf g path := by
  obtain ⟨y, ys, rfl⟩ := List.exists_cons_of_ne_nil hpath
  simp [sourceOf, List.getLast?_cons_cons]

theorem OwnFault.block (hx : OwnFault g m fuel h x) : ∃ n, g.node h = .ok n := by
  cases hx <;> exact ⟨_, by assumption⟩

theorem OwnFault.unattributed (hx : OwnFault g m fuel h x) : x.node = "" ∧ x.source = "" := by
  cases hx <;> exact ⟨rfl, rfl⟩

theorem OwnFault.named (hx : OwnFault g m fuel h x) (hn : g.node h = .ok n) :
    x.fromBlock n.id = { x with source := sourceOf g [h] } := by
  rw [sourceOf_singleton hn, Failure.fromBlock, if_pos hx.unattributed.2]

theorem Faulty.path_ne_nil (hx : Faulty g m fuel h path x) : path ≠ [] := by
  cases hx <;> simp

theorem Faulty.unattributed (hx : Faulty g m fuel h path x) : x.node = "" ∧ x.source = "" := by
  induction hx with
  | own hx => exact hx.unattributed
  | input _ _ ih => exact ih

/-- Every block has an id, as in a graph that was built. -/
def Identified (g : Graph) : Prop := ∀ h n, g.node h = .ok n → n.id ≠ ""

theorem Faulty.source_ne (hg : Identified g) (hx : Faulty g m fuel h path x) :
    sourceOf g path ≠ "" := by
  induction hx with
  | own hx =>
    obtain ⟨n, hn⟩ := hx.block
    rw [sourceOf_singleton hn]
    exact hg _ n hn
  | input _ hx ih => rwa [sourceOf_cons hx.path_ne_nil]

/-- `f` is a failure that the rules in `R` give, named for the last block on its path. -/
def Traced (g : Graph) (R : List Handle → Failure → Prop) (f : Failure) : Prop :=
  ∃ path x, R path x ∧ f = { x with source := sourceOf g path }

/-! ## The machine follows the rules -/

theorem mapFailure_eq_failed_iff {α : Type} {φ : Failure → Failure} {r : Attempt α} :
    r.mapFailure φ = .error (.failed f) ↔ ∃ x, r = .error (.failed x) ∧ f = φ x := by
  rcases r with (x | c) | a <;> simp [mapFailure, eq_comm]

theorem ofExpr_eq_failed_iff {α : Type} {r : Except Expr.Error α} :
    ofExpr r = .error (.failed f) ↔ ∃ e, r = .error e ∧ f = { cause := .expression e } := by
  cases r <;> simp [ofExpr, Attempt.fail, eq_comm]

theorem checkedArray_eq_failed {array : String} {i : Int}
    (hf : m.checkedArray array i = .error (.failed f)) :
    f = { cause := f.cause } := by
  unfold Scopes.checkedArray at hf
  split at hf
  · cases hf; rfl
  · split_ifs at hf
    cases hf; rfl

theorem element_eq_failed {array : String} {i : Int} (hf : m.element array i = .error (.failed f)) :
    f = { cause := f.cause } ∧ m.element array i = Attempt.fail f.cause := by
  have hbare : f = { cause := f.cause } := by
    rcases bind_eq_error hf with hf | ⟨⟨a, k⟩, -, hf⟩
    · exact checkedArray_eq_failed hf
    · simp only at hf
      split at hf <;> cases hf
  exact ⟨hbare, by rw [hf, Attempt.fail, ← hbare]⟩

theorem value_zero (hn : g.node h = .ok n) :
    value g m 0 h = (Attempt.fail (.graph .inputCycle)).mapFailure (·.fromBlock n.id) := by
  simp [value, hn, attempt, bind, Except.bind]

theorem value_arithmetic {text : String} (hn : g.node h = .ok n)
    (hfields : n.fields = .arithmetic text) :
    value g m (fuel + 1) h =
      ((ofExpr (Expr.eval (resolver m) text)).mapFailure (·.within "expression")).mapFailure
      (·.fromBlock n.id) := by
  simp [value, hn, attempt, bind, Except.bind, hfields]

theorem value_nameless {text : String} (hn : g.node h = .ok n)
    (hfields : n.fields = .arrayElement "" text) :
    value g m (fuel + 1) h =
      (Attempt.fail (.scope .arrayNameMissing)).mapFailure (·.fromBlock n.id) := by
  simp [value, hn, attempt, bind, Except.bind, hfields]

theorem value_other (hn : g.node h = .ok n) (harithmetic : ∀ e, n.fields ≠ .arithmetic e)
    (helement : ∀ a i, n.fields ≠ .arrayElement a i) :
    value g m (fuel + 1) h =
      (Attempt.fail (.graph (.noValue n.type))).mapFailure (·.fromBlock n.id) := by
  simp only [value, hn, attempt, bind, Except.bind]

theorem inputValue_bound {text : String} {slot : Slot} (hinput : n.input slot = some h') :
    inputValue g m fuel n slot text = value g m fuel h' := by
  simp [inputValue, hinput]

theorem traced_of_own (hn : g.node h = .ok n) (hx : OwnFault g m fuel h x)
    (hf : f = x.fromBlock n.id) :
    Traced g (Faulty g m fuel h) f :=
  ⟨[h], x, .own hx, hf.trans (hx.named hn)⟩

theorem traced_of_value (hg : Identified g) (hf : value g m fuel h = .error (.failed f)) :
    Traced g (Faulty g m fuel h) f := by
  induction fuel generalizing h f with
  | zero =>
    cases hn : g.node h with
    | error c => simp [value, hn, attempt, crash, bind, Except.bind] at hf
    | ok n =>
      rw [value_zero hn, mapFailure_eq_failed_iff] at hf
      obtain ⟨x, hx, hf⟩ := hf
      cases hx
      exact traced_of_own hn (.cycle hn) hf
  | succ fuel ih =>
    cases hn : g.node h with
    | error c => simp [value, hn, attempt, crash, bind, Except.bind] at hf
    | ok n =>
      cases hfields : n.fields
      case arithmetic text =>
        rw [value_arithmetic hn hfields, mapFailure_eq_failed_iff] at hf
        obtain ⟨x, hx, hf⟩ := hf
        obtain ⟨y, hy, rfl⟩ := mapFailure_eq_failed_iff.mp hx
        obtain ⟨e, he, rfl⟩ := ofExpr_eq_failed_iff.mp hy
        exact traced_of_own hn (.expression hn hfields he) hf
      case arrayElement array text =>
        by_cases harray : array = ""
        · subst harray
          rw [value_nameless hn hfields, mapFailure_eq_failed_iff] at hf
          obtain ⟨x, hx, hf⟩ := hf
          cases hx
          exact traced_of_own hn (.nameMissing hn hfields) hf
        · rw [value_arrayElement hn hfields harray, mapFailure_eq_failed_iff] at hf
          obtain ⟨x, hx, hf⟩ := hf
          rcases bind_eq_error hx with hx | ⟨v, hv, hx⟩
          · cases hinput : n.input .index with
            | none =>
              simp only [inputValue, hinput] at hx
              obtain ⟨e, he, rfl⟩ := ofExpr_eq_failed_iff.mp hx
              exact traced_of_own hn (.index hn hfields harray hinput he) hf
            | some h' =>
              -- The failure of the index names its block already, so this one adds nothing.
              rw [inputValue_bound hinput] at hx
              obtain ⟨path, y, hy, rfl⟩ := ih hx
              have hlink : indexBlock? g h = some h' :=
                indexBlock?_eq_some_iff.mpr ⟨n, array, text, hn, hfields, harray, hinput⟩
              refine ⟨h :: path, y, .input hlink hy, ?_⟩
              rw [hf, sourceOf_cons hy.path_ne_nil, Failure.fromBlock, if_neg (hy.source_ne hg)]
          · obtain ⟨hbare, hfail⟩ := element_eq_failed hx
            rw [hbare] at hf
            exact traced_of_own hn (.element hn hfields harray hv hfail) hf
      all_goals
        rw [value_other hn (by simp [hfields]) (by simp [hfields]), mapFailure_eq_failed_iff] at hf
        obtain ⟨x, hx, hf⟩ := hf
        cases hx
        exact traced_of_own hn (.noValue hn (by simp [hfields]) (by simp [hfields])) hf

theorem value_of_ownFault (hx : OwnFault g m fuel h x) :
    value g m fuel h = .error (.failed { x with source := sourceOf g [h] }) := by
  obtain ⟨n, hn⟩ := hx.block
  rw [← hx.named hn]
  cases hx with
  | cycle hn' =>
    rw [value_zero hn]
    rfl
  | expression hn' hfields he =>
    cases hn.symm.trans hn'
    rw [value_arithmetic hn hfields, he]
    rfl
  | nameMissing hn' hfields =>
    cases hn.symm.trans hn'
    rw [value_nameless hn hfields]
    rfl
  | index hn' hfields harray hfree he =>
    cases hn.symm.trans hn'
    rw [value_arrayElement hn hfields harray, inputValue, hfree]
    simp only [he]
    rfl
  | element hn' hfields harray hv hc =>
    cases hn.symm.trans hn'
    rw [value_arrayElement hn hfields harray, hv]
    simp only [bind, Except.bind, hc]
    rfl
  | noValue hn' harithmetic helement =>
    cases hn.symm.trans hn'
    rw [value_other hn harithmetic helement]
    rfl

theorem value_of_faulty (hg : Identified g) (hx : Faulty g m fuel h path x) :
    value g m fuel h = .error (.failed { x with source := sourceOf g path }) := by
  induction hx with
  | own hx => exact value_of_ownFault hx
  | input hlink hx ih =>
    obtain ⟨n, array, text, hn, hfields, harray, hinput⟩ := indexBlock?_eq_some_iff.mp hlink
    rw [value_arrayElement hn hfields harray, inputValue_bound hinput, ih,
      sourceOf_cons hx.path_ne_nil]
    simp only [bind, Except.bind, mapFailure, Failure.fromBlock, if_neg (hx.source_ne hg)]

/-- The evaluation of a data block fails exactly as the rules say, and names the last block on the
path that they give. -/
theorem value_eq_failed_iff (hg : Identified g) :
    value g m fuel h = .error (.failed f) ↔ Traced g (Faulty g m fuel h) f := by
  refine ⟨traced_of_value hg, ?_⟩
  rintro ⟨path, x, hx, rfl⟩
  exact value_of_faulty hg hx

theorem identified_of_build {records : List Record} (hb : build records = .ok g) :
    Identified g := by
  intro h n hn
  obtain ⟨r, hr, rfl⟩ := (node_of_build hb).mp hn
  exact (ids_of_build hb).1 r (List.mem_of_getElem? hr)

/-! ## Circular inputs -/

theorem message_noValue (type : String) :
    ({ cause := .graph (.noValue type) } : Failure).message ≠ "data inputs form a cycle" := by
  have hmessage : ({ cause := .graph (.noValue type) } : Failure).message =
      type ++ " block produces no value" := rfl
  intro heq
  -- The two texts differ in the last letter but one.
  have hlast : (" block produces no value".toList.reverse ++ type.toList.reverse)[1]? =
      "data inputs form a cycle".toList.reverse[1]? := by
    rw [← heq, hmessage, String.toList_append, List.reverse_append]
  rw [List.getElem?_append_left (by decide)] at hlast
  exact absurd hlast (by decide)

theorem OwnFault.fuel_eq_zero (hx : OwnFault g m fuel h x) (hcycle : x.IsInputCycle) :
    fuel = 0 := by
  obtain ⟨hkind, hmessage⟩ := hcycle
  cases hx with
  | cycle => rfl
  | expression => cases hkind
  | nameMissing => cases hkind
  | index => cases hkind
  | @element _ _ _ array _ v c _ _ _ _ hc =>
    exact absurd hkind (Scopes.ordinary_of_element hc).2
  | noValue => exact absurd hmessage (message_noValue _)

theorem Faulty.isSome_chainAt (hx : Faulty g m fuel h path x) (hcycle : x.IsInputCycle) :
    (chainAt (indexBlock? g) fuel h).isSome := by
  induction hx with
  | own hx =>
    rw [hx.fuel_eq_zero hcycle]
    rfl
  | input hlink _ ih =>
    rw [chainAt_succ hlink]
    exact ih hcycle

theorem faulty_of_chainAt (hg : g.Linked) (hh : h < g.size)
    (hchain : (chainAt (indexBlock? g) fuel h).isSome) :
    ∃ path, Faulty g m fuel h path { cause := .graph .inputCycle } := by
  induction fuel generalizing h with
  | zero =>
    obtain ⟨n, hn⟩ := exists_node hh
    exact ⟨[h], .own (.cycle hn)⟩
  | succ fuel ih =>
    obtain ⟨y, hy⟩ := Option.isSome_iff_exists.mp hchain
    obtain ⟨h', hlink, hy⟩ := Option.bind_eq_some_iff.mp hy
    obtain ⟨n, _, _, hn, -, -, hinput⟩ := indexBlock?_eq_some_iff.mp hlink
    obtain ⟨path, hx⟩ := ih (hg.inputs h n .index h' hn hinput) (by simp [hy])
    exact ⟨h :: path, .input hlink hx⟩

theorem value_add (hend : chainAt (indexBlock? g) fuel h = none) (k : Nat) :
    value g m (fuel + k) h = value g m fuel h := by
  induction fuel generalizing h with
  | zero => cases hend
  | succ fuel ih =>
    rw [Nat.succ_add]
    cases hn : g.node h with
    | error c => simp [value, hn, attempt, crash, bind, Except.bind]
    | ok n =>
      cases hfields : n.fields
      case arithmetic text => rw [value_arithmetic hn hfields, value_arithmetic hn hfields]
      case arrayElement array text =>
        by_cases harray : array = ""
        · subst harray
          rw [value_nameless hn hfields, value_nameless hn hfields]
        · rw [value_arrayElement hn hfields harray, value_arrayElement hn hfields harray]
          cases hinput : n.input .index with
          | none => simp only [inputValue, hinput]
          | some h' =>
            have hlink : indexBlock? g h = some h' :=
              indexBlock?_eq_some_iff.mpr ⟨n, array, text, hn, hfields, harray, hinput⟩
            rw [chainAt_succ hlink] at hend
            rw [inputValue_bound hinput, inputValue_bound hinput, ih hend]
      all_goals rw [value_other hn (by simp [hfields]) (by simp [hfields]),
        value_other hn (by simp [hfields]) (by simp [hfields])]

theorem indexBlock?_lt (hg : g.Linked) {y z : Handle} (hlink : indexBlock? g y = some z) :
    z < g.size := by
  obtain ⟨n, _, _, hn, -, -, hinput⟩ := indexBlock?_eq_some_iff.mp hlink
  exact hg.inputs y n .index z hn hinput

theorem operand_bound {slot : Slot} (hbound : n.input slot = some h) (text : String) :
    operand g m n slot text = value g m g.size h := by
  simp [operand, hbound]

theorem outputText_bound (hbound : n.input .value = some h) (expression : String) :
    outputText g m n expression = (value g m g.size h).map Number.format := by
  simp [outputText, hbound]

/-- Counting is as good as looking for a circle. The evaluation of an input that is bound ends with
a value or a failure, in a memory whose arrays have the sizes they are said to have, as every memory
has that a run gets to. If the chain of inputs behind it never ends, that is the failure; if it
ends, it is not, and no higher bound would change anything. -/
theorem input_cycles_are_found (records : List Record) (g : Graph) (hb : build records = .ok g)
    (m : Scopes) (x h : Handle) (n : Node) (slot : Slot) (hn : g.node x = .ok n)
    (hbound : n.input slot = some h) (text : String) :
    (m.Sized →
      (∃ v, operand g m n slot text = .ok v) ∨ ∃ f, operand g m n slot text = .error (.failed f)) ∧
    (Endless (indexBlock? g) h →
      ∃ f, operand g m n slot text = .error (.failed f) ∧ f.IsInputCycle) ∧
    (¬ Endless (indexBlock? g) h →
      (∀ f, operand g m n slot text = .error (.failed f) → ¬ f.IsInputCycle) ∧
      ∀ bound, g.size ≤ bound → value g m bound h = operand g m n slot text) ∧
    (slot = .value → ∀ expression,
      outputText g m n expression = (operand g m n slot text).map Number.format) ∧
    ∀ (p : Program) (start : Handle) (failures : List Failure) (s : State),
      Reaches p (.initial start failures) s → s.scopes.Sized := by
  have hg := linked_of_build hb
  have hids := identified_of_build hb
  have hh : h < g.size := hg.inputs x n slot h hn hbound
  have hend : Endless (indexBlock? g) h ↔ (chainAt (indexBlock? g) g.size h).isSome :=
    endless_iff (fun _ _ => indexBlock?_lt hg) hh
  rw [operand_bound hbound]
  refine ⟨fun hm => ?_, fun hendless => ?_,
    fun hfinite => ⟨fun f hf hcycle => ?_, fun bound hbound' => ?_⟩, ?_,
    fun p start failures s hs => (reaches_disciplined hs).memory.sized⟩
  · have hallows := (permits_all hg).inputs x n slot h m hn hbound hm
    generalize value g m g.size h = r at hallows
    cases hallows with
    | ok v => exact Or.inl ⟨v, rfl⟩
    | failed f _ => exact Or.inr ⟨f, rfl⟩
  · obtain ⟨path, hx⟩ := faulty_of_chainAt (m := m) hg hh (hendless g.size)
    exact ⟨_, value_of_faulty hids hx, rfl, rfl⟩
  · obtain ⟨path, y, hy, rfl⟩ := traced_of_value hids hf
    exact hfinite (hend.mpr (hy.isSome_chainAt hcycle))
  · obtain ⟨k, rfl⟩ := Nat.exists_eq_add_of_le hbound'
    exact value_add (by simpa using mt hend.mpr hfinite) k
  · rintro rfl expression
    exact outputText_bound hbound expression

/-- The output takes its value through two blocks from itself. -/
def roundTrip : List Record :=
  [{ id := "out", type := "output", inputs := ⟨"first", "", "", ""⟩ },
   { id := "first", type := "arrayElement", data := { arrayName := "a" },
     inputs := ⟨"", "", "", "second"⟩ },
   { id := "second", type := "arrayElement", data := { arrayName := "b" },
     inputs := ⟨"", "", "", "out"⟩ }]

/-- As long a chain as there are blocks is no circle: what fails is that an output has no value. -/
theorem input_cycles_are_found_roundTrip :
    ∃ g n f, build roundTrip = .ok g ∧ g.node 0 = .ok n ∧ n.input .value = some 1 ∧
      (chainAt (indexBlock? g) 2 1) = some 0 ∧ ¬ Endless (indexBlock? g) 1 ∧
      operand g .initial n .value "" = .error (.failed f) ∧ f.cause = .graph (.noValue "output") ∧
      ¬ f.IsInputCycle := by
  obtain ⟨g, hb⟩ : ∃ g, build roundTrip = .ok g := ⟨_, rfl⟩
  have hg : g = _ := Except.ok.inj (hb.symm.trans rfl)
  have hfinite : ¬ Endless (indexBlock? g) 1 := by
    intro hendless
    have hthree := hendless 3
    rw [hg] at hthree
    revert hthree
    decide
  obtain ⟨n, f, hn, hbound, hvalue, hcause⟩ : ∃ n f, g.node 0 = .ok n ∧ n.input .value = some 1 ∧
      operand g .initial n .value "" = .error (.failed f) ∧
      f.cause = .graph (.noValue "output") := by
    rw [hg]
    exact ⟨_, _, rfl, rfl, rfl, rfl⟩
  have hall := input_cycles_are_found roundTrip g hb .initial 0 1 n .value hn hbound ""
  exact ⟨g, n, f, hb, hn, hbound,
    by rw [hg]; rfl, hfinite, hvalue, hcause, (hall.2.2.1 hfinite).1 f hvalue⟩

end Machine

end Flowchart
