import Flowchart.Proofs.Machine.Inputs
import Flowchart.Proofs.Machine.Schedule

/-!
# How tasks fail

One rule for each thing that can be wrong when a task is carried out: in which state the task
fails, for which failure, and on which path of inputs the failure arose. The path is empty if
it arose in the block of the task itself. A task fails exactly as the rules say.
-/

namespace Flowchart.Machine

open Attempt Flowchart.Graph

variable {p : Program} {g : Graph} {m : Scopes} {s s' : State} {t : Task} {n : Node}
  {path : List Handle} {x f : Failure} {slot : Slot} {text operator : String}

/-! ## Inputs and conditions -/

inductive OperandFault (g : Graph) (m : Scopes) (n : Node) (slot : Slot) (text : String) :
    List Handle → Failure → Prop
  | text {e : Expr.Error} (hfree : n.input slot = none)
      (he : Expr.simple (resolver m) text = .error e) :
      OperandFault g m n slot text [] { cause := .expression e }
  | bound {h : Handle} {path : List Handle} {x : Failure} (hbound : n.input slot = some h)
      (hx : Faulty g m g.size h path x) : OperandFault g m n slot text path x

theorem operand_eq_failed_iff (hg : Identified g) :
    operand g m n slot text = .error (.failed f) ↔ Traced g (OperandFault g m n slot text) f := by
  cases hinput : n.input slot with
  | none =>
    rw [operand, hinput, ofExpr_eq_failed_iff]
    constructor
    · rintro ⟨e, he, rfl⟩
      exact ⟨[], _, .text hinput he, rfl⟩
    · rintro ⟨path, x, hx, rfl⟩
      cases hx with
      | text _ he => exact ⟨_, he, rfl⟩
      | bound hbound _ => simp [hinput] at hbound
  | some h =>
    rw [operand_bound hinput, value_eq_failed_iff hg]
    constructor
    · rintro ⟨path, x, hx, rfl⟩
      exact ⟨path, x, .bound hinput hx, rfl⟩
    · rintro ⟨path, x, hx, rfl⟩
      cases hx with
      | text hfree _ => simp [hinput] at hfree
      | bound hbound hx =>
        cases hinput.symm.trans hbound
        exact ⟨path, x, hx, rfl⟩

inductive ConditionFault (g : Graph) (m : Scopes) (n : Node) (c : Expr.Condition) :
    List Handle → Failure → Prop
  | left {path : List Handle} {x : Failure} (hx : OperandFault g m n .left c.left path x) :
      ConditionFault g m n c path x
  | right {left : Float} {path : List Handle} {x : Failure}
      (hleft : operand g m n .left c.left = .ok left)
      (hx : OperandFault g m n .right c.right path x) : ConditionFault g m n c path x
  | comparison {left right : Float} {e : Expr.Error} (hleft : operand g m n .left c.left = .ok left)
      (hright : operand g m n .right c.right = .ok right)
      (he : Expr.compare c.operator left right = .error e) :
      ConditionFault g m n c [] { cause := .expression e }

theorem condition_eq_failed_iff (hg : Identified g) :
    condition g m n text operator = .error (.failed f) ↔
      Traced g (ConditionFault g m n (.parse text operator)) f := by
  constructor
  · intro hf
    rcases bind_eq_error hf with hf | ⟨left, hleft, hf⟩
    · obtain ⟨path, x, hx, rfl⟩ := (operand_eq_failed_iff hg).mp hf
      exact ⟨path, x, .left hx, rfl⟩
    rcases bind_eq_error hf with hf | ⟨right, hright, hf⟩
    · obtain ⟨path, x, hx, rfl⟩ := (operand_eq_failed_iff hg).mp hf
      exact ⟨path, x, .right hleft hx, rfl⟩
    obtain ⟨e, he, rfl⟩ := ofExpr_eq_failed_iff.mp hf
    exact ⟨[], _, .comparison hleft hright he, rfl⟩
  · rintro ⟨path, x, hx, rfl⟩
    unfold condition
    cases hx with
    | left hx => simp only [(operand_eq_failed_iff hg).mpr ⟨path, x, hx, rfl⟩, bind, Except.bind]
    | right hleft hx =>
      simp only [hleft, (operand_eq_failed_iff hg).mpr ⟨path, x, hx, rfl⟩, bind, Except.bind]
    | comparison hleft hright he =>
      simp only [hleft, hright, he, bind, Except.bind]
      rfl

/-! ## Statements of loops -/

/-- What is wrong with the initialization of a loop, or with its step, whose variable must exist. -/
inductive StatementFault (m : Scopes) (mustExist : Bool) (statement : String) : Failure → Prop
  | malformed {e : Expr.Error} (he : Expr.Assignment.parse statement = .error e) :
      StatementFault m mustExist statement { cause := .expression e }
  | undeclared {a : Expr.Assignment} (ha : Expr.Assignment.parse statement = .ok a)
      (hmust : mustExist = true) (hnone : m.value? a.name = none) :
      StatementFault m mustExist statement { cause := .scope (.variableUndeclared a.name) }
  | expression {a : Expr.Assignment} {e : Expr.Error} (ha : Expr.Assignment.parse statement = .ok a)
      (hexists : mustExist = true → m.value? a.name ≠ none)
      (he : Expr.eval (resolver m) a.expression = .error e) :
      StatementFault m mustExist statement { cause := .expression e }

theorem prepare_eq_failed_iff {statement : String} :
    prepare m statement = .error (.failed f) ↔ StatementFault m false statement f := by
  constructor
  · intro hf
    rcases bind_eq_error hf with hf | ⟨a, ha, hf⟩
    · obtain ⟨e, he, rfl⟩ := ofExpr_eq_failed_iff.mp hf
      exact .malformed he
    have ha := ofExpr_eq_ok ha
    rcases bind_eq_error hf with hf | ⟨v, -, hf⟩
    · obtain ⟨e, he, rfl⟩ := ofExpr_eq_failed_iff.mp hf
      exact .expression ha (by simp) he
    · -- Storing the value can only crash.
      cases hstore : m.assignCurrent a.name v with
      | ok m' => simp [hstore, attempt] at hf
      | error c => simp [hstore, attempt, crash] at hf
  · intro hx
    unfold prepare
    cases hx with
    | malformed he => simp only [he, ofExpr, Attempt.fail, bind, Except.bind]
    | undeclared _ hmust => cases hmust
    | expression ha _ he => simp only [ha, he, ofExpr, Attempt.fail, bind, Except.bind]

theorem isSome_updateIn {name : String} {fs : Scope.Frames} (v : Float)
    (h : (Scopes.lookupIn name fs).isSome) :
    (Scopes.updateIn name v fs).isSome := by
  induction fs with
  | nil => cases h
  | cons frame rest ih =>
    unfold Scopes.updateIn
    split_ifs with hcontains
    · rfl
    · have hnone : frame.vars.get? name = none := by simpa [Table.contains] using hcontains
      simp only [Scopes.lookupIn, hnone] at h
      simpa using ih h

theorem update_ok {name : String} (v : Float) (h : m.value? name ≠ none) :
    ∃ m', m.update name v = .ok m' := by
  have hfound : (Scopes.lookupIn name m.frames).isSome := by
    simpa [Scopes.value?, Scopes.lookup, Option.isSome_iff_ne_none] using h
  obtain ⟨fs, hfs⟩ := Option.isSome_iff_exists.mp (isSome_updateIn v hfound)
  exact ⟨⟨fs⟩, by simp [Scopes.update, hfs]⟩

theorem advance_eq_failed_iff {statement : String} :
    advance m statement = .error (.failed f) ↔ StatementFault m true statement f := by
  constructor
  · intro hf
    rcases bind_eq_error hf with hf | ⟨a, ha, hf⟩
    · obtain ⟨e, he, rfl⟩ := ofExpr_eq_failed_iff.mp hf
      exact .malformed he
    have ha := ofExpr_eq_ok ha
    split_ifs at hf with hnone
    · cases hf
      exact .undeclared ha rfl (by simpa using hnone)
    · have hexists : m.value? a.name ≠ none := by simpa using hnone
      rcases bind_eq_error hf with hf | ⟨v, -, hf⟩
      · obtain ⟨e, he, rfl⟩ := ofExpr_eq_failed_iff.mp hf
        exact .expression ha (fun _ => hexists) he
      · obtain ⟨m', hupdate⟩ := update_ok v hexists
        simp [hupdate] at hf
  · intro hx
    unfold advance
    cases hx with
    | malformed he => simp only [he, ofExpr, Attempt.fail, bind, Except.bind]
    | undeclared ha _ hnone => simp [ha, hnone, ofExpr, Attempt.fail, bind, Except.bind]
    | expression ha hexists he => simp [ha, he, hexists, ofExpr, Attempt.fail, bind, Except.bind]

/-! ## Declarations -/

/-- The frame with new variables behind the others. -/
def withZeros (frame : Scope.Frame) (names : List String) : Scope.Frame :=
  { frame with vars := ⟨frame.vars.entries ++ names.map (·, 0)⟩ }

theorem withZeros_nil (frame : Scope.Frame) : withZeros frame [] = frame := by simp [withZeros]

theorem withZeros_append (frame : Scope.Frame) (names names' : List String) :
    withZeros (withZeros frame names) names' = withZeros frame (names ++ names') := by
  simp [withZeros]

theorem setVariable_of_new {frame : Scope.Frame} {name : String}
    (hnew : ¬ frame.vars.contains name) :
    frame.setVariable name 0 = withZeros frame [name] := by
  rw [Table.contains_iff] at hnew
  simp [Scope.Frame.setVariable, withZeros, Table.put, Table.putInto_of_not_mem name _ _ hnew]

theorem contains_withZeros (frame : Scope.Frame) (names : List String) (name : String) :
    (withZeros frame names).vars.contains name ↔ frame.vars.contains name ∨ name ∈ names := by
  simp [Table.contains_iff, Table.keys, withZeros]

/-- The listed names in front of `name` were new and are declared now; `name` itself is taken. -/
def StoppedAt (names : List String) (name : String) (m m' : Scopes) : Prop :=
  ∃ before after top outer, names = before ++ name :: after ∧ m.frames = top :: outer ∧
    m'.frames = withZeros top before :: outer ∧ before.Nodup ∧
    (∀ y ∈ before, ¬ top.vars.contains y) ∧ (top.vars.contains name ∨ name ∈ before)

theorem declare_eq_ok_iff {name : String} {m' : Scopes} : m.declare name = .ok m' ↔
    name ≠ "" ∧ ∃ top outer, m.frames = top :: outer ∧ ¬ top.vars.contains name ∧
    m' = ⟨withZeros top [name] :: outer⟩ := by
  unfold Scopes.declare
  split_ifs with hname
  · simp [Attempt.fail, hname]
  · split
    · simp [crash, *]
    · rename_i top outer hframes
      split_ifs with htaken
      · simp [Attempt.fail, hframes, htaken]
      · rw [setVariable_of_new htaken]
        constructor
        · rintro ⟨⟩
          exact ⟨hname, top, outer, hframes, htaken, rfl⟩
        · rintro ⟨-, top', outer', hframes', -, rfl⟩
          cases hframes.symm.trans hframes'
          rfl

theorem declare_eq_failed_iff {name : String} (hname : name ≠ "") :
    m.declare name = .error (.failed f) ↔
    ∃ top outer, m.frames = top :: outer ∧ top.vars.contains name ∧
      f = { cause := .scope (.variableExists name) } := by
  unfold Scopes.declare
  rw [if_neg hname]
  split
  · simp [crash, *]
  · rename_i top outer hframes
    split_ifs with htaken
    · constructor
      · rintro ⟨⟩
        exact ⟨top, outer, hframes, htaken, rfl⟩
      · rintro ⟨top', outer', -, -, rfl⟩
        rfl
    · simp [hframes, htaken]

theorem stoppedAt_of_declareAll {names : List String} (hnames : ∀ y ∈ names, y ≠ "")
    (h : declareAll s names = .ok (s', some f)) :
    ∃ name m', StoppedAt names name s.scopes m' ∧ s' = { s with scopes := m' } ∧
      f = { cause := .scope (.variableExists name) } := by
  induction names generalizing s with
  | nil => cases h
  | cons y rest ih =>
    rw [List.forall_mem_cons] at hnames
    rcases after_cases h with ⟨m', hdeclare, h⟩ | ⟨x, hfailed, rfl, hx⟩
    · obtain ⟨-, top, outer, hframes, hnew, rfl⟩ := declare_eq_ok_iff.mp hdeclare
      obtain ⟨name, m'', ⟨before, after, top', outer', hrest, hframes', hm, hdistinct, hbefore,
        htaken⟩, rfl, rfl⟩ :=
        ih hnames.2 h
      cases hframes'
      simp only [contains_withZeros, not_or, List.mem_singleton] at hbefore htaken
      refine ⟨name, m'', ⟨y :: before, after, top, outer,
        by rw [hrest]; rfl, hframes, ?_, ?_, ?_, ?_⟩, rfl, rfl⟩
      · rw [hm, withZeros_append]
        rfl
      · exact List.nodup_cons.mpr ⟨fun hy => (hbefore y hy).2 rfl, hdistinct⟩
      · exact List.forall_mem_cons.mpr ⟨hnew, fun z hz => (hbefore z hz).1⟩
      · rcases htaken with (htaken | rfl) | htaken
        · exact Or.inl htaken
        · exact Or.inr List.mem_cons_self
        · exact Or.inr (List.mem_cons_of_mem y htaken)
    · obtain ⟨top, outer, hframes, htaken, rfl⟩ := (declare_eq_failed_iff hnames.1).mp hfailed
      cases hx
      refine ⟨y, s'.scopes, ⟨[], rest, top, outer, rfl, hframes, ?_, .nil, by simp, Or.inl htaken⟩,
        rfl, rfl⟩
      rw [withZeros_nil, hframes]

theorem declareAll_of_stoppedAt {names : List String} {name : String} {m' : Scopes}
    (hnames : ∀ y ∈ names, y ≠ "") (h : StoppedAt names name s.scopes m') :
    declareAll s names =
      .ok ({ s with scopes := m' }, some { cause := .scope (.variableExists name) }) := by
  obtain ⟨before, after, top, outer, rfl, hframes, hm, hdistinct, hbefore, htaken⟩ := h
  induction before generalizing s top with
  | nil =>
    have hscopes : s.scopes = m' := by
      rw [withZeros_nil, ← hframes] at hm
      exact congrArg Scopes.mk hm.symm
    have hfailed :=
      (declare_eq_failed_iff (hnames name (by simp))).mpr ⟨top, outer, hframes,
        by simpa using htaken, rfl⟩
    rw [List.nil_append, declareAll, hfailed, ← hscopes]
    rfl
  | cons y before ih =>
    rw [List.cons_append, List.forall_mem_cons] at hnames
    rw [List.forall_mem_cons] at hbefore
    rw [List.nodup_cons] at hdistinct
    have hdeclare :=
      (declare_eq_ok_iff (m := s.scopes)).mpr ⟨hnames.1, top, outer, hframes, hbefore.1, rfl⟩
    rw [List.cons_append, declareAll, hdeclare]
    refine ih (withZeros top [y]) hnames.2 rfl (by rw [hm, withZeros_append]; rfl) hdistinct.2 ?_ ?_
    · intro z hz
      rw [contains_withZeros, not_or, List.mem_singleton]
      exact ⟨hbefore.2 z hz, fun hzy => hdistinct.1 (hzy ▸ hz)⟩
    · rw [contains_withZeros, List.mem_singleton]
      rcases htaken with htaken | htaken
      · exact Or.inl (Or.inl htaken)
      · rcases List.mem_cons.mp htaken with htaken | htaken
        · exact Or.inl (Or.inr htaken)
        · exact Or.inr htaken

theorem ne_empty_of_mem_nameList {names y : String} (hy : y ∈ nameList names) : y ≠ "" := by
  simpa using (List.mem_filter.mp hy).2

/-! ## Blocks that neither branch nor call -/

theorem setElement_eq_failed {array : String} {i : Int} {v : Float}
    (hf : m.setElement array i v = .error (.failed f)) :
    f = { cause := f.cause } ∧ m.setElement array i v = Attempt.fail f.cause := by
  have hbare : f = { cause := f.cause } := by
    rcases bind_eq_error hf with hf | ⟨⟨a, k⟩, -, hf⟩
    · exact checkedArray_eq_failed hf
    · simp only at hf
      split_ifs at hf
      cases hf
  exact ⟨hbare, by rw [hf, Attempt.fail, ← hbare]⟩

/-- What is wrong with a block that neither branches nor calls, and the state that it leaves. -/
inductive BlockFault (g : Graph) (s : State) (n : Node) : State → List Handle → Failure → Prop
  | namesMissing {names : String} (hfields : n.fields = .declaration names)
      (hnames : nameList names = []) :
      BlockFault g s n s [] { cause := .scope .variableNameMissing }
  | nameTaken {names name : String} {m : Scopes} (hfields : n.fields = .declaration names)
      (hstop : StoppedAt (nameList names) name s.scopes m) :
      BlockFault g s n { s with scopes := m } [] { cause := .scope (.variableExists name) }
  | targetMissing {text : String} (hfields : n.fields = .assignment "" text) :
      BlockFault g s n s [] { cause := .scope .variableNameMissing }
  | targetUndeclared {target text : String} (hfields : n.fields = .assignment target text)
      (htarget : target ≠ "") (hnone : s.scopes.value? target = none) :
      BlockFault g s n s [] { cause := .scope (.variableUndeclared target) }
  | value {target text : String} {path : List Handle} {x : Failure}
      (hfields : n.fields = .assignment target text) (htarget : target ≠ "")
      (hexists : s.scopes.value? target ≠ none)
      (hx : OperandFault g s.scopes n .value text path x) : BlockFault g s n s path x
  | output {expression : String} {h : Handle} {path : List Handle} {x : Failure}
      (hfields : n.fields = .output expression) (hbound : n.input .value = some h)
      (hx : Faulty g s.scopes g.size h path x) : BlockFault g s n s path x
  | outputMissing {expression : String} (hfields : n.fields = .output expression)
      (hfree : n.input .value = none) (hblank : Text.isBlankText expression) :
      BlockFault g s n s [] { cause := .expression .outputMissing }
  | arrayNameMissing {size : String} (hfields : n.fields = .arrayDeclaration "" size) :
      BlockFault g s n s [] { cause := .scope .arrayNameMissing }
  | sizeMissing {array : String} (hfields : n.fields = .arrayDeclaration array "")
      (harray : array ≠ "") :
      BlockFault g s n s [] { cause := .run .arraySizeMissing }
  | sizeInvalid {array size : String} (hfields : n.fields = .arrayDeclaration array size)
      (harray : array ≠ "") (hsize : size ≠ "")
      (hcount : ∀ count, Number.integer size = .ok count → count ≤ 0) :
      BlockFault g s n s [] { cause := .run (.arraySizeInvalid size) }
  | arrayTaken {array size : String} {count : Int}
      (hfields : n.fields = .arrayDeclaration array size) (harray : array ≠ "") (hsize : size ≠ "")
      (hcount : Number.integer size = .ok count) (hpositive : 0 < count)
      (hfound : (s.scopes.findArray array).isSome) :
      BlockFault g s n s [] { cause := .scope (.arrayExists array) }
  | elementNameMissing {index text : String} (hfields : n.fields = .arrayAssignment "" index text) :
      BlockFault g s n s [] { cause := .scope .arrayNameMissing }
  | elementIndex {array index text : String} {path : List Handle} {x : Failure}
      (hfields : n.fields = .arrayAssignment array index text) (harray : array ≠ "")
      (hx : OperandFault g s.scopes n .index index path x) : BlockFault g s n s path x
  | elementValue {array index text : String} {i : Int} {path : List Handle} {x : Failure}
      (hfields : n.fields = .arrayAssignment array index text) (harray : array ≠ "")
      (hi : arrayIndex g s.scopes n index = .ok i)
      (hx : OperandFault g s.scopes n .value text path x) :
      BlockFault g s n s path x
  | element {array index text : String} {i : Int} {v : Float} {c : Cause}
      (hfields : n.fields = .arrayAssignment array index text) (harray : array ≠ "")
      (hi : arrayIndex g s.scopes n index = .ok i) (hv : operand g s.scopes n .value text = .ok v)
      (hc : s.scopes.setElement array i v = Attempt.fail c) : BlockFault g s n s [] { cause := c }

theorem with_sourceOf_nil (hbare : x.source = "") : { x with source := sourceOf g [] } = x := by
  rw [show sourceOf g [] = x.source from hbare.symm]

theorem traced_of_bare {R : List Handle → Failure → Prop} (hx : R [] x) (hbare : x.source = "") :
    Traced g R x :=
  ⟨[], x, hx, (with_sourceOf_nil hbare).symm⟩

theorem declaration_traced {names : String} (hfields : n.fields = .declaration names)
    (h : executeBlock g s n = .ok (s', some f)) : Traced g (BlockFault g s n s') f := by
  simp only [executeBlock, hfields] at h
  split at h
  · rename_i hnames
    cases h
    exact traced_of_bare (.namesMissing hfields hnames) rfl
  · rename_i name rest hnames
    rw [← hnames] at h
    obtain ⟨name, m', hstop, rfl, rfl⟩ :=
      stoppedAt_of_declareAll (fun _ => ne_empty_of_mem_nameList) h
    exact traced_of_bare (.nameTaken hfields hstop) rfl

theorem assignment_traced (hg : Identified g) {target : String}
    (hfields : n.fields = .assignment target text) (h : executeBlock g s n = .ok (s', some f)) :
    Traced g (BlockFault g s n s') f := by
  simp only [executeBlock, hfields] at h
  split_ifs at h with htarget hnone
  · cases h
    subst htarget
    exact traced_of_bare (.targetMissing hfields) rfl
  · cases h
    exact traced_of_bare (.targetUndeclared hfields htarget (by simpa using hnone)) rfl
  · have hexists : s.scopes.value? target ≠ none := by simpa using hnone
    rcases after_cases h with ⟨v, -, h⟩ | ⟨y, hy, rfl, hf⟩
    · rcases after_cases h with ⟨m', -, h⟩ | ⟨y, hy, -, -⟩
      · cases h
      · obtain ⟨m', hupdate⟩ := update_ok v hexists
        simp [hupdate] at hy
    · cases hf
      obtain ⟨path, x, hx, rfl⟩ := (operand_eq_failed_iff hg).mp hy
      exact ⟨path, x, .value hfields htarget hexists hx, rfl⟩

theorem output_traced (hg : Identified g) {expression : String}
    (hfields : n.fields = .output expression) (h : executeBlock g s n = .ok (s', some f)) :
    Traced g (BlockFault g s n s') f := by
  simp only [executeBlock, hfields] at h
  rcases after_cases h with ⟨text, -, h⟩ | ⟨x, hx, rfl, hf⟩
  · cases h
  cases hf
  cases hinput : n.input .value with
  | some h =>
    rw [outputText_bound hinput] at hx
    cases hvalue : value g s'.scopes g.size h with
    | ok v => simp [hvalue, Except.map] at hx
    | error e =>
      rw [hvalue] at hx
      cases hx
      obtain ⟨path, x, hx, rfl⟩ := (value_eq_failed_iff hg).mp hvalue
      exact ⟨path, x, .output hfields hinput hx, rfl⟩
  | none =>
    simp only [outputText, hinput] at hx
    split_ifs at hx with hblank
    · cases hx
      exact traced_of_bare (.outputMissing hfields hinput hblank) rfl
    · split at hx <;> cases hx

theorem arrayDeclaration_traced {array size : String}
    (hfields : n.fields = .arrayDeclaration array size)
    (h : executeBlock g s n = .ok (s', some f)) : Traced g (BlockFault g s n s') f := by
  simp only [executeBlock, hfields] at h
  split_ifs at h with harray hsize
  · cases h
    subst harray
    exact traced_of_bare (.arrayNameMissing hfields) rfl
  · cases h
    subst hsize
    exact traced_of_bare (.sizeMissing hfields harray) rfl
  · split at h
    · rename_i count hcount
      split_ifs at h with hpositive
      · cases h
        exact traced_of_bare (.sizeInvalid hfields harray hsize (by simp [hcount, hpositive])) rfl
      · rcases after_cases h with ⟨m', -, h⟩ | ⟨x, hx, rfl, hf⟩
        · cases h
        cases hf
        unfold Scopes.declareArray at hx
        rw [if_neg harray, if_neg hpositive] at hx
        split_ifs at hx with hfound
        · cases hx
          exact traced_of_bare (.arrayTaken hfields harray hsize hcount (by omega) hfound) rfl
        · split at hx <;> cases hx
    · rename_i hcount
      cases h
      exact traced_of_bare (.sizeInvalid hfields harray hsize (by simp [hcount])) rfl

theorem arrayIndex_eq_failed (hf : arrayIndex g m n text = .error (.failed f)) :
    operand g m n .index text = .error (.failed f) := by
  rcases bind_eq_error hf with hf | ⟨v, -, hf⟩
  · exact hf
  · cases hf

theorem arrayAssignment_traced (hg : Identified g) {array index : String}
    (hfields : n.fields = .arrayAssignment array index text)
    (h : executeBlock g s n = .ok (s', some f)) :
    Traced g (BlockFault g s n s') f := by
  simp only [executeBlock, hfields] at h
  split_ifs at h with harray
  · cases h
    subst harray
    exact traced_of_bare (.elementNameMissing hfields) rfl
  · rcases after_cases h with ⟨i, hi, h⟩ | ⟨y, hy, rfl, hf⟩
    · rcases after_cases h with ⟨v, hv, h⟩ | ⟨y, hy, rfl, hf⟩
      · rcases after_cases h with ⟨m', -, h⟩ | ⟨y, hy, rfl, hf⟩
        · cases h
        · cases hf
          obtain ⟨hbare, hfail⟩ := setElement_eq_failed hy
          rw [hbare]
          exact traced_of_bare (.element hfields harray hi hv hfail) rfl
      · cases hf
        obtain ⟨path, x, hx, rfl⟩ := (operand_eq_failed_iff hg).mp hy
        exact ⟨path, x, .elementValue hfields harray hi hx, rfl⟩
    · cases hf
      obtain ⟨path, x, hx, rfl⟩ := (operand_eq_failed_iff hg).mp (arrayIndex_eq_failed hy)
      exact ⟨path, x, .elementIndex hfields harray hx, rfl⟩

theorem executeBlock_traced (hg : Identified g) (hfields : ∃ data, n.fields = .of n.kind data)
    (hkind : IsStatement n.kind) (h : executeBlock g s n = .ok (s', some f)) :
    Traced g (BlockFault g s n s') f := by
  obtain ⟨data, hfields⟩ := hfields
  rcases hkind with hkind | hkind | hkind | hkind | hkind
  all_goals rw [hkind] at hfields
  · exact declaration_traced hfields h
  · exact assignment_traced hg hfields h
  · exact output_traced hg hfields h
  · exact arrayDeclaration_traced hfields h
  · exact arrayAssignment_traced hg hfields h

theorem after_ok {α : Type} (s : State) (a : α) (next : α → Effect) :
    s.after (.ok a) next = next a := rfl

theorem executeBlock_of_fault (hg : Identified g) (hx : BlockFault g s n s' path x) :
    executeBlock g s n = .ok (s', some { x with source := sourceOf g path }) := by
  cases hx with
  | namesMissing hfields hnames =>
    simp only [executeBlock, hfields, hnames]
    rfl
  | nameTaken hfields hstop =>
    have hdeclare := declareAll_of_stoppedAt (fun _ => ne_empty_of_mem_nameList) hstop
    obtain ⟨before, after, -, -, hnames, -⟩ := hstop
    simp only [executeBlock, hfields]
    split
    · rename_i hnil
      simp [hnil] at hnames
    · rename_i hcons
      rw [← hcons, hdeclare]
      rfl
  | targetMissing hfields =>
    simp only [executeBlock, hfields]
    rfl
  | targetUndeclared hfields htarget hnone =>
    simp only [executeBlock, hfields, if_neg htarget, hnone]
    rfl
  | value hfields htarget hexists hx =>
    have hoperand := (operand_eq_failed_iff hg).mpr ⟨_, _, hx, rfl⟩
    simp only [executeBlock, hfields, if_neg htarget, Option.isNone_iff_eq_none,
      if_neg hexists, hoperand]
    rfl
  | output hfields hbound hx =>
    simp only [executeBlock, hfields, outputText_bound hbound, value_of_faulty hg hx]
    rfl
  | outputMissing hfields hfree hblank =>
    simp only [executeBlock, hfields, outputText, hfree, if_pos hblank]
    rfl
  | arrayNameMissing hfields =>
    simp only [executeBlock, hfields]
    rfl
  | sizeMissing hfields harray =>
    simp only [executeBlock, hfields, if_neg harray]
    rfl
  | sizeInvalid hfields harray hsize hcount =>
    simp only [executeBlock, hfields, if_neg harray, if_neg hsize]
    split
    · rename_i count hcount'
      rw [if_pos (hcount count hcount')]
      rfl
    · rfl
  | arrayTaken hfields harray hsize hcount hpositive hfound =>
    rw [← Int.not_le] at hpositive
    simp only [executeBlock, hfields, if_neg harray, if_neg hsize, hcount, if_neg hpositive,
      Scopes.declareArray, if_pos hfound]
    rfl
  | elementNameMissing hfields =>
    simp only [executeBlock, hfields]
    rfl
  | elementIndex hfields harray hx =>
    have hoperand := (operand_eq_failed_iff hg).mpr ⟨_, _, hx, rfl⟩
    simp only [executeBlock, hfields, if_neg harray, arrayIndex, hoperand]
    rfl
  | elementValue hfields harray hi hx =>
    have hoperand := (operand_eq_failed_iff hg).mpr ⟨_, _, hx, rfl⟩
    simp only [executeBlock, hfields, if_neg harray, hi, hoperand, after_ok]
    rfl
  | element hfields harray hi hv hc =>
    simp only [executeBlock, hfields, if_neg harray, hi, hv, hc, after_ok]
    rfl

/-! ## Tasks -/

inductive CallFault (p : Program) (s : State) (name : String) : Error → Prop
  | nameless (hname : name = "") : CallFault p s name .calleeMissing
  | deep (hname : name ≠ "") (hfull : p.limits.maxCallDepth ≤ s.calls.length) :
      CallFault p s name (.callDepthExceeded p.limits.maxCallDepth)
  | active (hname : name ≠ "") (hroom : s.calls.length < p.limits.maxCallDepth)
      (hactive : name ∈ s.calls) :
      CallFault p s name (.recursiveCall name)
  | unknown (hname : name ≠ "") (hroom : s.calls.length < p.limits.maxCallDepth)
      (hnew : name ∉ s.calls) (hnone : p.functions.get? name = none) :
      CallFault p s name (.functionUnknown name)

/-- The task visits a block that is neither out of reach nor the end of the function. -/
structure Executes (p : Program) (t : Task) : Prop where
  visit : t.activity = .visit
  reached : t.iteration ≤ p.limits.maxIterations
  inside : some t.node ≠ t.stop

/-- How the task `t` of the block `n`, taken off the tasks of `s`, fails. -/
inductive TaskFault (p : Program) (s : State) (t : Task) (n : Node) :
    State → List Handle → Failure → Prop
  | ceiling (ht : t.activity = .visit) (hlimit : p.limits.maxIterations < t.iteration) :
      TaskFault p s t n s [] { cause := .run (.iterationsExceeded p.limits.maxIterations) }
  | statement {s' : State} {path : List Handle} {x : Failure} (ht : Executes p t)
      (hkind : IsStatement n.kind) (hx : BlockFault p.graph s n s' path x) :
      TaskFault p s t n s' path x
  | branch {text operator : String} {path : List Handle} {x : Failure} (ht : Executes p t)
      (hkind : n.kind = .branch ∨ n.kind = .whileLoop)
      (hfields : n.fields = .condition text operator)
      (hx : ConditionFault p.graph s.scopes n (.parse text operator) path x) :
      TaskFault p s t n s path x
  | initialization {init text operator step : String} {x : Failure} (ht : Executes p t)
      (hkind : n.kind = .forLoop) (hfields : n.fields = .forLoop init text operator step)
      (hinit : init ≠ "") (hx : StatementFault (s.scopes.push s!"for {n.id}") false init x) :
      TaskFault p s t n s [] (x.within "loop initialization")
  | call {name : String} {e : Error} (ht : Executes p t) (hkind : n.kind = .functionCall)
      (hfields : n.fields = .function name) (hx : CallFault p s name e) :
      TaskFault p s t n s [] { cause := .run e }
  | unknown (ht : Executes p t) (hkind : n.kind = .unknown) :
      TaskFault p s t n s [] { cause := .graph (.unknownType n.type) }
  | checkCeiling (ht : t.activity = .check) (hlimit : p.limits.maxIterations < t.iteration) :
      TaskFault p s t n (s.unwind t.depth) []
      { cause := .run (.iterationsExceeded p.limits.maxIterations) }
  | check {init text operator step : String} {path : List Handle} {x : Failure}
      (ht : t.activity = .check) (hlimit : t.iteration ≤ p.limits.maxIterations)
      (hfields : n.fields = .forLoop init text operator step) (htext : text ≠ "")
      (hx : ConditionFault p.graph s.scopes n (.parse text operator) path x) :
      TaskFault p s t n (s.unwind t.depth) path x
  | step {init text operator step : String} {x : Failure} (ht : t.activity = .step)
      (hfields : n.fields = .forLoop init text operator step) (hstep : step ≠ "")
      (hx : StatementFault s.scopes true step x) :
      TaskFault p s t n (s.unwind t.depth) [] (x.within "loop step")

theorem StatementFault.unattributed {mustExist : Bool} {statement : String}
    (hx : StatementFault m mustExist statement x) :
    x.node = "" ∧ x.source = "" := by
  cases hx <;> exact ⟨rfl, rfl⟩

theorem call_traced (ht : Executes p t) (hkind : n.kind = .functionCall)
    (h : call p s n t = .ok (s', some f)) :
    Traced p.graph (TaskFault p s t n s') f := by
  unfold call at h
  split at h
  · rename_i name hfields
    have hrefused {e : Error} (he : CallFault p s name e) (h : s.failing (.run e) =
        .ok (s', some f)) :
        Traced p.graph (TaskFault p s t n s') f := by
      cases h
      exact traced_of_bare (.call ht hkind hfields he) rfl
    split_ifs at h with hname hfull hactive
    · exact hrefused (.nameless hname) h
    · exact hrefused (.deep hname hfull) h
    · exact hrefused (.active hname (by omega) (by simpa using hactive)) h
    · split at h
      · rename_i hnone
        exact hrefused (.unknown hname (by omega) (by simpa using hactive) hnone) h
      · obtain ⟨first, -, h⟩ := bind_eq_ok h
        cases h
  · cases h

theorem branchOn_traced (hg : Identified p.graph) (ht : Executes p t)
    (hkind : n.kind = .branch ∨ n.kind = .whileLoop) {decide : Bool → State}
    (h : branchOn p s n decide = .ok (s', some f)) :
    Traced p.graph (TaskFault p s t n s') f := by
  unfold branchOn at h
  split at h
  · rename_i text operator hfields
    rcases after_cases h with ⟨holds, -, h⟩ | ⟨y, hy, rfl, hf⟩
    · cases h
    · cases hf
      obtain ⟨path, x, hx, rfl⟩ := (condition_eq_failed_iff hg).mp hy
      exact ⟨path, x, .branch ht hkind hfields hx, rfl⟩
  · cases h

theorem enterLoop_traced (hm : s.scopes.WellFormed) (ht : Executes p t) (hkind : n.kind = .forLoop)
    (h : enterLoop s n t = .ok (s', some f)) : Traced p.graph (TaskFault p s t n s') f := by
  unfold enterLoop at h
  split at h
  · rename_i init text operator step hfields
    rcases after_cases h with ⟨m', -, h⟩ | ⟨y, hy, hs, hf⟩
    · cases h
    · cases hf
      split_ifs at hy with hinit
      obtain ⟨x, hx, rfl⟩ := mapFailure_eq_failed_iff.mp hy
      have hx := prepare_eq_failed_iff.mp hx
      have hs : s' = s := by
        rw [hs]
        simp only [State.unwind, hm.unwind_push]
      subst hs
      exact traced_of_bare (.initialization ht hkind hfields hinit hx) hx.unattributed.2
  · cases h

theorem checkLoop_traced (hg : Identified p.graph) (ht : t.activity = .check)
    (hn : p.graph.node t.node = .ok n) (h : checkLoop p s t = .ok (s', some f)) :
    Traced p.graph (TaskFault p s t n s') f := by
  simp only [checkLoop, hn, bind, Except.bind] at h
  split_ifs at h with hlimit
  · cases h
    exact traced_of_bare (.checkCeiling ht hlimit) rfl
  · split at h
    · rename_i init text operator step hfields
      rcases after_cases h with ⟨holds, -, h⟩ | ⟨y, hy, rfl, hf⟩
      · split_ifs at h <;> cases h
      · cases hf
        split_ifs at hy with htext
        obtain ⟨path, x, hx, rfl⟩ := (condition_eq_failed_iff hg).mp hy
        exact ⟨path, x, .check ht (by omega) hfields htext hx, rfl⟩
    · cases h

theorem stepLoop_traced (ht : t.activity = .step) (hn : p.graph.node t.node = .ok n)
    (h : stepLoop p s t = .ok (s', some f)) : Traced p.graph (TaskFault p s t n s') f := by
  simp only [stepLoop, hn, bind, Except.bind] at h
  split at h
  · rename_i init text operator step hfields
    rcases after_cases h with ⟨m', -, h⟩ | ⟨y, hy, rfl, hf⟩
    · cases h
    · cases hf
      split_ifs at hy with hstep
      obtain ⟨x, hx, rfl⟩ := mapFailure_eq_failed_iff.mp hy
      have hx := advance_eq_failed_iff.mp hx
      exact traced_of_bare (.step ht hfields hstep hx) hx.unattributed.2
  · cases h

theorem visit_traced (hg : p.graph.Linked) (hids : Identified p.graph) (hm : s.scopes.WellFormed)
    (ht : t.activity = .visit) (hn : p.graph.node t.node = .ok n)
    (h : visit p s t = .ok (s', some f)) :
    Traced p.graph (TaskFault p s t n s') f := by
  simp only [visit, hn, bind, Except.bind] at h
  split_ifs at h with hlimit hinside
  · cases h
    exact traced_of_bare (.ceiling ht hlimit) rfl
  · cases h
  · have ht : Executes p t := ⟨ht, by omega, hinside⟩
    cases hk : n.kind <;> simp only [hk] at h
    case start | functionStart | functionEnd | arithmetic | arrayElement => cases h
    case stop => cases h
    case declaration | assignment | output | arrayDeclaration | arrayAssignment =>
      have hkind : IsStatement n.kind := by simp [IsStatement, hk]
      cases hexec : executeBlock p.graph s n with
      | error c => simp [hexec] at h
      | ok r =>
        obtain ⟨s1, _ | f1⟩ := r
        · simp [hexec, State.done] at h
        · rw [hexec] at h
          cases h
          obtain ⟨path, x, hx, rfl⟩ := executeBlock_traced hids (hg.fields t.node n hn) hkind hexec
          exact ⟨path, x, .statement ht hkind hx, rfl⟩
    case branch => exact branchOn_traced hids ht (Or.inl hk) h
    case whileLoop => exact branchOn_traced hids ht (Or.inr hk) h
    case forLoop => exact enterLoop_traced hm ht hk h
    case functionCall => exact call_traced ht hk h
    case unknown =>
      cases h
      exact traced_of_bare (.unknown ht hk) rfl

theorem perform_traced (hg : p.graph.Linked) (hids : Identified p.graph) (hm : s.scopes.WellFormed)
    (hn : p.graph.node t.node = .ok n) (h : perform p s t = .ok (s', some f)) :
    Traced p.graph (TaskFault p s t n s') f := by
  unfold perform at h
  cases ht : t.activity <;> simp only [ht] at h
  case visit => exact visit_traced hg hids hm ht hn h
  case check => exact checkLoop_traced hids ht hn h
  case step => exact stepLoop_traced ht hn h
  case leave =>
    obtain ⟨s1, -, h⟩ := bind_eq_ok h
    cases h

theorem call_of_fault {name : String} {e : Error} (hfields : n.fields = .function name)
    (hx : CallFault p s name e) :
    call p s n t = s.failing (.run e) := by
  simp only [call, hfields]
  cases hx with
  | nameless hname => rw [if_pos hname]
  | deep hname hfull => rw [if_neg hname, if_pos hfull]
  | active hname hroom hactive =>
    rw [if_neg hname, if_neg (by omega), if_pos (by simpa using hactive)]
  | unknown hname hroom hnew hnone => simp [hname, Nat.not_le.mpr hroom, hnew, hnone]

theorem perform_of_fault (hids : Identified p.graph) (hm : s.scopes.WellFormed)
    (hn : p.graph.node t.node = .ok n) (hx : TaskFault p s t n s' path x) :
    perform p s t = .ok (s', some { x with source := sourceOf p.graph path }) := by
  -- A visit that gets to its block comes down to what the kind of the block asks for.
  have hvisit (ht : Executes p t) :
      perform p s t = visit p s t ∧ ¬ p.limits.maxIterations < t.iteration := by
    simp only [perform, ht.visit, Nat.not_lt, ht.reached, and_self]
  cases hx with
  | ceiling ht hlimit =>
    simp only [perform, ht, visit, hn, bind, Except.bind, if_pos hlimit]
    rfl
  | statement ht hkind hx =>
    obtain ⟨hperform, hlimit⟩ := hvisit ht
    rw [hperform]
    have hexec := executeBlock_of_fault hids hx
    rcases hkind with hkind | hkind | hkind | hkind | hkind
    all_goals simp only [visit, hn, bind, Except.bind, if_neg hlimit, if_neg ht.inside,
      hkind, hexec]
  | branch ht hkind hfields hx =>
    obtain ⟨hperform, hlimit⟩ := hvisit ht
    have hcondition := (condition_eq_failed_iff hids).mpr ⟨_, _, hx, rfl⟩
    have hbranch (decide : Bool → State) : branchOn p s n decide =
        .ok (s, some { x with source := sourceOf p.graph path }) := by
      simp only [branchOn, hfields, hcondition]
      rfl
    rw [hperform]
    rcases hkind with hkind | hkind
    all_goals simp only [visit, hn, bind, Except.bind, if_neg hlimit, if_neg ht.inside,
      hkind, hbranch]
  | @initialization _ _ _ _ y ht hkind hfields hinit hx =>
    obtain ⟨hperform, hlimit⟩ := hvisit ht
    rw [hperform]
    simp only [visit, hn, bind, Except.bind, if_neg hlimit, if_neg ht.inside, hkind, enterLoop,
      hfields, if_neg hinit, prepare_eq_failed_iff.mpr hx, mapFailure, State.after, State.unwind,
      hm.unwind_push]
    rw [with_sourceOf_nil (x := y.within _) hx.unattributed.2]
  | call ht hkind hfields hx =>
    obtain ⟨hperform, hlimit⟩ := hvisit ht
    rw [hperform]
    simp only [visit, hn, bind, Except.bind, if_neg hlimit, if_neg ht.inside, hkind,
      call_of_fault hfields hx]
    rfl
  | unknown ht hkind =>
    obtain ⟨hperform, hlimit⟩ := hvisit ht
    rw [hperform]
    simp only [visit, hn, bind, Except.bind, if_neg hlimit, if_neg ht.inside, hkind]
    rfl
  | checkCeiling ht hlimit =>
    simp only [perform, ht, checkLoop, hn, bind, Except.bind, if_pos hlimit]
    rfl
  | check ht hlimit hfields htext hx =>
    have hcondition := (condition_eq_failed_iff hids).mpr ⟨_, _, hx, rfl⟩
    simp only [perform, ht, checkLoop, hn, bind, Except.bind, if_neg (Nat.not_lt.mpr hlimit),
      hfields, if_neg htext, hcondition]
    rfl
  | @step _ _ _ _ y ht hfields hstep hx =>
    simp only [perform, ht, stepLoop, hn, bind, Except.bind, hfields, if_neg hstep,
      advance_eq_failed_iff.mpr hx, mapFailure, State.after]
    rw [with_sourceOf_nil (x := y.within _) hx.unattributed.2]

/-- A task fails exactly as the rules say, and names the last block on the path that they give. -/
theorem perform_eq_failed_iff (hg : p.graph.Linked) (hids : Identified p.graph)
    (hm : s.scopes.WellFormed) (hn : p.graph.node t.node = .ok n) :
    perform p s t = .ok (s', some f) ↔ Traced p.graph (TaskFault p s t n s') f := by
  refine ⟨perform_traced hg hids hm hn, ?_⟩
  rintro ⟨path, x, hx, rfl⟩
  exact perform_of_fault hids hm hn hx

/-! ## Steps -/

theorem BlockFault.untouched (hx : BlockFault g s n s' path x) :
    s'.tasks = s.tasks ∧ s'.calls = s.calls ∧ s'.output = s.output ∧ s'.failures = s.failures := by
  cases hx <;> exact ⟨rfl, rfl, rfl, rfl⟩

theorem TaskFault.untouched (hx : TaskFault p s t n s' path x) :
    s'.tasks = s.tasks ∧ s'.calls = s.calls ∧ s'.output = s.output ∧ s'.failures = s.failures := by
  cases hx with
  | statement _ _ hx => exact hx.untouched
  | _ => exact ⟨rfl, rfl, rfl, rfl⟩

/-- A step carries out the topmost task, or the task fails and its path is given up. -/
inductive Stepped (p : Program) (s s' : State) : Prop
  | carriedOut {t : Task} {rest : List Task} {n : Node} (ht : s.tasks = t :: rest)
      (hn : p.graph.node t.node = .ok n)
      (hperform : perform p { s with tasks := rest } t = .ok (s', none)) : Stepped p s s'
  | gaveUp {t : Task} {rest : List Task} {n : Node} {s1 : State} {path : List Handle} {x : Failure}
      (ht : s.tasks = t :: rest) (hn : p.graph.node t.node = .ok n)
      (hx : TaskFault p { s with tasks := rest } t n s1 path x)
      (habandon : s1.abandon p t { x with source := sourceOf p.graph path } = .ok s') :
      Stepped p s s'

theorem stepped_of_next {records : List Record} {s₀ : State} (hload : Loads records p s₀)
    (hs : Reaches p s₀ s) (h : Next p s s') : Stepped p s s' := by
  obtain ⟨t, rest, s1, f, ht, hperform, hend⟩ := next_cases h
  obtain ⟨n, hn, -⟩ := hload.topmost hs ht
  cases f with
  | none =>
    simp only at hend
    subst hend
    exact .carriedOut ht hn hperform
  | some f =>
    obtain ⟨path, x, hx, rfl⟩ := perform_traced (s := { s with tasks := rest }) hload.ready.linked
      (identified_of_build hload.built) (hload.disciplined hs).memory hn hperform
    exact .gaveUp ht hn hx hend

theorem next_of_fault {records : List Record} {s₀ : State} {rest : List Task}
    (hload : Loads records p s₀) (hs : Reaches p s₀ s) (ht : s.tasks = t :: rest)
    (hn : p.graph.node t.node = .ok n) (hx : TaskFault p { s with tasks := rest } t n s' path x) :
    ∃ s'', s'.abandon p t { x with source := sourceOf p.graph path } = .ok s'' ∧ Next p s s'' := by
  have hperform :=
    perform_of_fault (s := { s with tasks := rest }) (identified_of_build hload.built)
      (hload.disciplined hs).memory hn hx
  have hall := hload.sound hs
  have hsound : Sound p.graph (fun _ => True) s₀.failures.toList s' := by
    constructor
    · rw [hx.untouched.1]
      exact fun u hu => hall.tasks u (by simp [ht, show u ∈ rest from hu])
    · rw [hx.untouched.2.2.2]
      exact hall.failures
  obtain ⟨s'', habandon, -⟩ :=
    sound_abandon hload.ready hsound hn (f := { x with source := sourceOf p.graph path }) trivial
  exact ⟨s'', habandon, next_of_performed ht habandon hperform⟩

end Flowchart.Machine
