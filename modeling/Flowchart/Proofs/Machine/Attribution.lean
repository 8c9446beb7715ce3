import Flowchart.Proofs.Machine.Faults

/-!
# Who is to blame for a failure

A failure is recorded with two blocks: the one whose task failed, and the data block in which
the failure arose, if one of the inputs is to blame. The names are filled in on the way back
from the failure, by whoever comes first; here they are compared with where it arose.
-/

namespace Flowchart.Machine

open Attempt Flowchart.Graph

variable {p : Program} {g : Graph} {m : Scopes} {s s' : State} {t : Task} {n : Node} {fuel : Nat}
  {h h' : Handle} {path : List Handle} {x y f : Failure}

/-! ## Chains of inputs -/

/-- The evaluation of the data block `h` fails along `path`: each block on it takes its index from
the next one, the last one cannot be evaluated itself, and that is so of no block before it. -/
structure FailsAlong (g : Graph) (m : Scopes) (fuel : Nat) (h : Handle) (path : List Handle)
    (last : Handle) (x : Failure) : Prop where
  head : path.head? = some h
  links : path.IsChain fun y z => indexBlock? g y = some z
  ends : path.getLast? = some last
  own : OwnFault g m (fuel + 1 - path.length) last x
  users : ∀ i y, path[i]? = some y → i + 1 < path.length → ∀ x', ¬ OwnFault g m (fuel - i) y x'

theorem OwnFault.not_of_input (hg : Identified g) (hlink : indexBlock? g h = some h')
    (hy : Faulty g m fuel h' path y) :
    ¬ OwnFault g m (fuel + 1) h x := by
  obtain ⟨n, array, text, hn, hfields, harray, hinput⟩ := indexBlock?_eq_some_iff.mp hlink
  intro hx
  cases hx with
  | expression hn' hfields' =>
    cases hn.symm.trans hn'
    simp [hfields] at hfields'
  | nameMissing hn' hfields' =>
    cases hn.symm.trans hn'
    simp [hfields, harray] at hfields'
  | index hn' _ _ hfree =>
    cases hn.symm.trans hn'
    simp [hinput] at hfree
  | element hn' _ _ hv =>
    cases hn.symm.trans hn'
    rw [inputValue_bound hinput, value_of_faulty hg hy] at hv
    cases hv
  | noValue hn' _ helement =>
    cases hn.symm.trans hn'
    exact helement array text hfields

theorem Faulty.failsAlong (hg : Identified g) (hx : Faulty g m fuel h path x) :
    ∃ last, FailsAlong g m fuel h path last x := by
  induction hx with
  | @own fuel h x hx =>
    refine ⟨h, rfl, by simp, rfl, ?_, ?_⟩
    · simpa using hx
    · simp
  | @input fuel h h' path x hlink hx ih =>
    obtain ⟨last, ih⟩ := ih
    obtain ⟨tail, rfl⟩ : ∃ tail, path = h' :: tail := by
      have hhead := ih.head
      cases path with
      | nil => cases hhead
      | cons y tail => exact ⟨tail, by simpa using hhead⟩
    refine ⟨last, rfl, List.isChain_cons_cons.mpr ⟨hlink, ih.links⟩, ?_, ?_, ?_⟩
    · rw [List.getLast?_cons_cons, ih.ends]
    · simpa using ih.own
    · intro i y hy hi x'
      cases i with
      | zero =>
        obtain rfl : h = y := by simpa using hy
        exact OwnFault.not_of_input hg hlink hx
      | succ i =>
        rw [Nat.add_sub_add_right]
        exact ih.users i y (by simpa using hy) (by simpa using hi) x'

/-! ## The block itself or its inputs -/

/-- Where a failure of the block `n` arises: in the block itself, or in one of its inputs. -/
inductive Arises (g : Graph) (m : Scopes) (n : Node) : List Handle → Failure → Prop
  | here {x : Failure} (hx : x.node = "" ∧ x.source = "") : Arises g m n [] x
  | input {slot : Slot} {h : Handle} {path : List Handle} {x : Failure}
      (hbound : n.input slot = some h) (hx : Faulty g m g.size h path x) : Arises g m n path x

theorem Arises.unattributed (hx : Arises g m n path x) : x.node = "" ∧ x.source = "" := by
  cases hx with
  | here hx => exact hx
  | input _ hx => exact hx.unattributed

theorem OperandFault.arises {slot : Slot} {text : String}
    (hx : OperandFault g m n slot text path x) : Arises g m n path x := by
  cases hx with
  | text => exact .here ⟨rfl, rfl⟩
  | bound hbound hx => exact .input hbound hx

theorem ConditionFault.arises {c : Expr.Condition} (hx : ConditionFault g m n c path x) :
    Arises g m n path x := by
  cases hx with
  | left hx => exact hx.arises
  | right _ hx => exact hx.arises
  | comparison => exact .here ⟨rfl, rfl⟩

theorem BlockFault.arises (hx : BlockFault g s n s' path x) : Arises g s.scopes n path x := by
  cases hx with
  | value _ _ _ hx => exact hx.arises
  | output _ hbound hx => exact .input hbound hx
  | elementIndex _ _ hx => exact hx.arises
  | elementValue _ _ _ hx => exact hx.arises
  | _ => exact .here ⟨rfl, rfl⟩

theorem TaskFault.arises (hx : TaskFault p s t n s' path x) : Arises p.graph s.scopes n path x := by
  cases hx with
  | statement _ _ hx => exact hx.arises
  | branch _ _ _ hx => exact hx.arises
  | initialization _ _ _ _ hx => exact .here hx.unattributed
  | check _ _ _ _ hx => exact hx.arises
  | step _ _ _ hx => exact .here hx.unattributed
  | _ => exact .here ⟨rfl, rfl⟩

theorem TaskFault.sourceOf_eq_iff (hids : Identified p.graph) (hx : TaskFault p s t n s' path x) :
    sourceOf p.graph path = "" ↔ path = [] := by
  cases hx.arises with
  | here => simp [sourceOf]
  | input _ hx => simp [hx.source_ne hids, hx.path_ne_nil]

/-! ## What is recorded -/

/-- The failure `f` of the task `t`, which belongs to the block `n`, names the right blocks: a block
is its source when it is the last one on a chain of bindings, also where `n` is bound to itself. -/
structure Attributed (p : Program) (s : State) (t : Task) (n : Node) (f : Failure) : Prop where
  node : f.node = n.id
  own : f.source = "" ↔ ∃ s' x, TaskFault p s t n s' [] x
  input : f.source ≠ "" → ∃ s' path x slot h last m, TaskFault p s t n s' path x ∧
    n.input slot = some h ∧ FailsAlong p.graph s.scopes p.graph.size h path last x ∧
    p.graph.node last = .ok m ∧ f.source = m.id
  kept : ∀ s' path x, TaskFault p s t n s' path x →
    f.kind = x.kind ∧ f.reason = x.reason ∧ f.message = x.message

theorem attributed_of_fault (hids : Identified p.graph) (hm : s.scopes.WellFormed)
    (hn : p.graph.node t.node = .ok n) (hx : TaskFault p s t n s' path x) :
    Attributed p s t n { x with node := n.id, source := sourceOf p.graph path } := by
  -- A task fails in one way only.
  have hunique : ∀ {s'' path' y}, TaskFault p s t n s'' path' y →
      { x with source := sourceOf p.graph path } = { y with source := sourceOf p.graph path' } := by
    intro s'' path' y hy
    have heq := (perform_of_fault hids hm hn hx).symm.trans (perform_of_fault hids hm hn hy)
    simp only [Except.ok.injEq, Prod.mk.injEq, Option.some.injEq] at heq
    exact heq.2
  refine ⟨rfl, ⟨fun hsource => ?_, ?_⟩, fun hsource => ?_, fun s'' path' y hy => ?_⟩
  · obtain rfl := (hx.sourceOf_eq_iff hids).mp hsource
    exact ⟨s', x, hx⟩
  · rintro ⟨s'', y, hy⟩
    exact congrArg Failure.source (hunique hy)
  · cases hx.arises with
    | here => exact absurd rfl hsource
    | @input slot h _ _ hbound hfaulty =>
      obtain ⟨last, halong⟩ := hfaulty.failsAlong hids
      obtain ⟨m, hlast⟩ := halong.own.block
      have hname : sourceOf p.graph path = m.id := by
        rw [sourceOf, halong.ends, Option.bind_some, node?, node_eq_ok_iff.mp hlast]
        rfl
      exact ⟨s', path, x, slot, h, last, m, hx, hbound, halong, hlast, hname⟩
  · -- Kind, reason and message do not depend on the blocks that are named.
    have hkind := congrArg Failure.kind (hunique hy)
    have hreason := congrArg Failure.reason (hunique hy)
    have hmessage := congrArg Failure.message (hunique hy)
    exact ⟨hkind, hreason, hmessage⟩

/-- On the way from `s₀` to `s`, after the failures `before`, a step records the failure `f` of its
task and names the right blocks. -/
def RecordedBy (p : Program) (s₀ s : State) (before : List Failure) (f : Failure) : Prop :=
  ∃ s1 s2 t rest n, Reaches p s₀ s1 ∧ Next p s1 s2 ∧ Reaches p s2 s ∧
    s1.tasks = t :: rest ∧ p.graph.node t.node = .ok n ∧
    s1.failures.toList = s₀.failures.toList ++ before ∧ s2.failures = s1.failures.push f ∧
    Attributed p { s1 with tasks := rest } t n f

theorem RecordedBy.tail {s₀ : State} {before : List Failure} (h : RecordedBy p s₀ s before f)
    (hnext : Next p s s') : RecordedBy p s₀ s' before f := by
  obtain ⟨s1, s2, t, rest, n, hs, hstep, hlater, hrecorded⟩ := h
  exact ⟨s1, s2, t, rest, n, hs, hstep, .tail hlater hnext, hrecorded⟩

/-- A step records the failure of its task, if it fails, and nothing else. -/
theorem recorded_of_next {records : List Record} {s₀ : State} (hload : Loads records p s₀)
    (hs : Reaches p s₀ s) (h : Next p s s') :
    s'.failures = s.failures ∨ ∃ t rest n f, s.tasks = t :: rest ∧ p.graph.node t.node = .ok n ∧
      s'.failures = s.failures.push f ∧ Attributed p { s with tasks := rest } t n f := by
  cases stepped_of_next hload hs h with
  | carriedOut _ hn hperform =>
    obtain ⟨vs, -, -, hsame⟩ := perform_carriedOut hn hperform
    exact Or.inl hsame
  | gaveUp ht hn hx habandon =>
    have hids := identified_of_build hload.built
    have hm := (hload.disciplined hs).memory
    refine Or.inr ⟨_, _, _, _, ht, hn, ?_,
      attributed_of_fault (s := { s with tasks := _ }) hids hm hn hx⟩
    rw [(abandon_eq_ok hn habandon).2.1, hx.untouched.2.2.2, Failure.atBlock,
      if_pos hx.arises.unattributed.1]

/-- Every failure that a step of a run records names the block whose task failed in this step, and
the data block in which it arose. None is named exactly if it arose in the block itself; otherwise
it is the last one on a chain of inputs that starts at a slot of the block. The cause stays as it
was, in any context. -/
theorem failures_are_attributed (records : List Record) (p : Program) (s₀ s : State)
    (hload : Loads records p s₀) (hs : Reaches p s₀ s) :
    (∃ walked, s.failures.toList = s₀.failures.toList ++ walked ∧
      ∀ before f after, walked = before ++ f :: after → RecordedBy p s₀ s before f) ∧
    ∀ (f : Failure) (context : String),
      (f.within context).kind = f.kind ∧ (f.within context).reason = f.reason := by
  refine ⟨?_, fun f context => ⟨rfl, rfl⟩⟩
  induction hs with
  | refl => exact ⟨[], by simp, by simp⟩
  | @tail s1 s2 hs hnext ih =>
    obtain ⟨walked, hwalked, hall⟩ := ih
    have hearlier : ∀ before f after, walked = before ++ f :: after →
        RecordedBy p s₀ s2 before f := by
      intro before f after hsplit
      exact (hall before f after hsplit).tail hnext
    rcases recorded_of_next hload hs hnext with hsame | ⟨t, rest, n, f, ht, hn, hpush, hf⟩
    · exact ⟨walked, by rw [hsame, hwalked], hearlier⟩
    · refine ⟨walked ++ [f], by rw [hpush, Array.toList_push, hwalked, List.append_assoc], ?_⟩
      intro before f' after hsplit
      -- The failure of this step is the last one.
      rcases after.eq_nil_or_concat with rfl | ⟨after, last, rfl⟩
      · obtain ⟨rfl, hlast⟩ := List.append_inj' hsplit rfl
        obtain rfl := List.singleton_inj.mp hlast
        exact ⟨s1, s2, t, rest, n, hs, hnext, .refl p s2, ht, hn, hwalked, hpush, hf⟩
      · rw [List.concat_eq_append, ← List.cons_append, ← List.append_assoc] at hsplit
        exact hearlier before f' after (List.append_inj' hsplit rfl).1

/-- An output takes an element at an index that is itself the element of an array that is nowhere
declared. -/
def distantFault : List Record :=
  [{ id := "start", type := "start", next := "out" },
   { id := "out", type := "output", inputs := ⟨"first", "", "", ""⟩ },
   { id := "first", type := "arrayElement", data := { arrayName := "a" },
     inputs := ⟨"", "", "", "second"⟩ },
   { id := "second", type := "arrayElement", data := { arrayName := "b", arrayIndex := "0" } }]

theorem failures_are_attributed_distantFault :
    ∃ p s₀ s f, Loads distantFault p s₀ ∧ Reaches p s₀ s ∧ s.failures.toList = [f] ∧
      f.node = "out" ∧ f.source = "second" ∧ f.cause = .scope (.arrayUndeclared "b") ∧
      RecordedBy p s₀ s [] f := by
  obtain ⟨p, s₀, s, f, hload, hs, hbefore, hafter, hnode, hsource, hcause⟩ : ∃ p s₀ s f,
    Loads distantFault p s₀ ∧
      Reaches p s₀ s ∧ s₀.failures.toList = [] ∧ s.failures.toList = [f] ∧ f.node = "out" ∧
      f.source = "second" ∧ f.cause = .scope (.arrayUndeclared "b") :=
    ⟨_, _, _, _, .mk rfl rfl rfl .standard, .tail (.tail .refl (by rfl)) (by rfl), rfl, rfl,
      rfl, rfl, rfl⟩
  obtain ⟨⟨walked, hwalked, hall⟩, -⟩ := failures_are_attributed distantFault p s₀ s hload hs
  rw [hbefore, hafter, List.nil_append] at hwalked
  exact ⟨p, s₀, s, f, hload, hs, hafter, hnode, hsource, hcause, hall [] f [] hwalked.symm⟩

end Flowchart.Machine
