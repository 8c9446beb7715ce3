import Flowchart.Proofs.Machine.Attempts
import Flowchart.Proofs.Machine.Discipline
import Flowchart.Proofs.Machine.Functions

/-!
# Runs that do not crash

A run crashes in one way only: it comes to a block that declares an array too large for
any memory. The same pass over the machine says for which causes a run can fail.
-/

namespace Flowchart.Machine

open Attempt Flowchart.Graph

/-! ## What every step keeps -/

/-- The block of a task is there, and it is a counting loop if the task belongs to one. -/
def Grounded (g : Graph) (t : Task) : Prop :=
  ∃ n, g.node t.node = .ok n ∧ (t.activity = .check ∨ t.activity = .step → n.kind = .forLoop)

/-- `n` declares an array that needs more storage than there can be. -/
def Oversized (n : Node) : Prop :=
  n.kind = .arrayDeclaration ∧ ∃ array size count, n.fields = .arrayDeclaration array size ∧
    Number.integer size = .ok count ∧ (Scope.maxArrayBytes : Int) < 8 * count

/-- Failures other than the first ones are for causes in `P`. -/
structure Sound (g : Graph) (P : Cause → Prop) (first : List Failure) (s : State) : Prop where
  tasks : ∀ t ∈ s.tasks, Grounded g t
  failures : ∀ f ∈ s.failures, f ∈ first ∨ P f.cause

/-- The effect keeps a state sound, and crashes only if `C` holds and storage is what is missing. -/
inductive Keeps (g : Graph) (P : Cause → Prop) (first : List Failure) (C : Prop) : Effect → Prop
  | done (s : State) (hs : Sound g P first s) : Keeps g P first C (.ok (s, none))
  | failed (s : State) (f : Failure) (hs : Sound g P first s) (hf : P f.cause) :
      Keeps g P first C (.ok (s, some f))
  | crashed (hc : C) : Keeps g P first C (.error .allocation)

section Effects

variable {g : Graph} {P : Cause → Prop} {first : List Failure} {C : Prop} {s : State} {h : Handle}
  {n : Node} {t : Task}

theorem Sound.with_scopes (hs : Sound g P first s) (scopes : Scopes) :
    Sound g P first { s with scopes } :=
  ⟨hs.tasks, hs.failures⟩

theorem Sound.schedule (hs : Sound g P first s) (ht : Grounded g t) :
    Sound g P first (s.schedule t) where
  tasks := List.forall_mem_cons.mpr ⟨ht, hs.tasks⟩
  failures := hs.failures

theorem grounded_visit {x : Handle} (hx : x < g.size) (iteration : Nat) (stop : Option Handle) :
    Grounded g { activity := .visit, node := x, iteration, stop } := by
  obtain ⟨n, hn⟩ := exists_node hx
  exact ⟨n, hn, by simp⟩

theorem Sound.visitNext (hs : Sound g P first s) {next : Option Handle}
    (hnext : ∀ x, next = some x → x < g.size) (iteration : Nat) (stop : Option Handle) :
    Sound g P first (s.visitNext next iteration stop) := by
  cases next with
  | none => exact hs
  | some x => exact hs.schedule (grounded_visit (hnext x rfl) iteration stop)

theorem Keeps.imp {C' : Prop} {e : Effect} (h : Keeps g P first C e) (hC : C → C') :
    Keeps g P first C' e := by
  cases h with
  | done s hs => exact .done s hs
  | failed s f hs hf => exact .failed s f hs hf
  | crashed hc => exact .crashed (hC hc)

theorem keeps_failing (hs : Sound g P first s) {c : Cause} (hc : P c) :
    Keeps g P first C (s.failing c) :=
  .failed s _ hs hc

theorem keeps_after {α : Type} {r : Attempt α} {k : α → Effect} (hs : Sound g P first s)
    (hr : Allows P r) (hk : ∀ a, r = .ok a → Keeps g P first C (k a)) :
    Keeps g P first C (s.after r k) := by
  cases hr with
  | ok a => exact hk a rfl
  | failed f hf => exact .failed s f hs hf

/-! ## Blocks that neither branch nor call -/

theorem ordinary_run {e : Error} (hend : ∀ name, e ≠ .functionEndMissing name)
    (htype : ∀ type, e ≠ .notExecutable type) : Cause.Ordinary (.run e) := by
  cases e
  case functionEndMissing name => exact absurd rfl (hend name)
  case notExecutable type => exact absurd rfl (htype type)
  all_goals simp [Cause.Ordinary, Cause.kind, Error.kind]

theorem keeps_declareAll (hp : Permits g P) (hm : s.scopes.WellFormed) (hs : Sound g P first s)
    (names : List String) : Keeps g P first C (declareAll s names) := by
  induction names generalizing s with
  | nil => exact .done s hs
  | cons name rest ih =>
    refine keeps_after hs (Scopes.allows_declare hp.ordinary hm.nonempty name)
      fun scopes hdeclare => ?_
    exact ih (hm.refilled (Scopes.refilled_declare hdeclare)) (hs.with_scopes scopes)

theorem keeps_declaration (hp : Permits g P) (hm : s.scopes.WellFormed) (hs : Sound g P first s)
    {names : String} (hfields : n.fields = .declaration names) :
    Keeps g P first C (executeBlock g s n) := by
  simp only [executeBlock, hfields]
  split
  · exact keeps_failing hs (hp.ordinary _ (ordinary_scope _))
  · exact keeps_declareAll hp hm hs _

theorem keeps_assignment (hp : Permits g P) (hm : s.scopes.WellFormed) (hn : g.node h = .ok n)
    (hs : Sound g P first s) {target text : String} (hfields : n.fields = .assignment target text) :
    Keeps g P first C (executeBlock g s n) := by
  simp only [executeBlock, hfields]
  split_ifs
  · exact keeps_failing hs (hp.ordinary _ (ordinary_scope _))
  · exact keeps_failing hs (hp.ordinary _ (ordinary_scope _))
  · refine keeps_after hs (allows_operand hp hm.sized hn .value text) fun v _ => ?_
    refine keeps_after hs (Scopes.allows_update hp.ordinary target v) fun scopes _ => ?_
    exact .done _ (hs.with_scopes scopes)

theorem keeps_output (hp : Permits g P) (hm : s.scopes.WellFormed) (hn : g.node h = .ok n)
    (hs : Sound g P first s) {expression : String} (hfields : n.fields = .output expression) :
    Keeps g P first C (executeBlock g s n) := by
  simp only [executeBlock, hfields]
  refine keeps_after hs (allows_outputText hp hm.sized hn expression) fun text _ => ?_
  exact .done _ ⟨hs.tasks, hs.failures⟩

theorem keeps_arrayAssignment (hp : Permits g P) (hm : s.scopes.WellFormed) (hn : g.node h = .ok n)
    (hs : Sound g P first s) {array index text : String}
    (hfields : n.fields = .arrayAssignment array index text) :
    Keeps g P first C (executeBlock g s n) := by
  simp only [executeBlock, hfields]
  split_ifs
  · exact keeps_failing hs (hp.ordinary _ (ordinary_scope _))
  · refine keeps_after hs (allows_arrayIndex hp hm.sized hn index) fun i _ => ?_
    refine keeps_after hs (allows_operand hp hm.sized hn .value text) fun v _ => ?_
    refine keeps_after hs (Scopes.allows_setElement hp.ordinary hm.sized array i v) fun scopes _ =>
      ?_
    exact .done _ (hs.with_scopes scopes)

/-- The one place where a run can crash. -/
theorem keeps_arrayDeclaration (hp : Permits g P) (hm : s.scopes.WellFormed)
    (hs : Sound g P first s) (hkind : n.kind = .arrayDeclaration) {array size : String}
    (hfields : n.fields = .arrayDeclaration array size) :
    Keeps g P first (Oversized n) (executeBlock g s n) := by
  simp only [executeBlock, hfields]
  have hinvalid : P (.run (.arraySizeInvalid size)) :=
    hp.ordinary _ (ordinary_run (by simp) (by simp))
  split_ifs
  · exact keeps_failing hs (hp.ordinary _ (ordinary_scope _))
  · exact keeps_failing hs (hp.ordinary _ (ordinary_run (by simp) (by simp)))
  · split
    · rename_i count hcount
      split_ifs
      · exact keeps_failing hs hinvalid
      · rcases Scopes.declareArray_allows hp.ordinary hm.nonempty array count with
          hallows | ⟨hcrash, hlarge⟩
        · exact keeps_after hs hallows fun scopes _ => .done _ (hs.with_scopes scopes)
        · rw [hcrash]
          exact .crashed ⟨hkind, array, size, count, hfields, hcount, hlarge⟩
    · exact keeps_failing hs hinvalid

def IsStatement (k : BlockKind) : Prop :=
  k = .declaration ∨ k = .assignment ∨ k = .output ∨ k = .arrayDeclaration ∨ k = .arrayAssignment

theorem keeps_executeBlock (hg : g.Linked) (hp : Permits g P) (hn : g.node h = .ok n)
    (hm : s.scopes.WellFormed) (hs : Sound g P first s) (hkind : IsStatement n.kind) :
    Keeps g P first (Oversized n) (executeBlock g s n) := by
  obtain ⟨data, hfields⟩ := hg.fields h n hn
  rcases hkind with hkind | hkind | hkind | hkind | hkind
  all_goals rw [hkind] at hfields
  · exact keeps_declaration hp hm hs hfields
  · exact keeps_assignment hp hm hn hs hfields
  · exact keeps_output hp hm hn hs hfields
  · exact keeps_arrayDeclaration hp hm hs hkind hfields
  · exact keeps_arrayAssignment hp hm hn hs hfields

end Effects

/-! ## Tasks -/

structure Ready (p : Program) (P : Cause → Prop) : Prop where
  linked : p.graph.Linked
  permits : Permits p.graph P
  functions : ∀ name f, p.functions.get? name = some f → f.start < p.graph.size

section Tasks

variable {p : Program} {P : Cause → Prop} {first : List Failure} {C : Prop} {s s' : State}
  {n : Node} {t : Task}

theorem keeps_visitNext (hs : Sound p.graph P first s) {next : Option Handle}
    (hnext : ∀ x, next = some x → x < p.graph.size) (iteration : Nat) (stop : Option Handle) :
    Keeps p.graph P first C (s.visitNext next iteration stop).done :=
  .done _ (hs.visitNext hnext iteration stop)

theorem keeps_enterLoop (hr : Ready p P) (hs : Sound p.graph P first s)
    (hn : p.graph.node t.node = .ok n) (hkind : n.kind = .forLoop) :
    Keeps p.graph P first C (enterLoop s n t) := by
  obtain ⟨data, hfields⟩ := hr.linked.fields t.node n hn
  rw [hkind] at hfields
  simp only [enterLoop, hfields, Fields.of]
  refine keeps_after (hs.with_scopes _) ?_ fun scopes _ => ?_
  · split_ifs
    · exact .ok _
    · have hframes : (s.scopes.push s!"for {n.id}").frames ≠ [] := by
        simp [Scopes.push, Scope.Frames.push]
      exact (allows_prepare hr.permits.ordinary hframes _).within "loop initialization"
  · exact .done _ ((hs.with_scopes scopes).schedule ⟨n, hn, fun _ => hkind⟩)

theorem keeps_checkLoop (hr : Ready p P) (hm : s.scopes.WellFormed) (hs : Sound p.graph P first s)
    (hn : p.graph.node t.node = .ok n) (hkind : n.kind = .forLoop) :
    Keeps p.graph P first C (checkLoop p s t) := by
  obtain ⟨data, hfields⟩ := hr.linked.fields t.node n hn
  rw [hkind] at hfields
  have hclosed : Sound p.graph P first (s.unwind t.depth) := hs.with_scopes _
  simp only [checkLoop, hn, hfields, Fields.of, bind, Except.bind]
  by_cases hlimit : p.limits.maxIterations < t.iteration
  · rw [if_pos hlimit]
    exact keeps_failing hclosed (hr.permits.ordinary _ (ordinary_run (by simp) (by simp)))
  rw [if_neg hlimit]
  refine keeps_after hclosed ?_ fun holds _ => ?_
  · split_ifs
    · exact .ok false
    · exact allows_condition hr.permits hm.sized hn _ _
  · cases holds with
    | true =>
      have hstep : Grounded p.graph { t with activity := .step } := ⟨n, hn, fun _ => hkind⟩
      exact keeps_visitNext (hs.schedule hstep) (hr.linked.onTrue hn) _ _
    | false => exact keeps_visitNext hclosed (hr.linked.onFalse hn) _ _

theorem keeps_stepLoop (hr : Ready p P) (hs : Sound p.graph P first s)
    (hn : p.graph.node t.node = .ok n) (hkind : n.kind = .forLoop) :
    Keeps p.graph P first C (stepLoop p s t) := by
  obtain ⟨data, hfields⟩ := hr.linked.fields t.node n hn
  rw [hkind] at hfields
  simp only [stepLoop, hn, hfields, Fields.of, bind, Except.bind]
  refine keeps_after (hs.with_scopes _) ?_ fun scopes _ => ?_
  · split_ifs
    · exact .ok _
    · exact (allows_advance hr.permits.ordinary _).within "loop step"
  · exact .done _ ((hs.with_scopes scopes).schedule ⟨n, hn, fun _ => hkind⟩)

theorem keeps_call (hr : Ready p P) (hs : Sound p.graph P first s)
    (hn : p.graph.node t.node = .ok n) (hkind : n.kind = .functionCall) :
    Keeps p.graph P first C (call p s n t) := by
  obtain ⟨data, hfields⟩ := hr.linked.fields t.node n hn
  rw [hkind] at hfields
  have hrefused (e : Error) (he : Cause.Ordinary (.run e)) :
      Keeps p.graph P first C (s.failing (.run e)) :=
    keeps_failing hs (hr.permits.ordinary _ he)
  simp only [call, hfields, Fields.of]
  split_ifs
  · exact hrefused _ (ordinary_run (by simp) (by simp))
  · exact hrefused _ (ordinary_run (by simp) (by simp))
  · exact hrefused _ (ordinary_run (by simp) (by simp))
  · split
    · exact hrefused _ (ordinary_run (by simp) (by simp))
    · rename_i f hf
      obtain ⟨m, hm⟩ := exists_node (hr.functions _ f hf)
      simp only [hm, bind, Except.bind]
      have hleave : Grounded p.graph { t with activity := .leave, depth := s.scopes.depth } :=
        ⟨n, hn, by simp⟩
      have hentered (name : String) :
          Sound p.graph P first { s with calls := name :: s.calls, scopes := s.scopes.push name } :=
        ⟨hs.tasks, hs.failures⟩
      exact keeps_visitNext ((hentered _).schedule hleave) (hr.linked.next hm) _ _

theorem sound_leaveCall (hr : Ready p P) (hs : Sound p.graph P first s)
    (hn : p.graph.node t.node = .ok n) :
    ∃ s', leaveCall p s t = .ok s' ∧ Sound p.graph P first s' := by
  simp only [leaveCall, hn, bind, Except.bind, pure, Except.pure]
  have hleft : Sound p.graph P first { s.unwind t.depth with calls := s.calls.tail } :=
    ⟨hs.tasks, hs.failures⟩
  exact ⟨_, rfl, hleft.visitNext (hr.linked.next hn) _ _⟩

theorem keeps_branchOn (hr : Ready p P) (hm : s.scopes.WellFormed) (hs : Sound p.graph P first s)
    (hn : p.graph.node t.node = .ok n) (hkind : n.kind = .branch ∨ n.kind = .whileLoop)
    {decide : Bool → State} (hdecide : ∀ holds, Sound p.graph P first (decide holds)) :
    Keeps p.graph P first C (branchOn p s n decide) := by
  obtain ⟨data, hfields⟩ := hr.linked.fields t.node n hn
  have hcondition : n.fields = .condition data.condition data.operator := by
    rcases hkind with hkind | hkind <;> rw [hfields, hkind] <;> rfl
  simp only [branchOn, hcondition]
  exact keeps_after hs (allows_condition hr.permits hm.sized hn _ _) fun holds _ =>
    .done _ (hdecide holds)

theorem keeps_visit (hr : Ready p P) (hm : s.scopes.WellFormed) (hs : Sound p.graph P first s)
    (hn : p.graph.node t.node = .ok n) : Keeps p.graph P first (Oversized n) (visit p s t) := by
  have hnext := hr.linked.next hn
  have htrue := hr.linked.onTrue hn
  have hfalse := hr.linked.onFalse hn
  simp only [visit, hn, bind, Except.bind]
  split_ifs
  · exact keeps_failing hs (hr.permits.ordinary _ (ordinary_run (by simp) (by simp)))
  · exact .done s hs
  · cases hkind : n.kind
    all_goals simp only
    case start | functionStart | functionEnd | arithmetic | arrayElement =>
      exact keeps_visitNext hs hnext _ _
    case stop => exact .done s hs
    case declaration | assignment | output | arrayDeclaration | arrayAssignment =>
      have hexec := keeps_executeBlock hr.linked hr.permits hn hm hs (by simp [IsStatement, hkind])
      generalize executeBlock p.graph s n = e at hexec
      cases hexec with
      | done s1 hs1 => exact keeps_visitNext hs1 hnext _ _
      | failed s1 f hs1 hf => exact .failed s1 f hs1 hf
      | crashed hover => exact .crashed hover
    case branch =>
      refine keeps_branchOn hr hm hs hn (Or.inl hkind) fun holds => ?_
      cases holds with
      | true => exact hs.visitNext htrue _ _
      | false => exact hs.visitNext hfalse _ _
    case whileLoop =>
      refine keeps_branchOn hr hm hs hn (Or.inr hkind) fun holds => ?_
      cases holds with
      | true =>
        simp only [if_true]
        split
        · rename_i body hbody
          have hagain :
              Sound p.graph P first (s.visitNext (some t.node) (t.iteration + 1) t.stop) :=
            hs.visitNext (by simpa using lt_size_of_node hn) _ _
          exact hagain.visitNext (by simpa using htrue body hbody) _ _
        · exact hs
      | false => exact hs.visitNext hfalse _ _
    case forLoop => exact keeps_enterLoop hr hs hn hkind
    case functionCall => exact keeps_call hr hs hn hkind
    case unknown => exact keeps_failing hs (hr.permits.unknown t.node n hn hkind)

theorem keeps_perform (hr : Ready p P) (hm : s.scopes.WellFormed) (hs : Sound p.graph P first s)
    (hn : p.graph.node t.node = .ok n)
    (hloop : t.activity = .check ∨ t.activity = .step → n.kind = .forLoop) :
    Keeps p.graph P first (t.activity = .visit ∧ Oversized n) (perform p s t) := by
  unfold perform
  cases hact : t.activity
  all_goals simp only
  case visit => exact (keeps_visit hr hm hs hn).imp fun hover => ⟨trivial, hover⟩
  case check => exact keeps_checkLoop hr hm hs hn (hloop (Or.inl hact))
  case step => exact keeps_stepLoop hr hs hn (hloop (Or.inr hact))
  case leave =>
    obtain ⟨s', hleave, hs'⟩ := sound_leaveCall hr hs hn
    simp only [hleave, bind, Except.bind]
    exact .done s' hs'

/-! ## Steps -/

theorem cause_atBlock (f : Failure) (id : String) : (f.atBlock id).cause = f.cause := by
  unfold Failure.atBlock
  split_ifs <;> rfl

theorem sound_abandon (hr : Ready p P) (hs : Sound p.graph P first s)
    (hn : p.graph.node t.node = .ok n) {f : Failure} (hf : P f.cause) :
    ∃ s', s.abandon p t f = .ok s' ∧ Sound p.graph P first s' := by
  have hfailures : ∀ x ∈ s.failures.push (f.atBlock n.id), x ∈ first ∨ P x.cause := by
    intro x hx
    rcases Array.mem_push.mp hx with hx | rfl
    · exact hs.failures x hx
    · rw [cause_atBlock]
      exact Or.inr hf
  have hnode : p.graph.node? t.node = some n := node_eq_ok_iff.mp hn
  simp only [State.abandon, hnode]
  split
  · rename_i ret rest hinner
    obtain ⟨above, htasks, -, -⟩ := innermostCall_some hinner
    have hbelow : ∀ u ∈ ret :: rest, Grounded p.graph u := by
      intro u hu
      exact hs.tasks u (htasks ▸ List.mem_append_right above hu)
    obtain ⟨⟨m, hm, -⟩, hrest⟩ := List.forall_mem_cons.mp hbelow
    exact sound_leaveCall hr ⟨hrest, hfailures⟩ hm
  · exact ⟨_, rfl, by simp [State.unwind], hfailures⟩

/-- The topmost task is the visit of a block that declares an array too large for any memory. -/
def Overflows (p : Program) (s : State) : Prop :=
  ∃ t rest n, s.tasks = t :: rest ∧ t.activity = .visit ∧ p.graph.node t.node = .ok n ∧ Oversized n

theorem step_sound (hr : Ready p P) (hm : s.scopes.WellFormed) (hs : Sound p.graph P first s) :
    (∀ s', Next p s s' → Sound p.graph P first s') ∧
      ∀ c, step p s = .error c → c = .allocation ∧ Overflows p s := by
  unfold Next step
  split
  · simp
  · rename_i t rest htasks
    have hall := hs.tasks
    rw [htasks, List.forall_mem_cons] at hall
    obtain ⟨⟨n, hn, hloop⟩, hrest⟩ := hall
    have hperform :=
      keeps_perform (s := { s with tasks := rest }) hr hm ⟨hrest, hs.failures⟩ hn hloop
    generalize perform p { s with tasks := rest } t = e at hperform
    cases hperform with
    | done s1 hs1 => simpa [bind, Except.bind, pure, Except.pure] using hs1
    | failed s1 f hs1 hf =>
      obtain ⟨s2, habandon, hs2⟩ := sound_abandon hr hs1 hn hf
      simpa [bind, Except.bind, pure, Except.pure, habandon] using hs2
    | crashed hover =>
      have hoverflows : Overflows p s := ⟨t, rest, n, htasks, hover.1, hn, hover.2⟩
      simpa [bind, Except.bind] using hoverflows

/-! ## Whole runs -/

theorem reaches_sound (hr : Ready p P) {start : Handle} (hstart : start < p.graph.size)
    (h : Reaches p (.initial start first) s) : Sound p.graph P first s := by
  -- Both invariants at once: a step keeps a state sound only if its memory is well-formed.
  have hboth : Disciplined p s ∧ Sound p.graph P first s := by
    refine h.invariant (I := fun s => Disciplined p s ∧ Sound p.graph P first s)
      ⟨initial_disciplined p start first, ?_, ?_⟩ ?_
    · simpa [State.initial] using grounded_visit hstart 0 none
    · intro f hf
      exact Or.inl (by simpa [State.initial] using hf)
    · rintro s s' hnext ⟨hd, hs⟩
      exact ⟨next_disciplined hnext hd, (step_sound hr hd.memory hs).1 s' hnext⟩
  exact hboth.2

theorem reaches_of_crash {k : Nat} {c : Crash} (h : steps p k s = .error c) :
    ∃ s', Reaches p s s' ∧ step p s' = .error c := by
  induction k generalizing s with
  | zero => simp [steps] at h
  | succ k ih =>
    rcases steps_succ_cases p k s with ⟨-, hs⟩ | ⟨c', hc, hs⟩ | ⟨s1, hnext, hs⟩
    · simp [hs] at h
    · rw [hs] at h
      cases h
      exact ⟨s, .refl p s, hc⟩
    · rw [hs] at h
      obtain ⟨s', hreaches, hcrash⟩ := ih h
      exact ⟨s', hnext.reaches.trans hreaches, hcrash⟩

theorem overflows_of_crash (hr : Ready p P) {start : Handle} (hstart : start < p.graph.size)
    {k : Nat} {c : Crash} (h : steps p k (.initial start first) = .error c) :
    c = .allocation ∧ ∃ s, Reaches p (.initial start first) s ∧ step p s = .error .allocation ∧
      Overflows p s := by
  obtain ⟨s, hreaches, hcrash⟩ := reaches_of_crash h
  have hs := reaches_sound hr hstart hreaches
  obtain ⟨rfl, hover⟩ := (step_sound hr (reaches_disciplined hreaches).memory hs).2 c hcrash
  exact ⟨rfl, s, hreaches, hcrash, hover⟩

end Tasks

theorem permits_all {g : Graph} (hg : g.Linked) : Permits g fun _ => True where
  ordinary := fun _ _ => trivial
  unknown := fun _ _ _ _ => trivial
  inputs := by
    intro h n slot h' s hn hinput hs
    have hchained : Chained g (fun _ => True) fun _ x => x < g.size :=
      ⟨fun _ _ hx => hx, fun _ _ => trivial, fun _ _ _ _ _ _ => trivial,
        fun _ x m slot y _ hm hy => hg.inputs x m slot y hm hy⟩
    exact allows_value hg (fun _ _ => trivial) _ hchained hs g.size
      (hg.inputs h n slot h' hn hinput)

theorem ready_of_found {g : Graph} {P : Cause → Prop} (hg : g.Linked) (hp : Permits g P)
    {functions : Functions} (hf : functions.Found g) (limits : Limits) :
    Ready ⟨g, functions.table, limits⟩ P where
  linked := hg
  permits := hp
  functions := by
    intro name f hget
    obtain ⟨⟨n, hn, -⟩, -⟩ := hf.table name f hget
    exact lt_size_of_node hn

/-! ## Programs of records -/

namespace Loads

variable {records : List Record} {p : Program} {s₀ s : State}

theorem built (h : Loads records p s₀) : build records = .ok p.graph := by
  cases h with
  | mk hb _ _ _ => exact hb

theorem ready (h : Loads records p s₀) : Ready p fun _ => True := by
  cases h with
  | mk hb hfunctions _ limits =>
    have hg := linked_of_build hb
    obtain ⟨functions, hfunctions', hfound⟩ := Functions.ofGraph_found hg
    cases hfunctions.symm.trans hfunctions'
    exact ready_of_found hg (permits_all hg) hfound limits

theorem disciplined (h : Loads records p s₀) (hs : Reaches p s₀ s) : Disciplined p s := by
  cases h with
  | mk _ _ _ _ => exact reaches_disciplined hs

theorem sound (h : Loads records p s₀) (hs : Reaches p s₀ s) :
    Sound p.graph (fun _ => True) s₀.failures.toList s := by
  have hr := h.ready
  cases h with
  | mk _ _ hstart _ => simpa [State.initial] using reaches_sound hr (hr.linked.start _ hstart) hs

theorem topmost (h : Loads records p s₀) (hs : Reaches p s₀ s) {t : Task} {rest : List Task}
    (ht : s.tasks = t :: rest) : ∃ n, p.graph.node t.node = .ok n ∧
      (t.activity = .check ∨ t.activity = .step → n.kind = .forLoop) :=
  (h.sound hs).tasks t (by simp [ht])

end Loads

/-! ## Results -/

/-- The result of a run that ends in state `s`: the frames are laid over each other. -/
def resultOf (functions : Functions) (s : State) : Result where
  vars := (Table.layered (s.scopes.frames.map Scope.Frame.vars)).entries
  arrays := (Table.layered (s.scopes.frames.map Scope.Frame.arrays)).entries
  failures := s.failures.toList
  output := s.output.toList
  functions := functions.table.keys

theorem execute_of_steps {i : Interpreter} {records : List Record} {g : Graph} {start : Handle}
    {functions : Functions} (hb : build records = .ok g) (hstart : g.start = some start)
    (hfunctions : Functions.ofGraph g = .ok functions) :
    i.execute records =
      match steps ⟨g, functions.table, i.limits⟩ i.fuel (.initial start functions.failures) with
      | .ok (some s) => .finished { resultOf functions s with fingerprint := fingerprint records }
      | .ok none => .unfinished
      | .error c => .crashed c := by
  simp only [Interpreter.execute, hb, Interpreter.runGraph, hstart, hfunctions, bind, Except.bind]
  rcases hsteps :
    steps ⟨g, functions.table, i.limits⟩ i.fuel (.initial start functions.failures) with c | _ | s
  · rfl
  · rfl
  · have hm := (reaches_disciplined (reaches_of_steps hsteps).1).memory
    simp only [Scopes.vars, Scopes.arrays, hm.snapshot_eq]
    rfl

theorem started_of_crashed {i : Interpreter} {records : List Record} {c : Crash}
    (h : i.execute records = .crashed c) :
    ∃ g start, build records = .ok g ∧ g.start = some start := by
  unfold Interpreter.execute at h
  cases hb : build records with
  | error f => simp [hb] at h
  | ok g =>
    cases hstart : g.start with
    | none => simp [hb, Interpreter.runGraph, hstart] at h
    | some start => exact ⟨g, start, rfl, hstart⟩

/-- A program crashes only when it comes to a declaration of an array that is too large for any
memory. In every state of every run there is a current frame, all frames have their place, and
the tasks and the functions lead to blocks. -/
theorem crashes_only_by_allocation (i : Interpreter) (records : List Record) :
    (∀ c, i.execute records = .crashed c → c = .allocation ∧ ∃ g start functions s,
      build records = .ok g ∧ g.start = some start ∧ Functions.ofGraph g = .ok functions ∧
      Reaches ⟨g, functions.table, i.limits⟩ (.initial start functions.failures) s ∧
      step ⟨g, functions.table, i.limits⟩ s = .error .allocation ∧
      Overflows ⟨g, functions.table, i.limits⟩ s) ∧
    ∀ g, build records = .ok g → ∃ functions, Functions.ofGraph g = .ok functions ∧
      (∀ name f, functions.table.get? name = some f → f.start < g.size ∧ f.stop < g.size) ∧
      ∀ start s, g.start = some start →
        Reaches ⟨g, functions.table, i.limits⟩ (.initial start functions.failures) s →
        s.scopes.WellFormed ∧ (∀ t ∈ s.tasks, Grounded g t) ∧
        ∀ c, step ⟨g, functions.table, i.limits⟩ s = .error c →
          c = .allocation ∧ Overflows ⟨g, functions.table, i.limits⟩ s := by
  constructor
  · intro c hcrash
    obtain ⟨g, start, hbuild, hstart⟩ := started_of_crashed hcrash
    have hg := linked_of_build hbuild
    obtain ⟨functions, hfunctions, hfound⟩ := Functions.ofGraph_found hg
    have hready := ready_of_found hg (permits_all hg) hfound i.limits
    rw [execute_of_steps hbuild hstart hfunctions] at hcrash
    split at hcrash
    · cases hcrash
    · cases hcrash
    · rename_i hsteps
      cases hcrash
      obtain ⟨rfl, s, hreaches, hstep, hover⟩ :=
        overflows_of_crash hready (hg.start start hstart) hsteps
      exact ⟨rfl, g, start, functions, s, hbuild, hstart, hfunctions, hreaches, hstep, hover⟩
  · intro g hbuild
    have hg := linked_of_build hbuild
    obtain ⟨functions, hfunctions, hfound⟩ := Functions.ofGraph_found hg
    have hready := ready_of_found hg (permits_all hg) hfound i.limits
    refine ⟨functions, hfunctions, ?_, ?_⟩
    · intro name f hf
      exact ⟨hready.functions name f hf, (hfound.table name f hf).2⟩
    · intro start s hstart hreaches
      have hs := reaches_sound hready (hg.start start hstart) hreaches
      have hm := (reaches_disciplined hreaches).memory
      exact ⟨hm, hs.tasks, (step_sound hready hm hs).2⟩

/-- A program whose only statement declares an array of 2 ^ 62 elements. -/
def vastArray : List Record :=
  [{ id := "start", type := "start", next := "a" },
   { id := "a", type := "arrayDeclaration",
     data := { arrayName := "a", arraySize := "4611686018427387904" } }]

theorem crashes_only_by_allocation_vastArray :
    (⟨.standard, 2⟩ : Interpreter).execute vastArray = .crashed .allocation ∧ ∃ g start functions s,
      build vastArray = .ok g ∧ g.start = some start ∧
      Reaches ⟨g, functions, .standard⟩ (.initial start []) s ∧
      Overflows ⟨g, functions, .standard⟩ s := by
  have hcrash : (⟨.standard, 2⟩ : Interpreter).execute vastArray = .crashed .allocation := by rfl
  obtain ⟨-, g, start, functions, s, hbuild, hstart, hfunctions, hreaches, -, hover⟩ :=
    (crashes_only_by_allocation ⟨.standard, 2⟩ vastArray).1 .allocation hcrash
  obtain rfl : functions = ⟨.empty, []⟩ := by
    cases hbuild
    cases hfunctions
    rfl
  exact ⟨hcrash, g, start, .empty, s, hbuild, hstart, hreaches, hover⟩

end Flowchart.Machine
