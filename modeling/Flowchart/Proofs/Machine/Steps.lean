import Flowchart.Machine.Run
import Flowchart.Proofs.Scope.Frames
import Mathlib.Logic.Relation

/-!
# Steps of a run

What one step of the machine can do to the tasks, the calls and the frames, said once
for all invariants, and how single steps make up a run.
-/

namespace Flowchart.Machine

/-! ## Runs as sequences of steps -/

def Next (p : Program) (s s' : State) : Prop := step p s = .ok (some s')

def Reaches (p : Program) : State → State → Prop := Relation.ReflTransGen (Next p)

/-- The program that records stand for, under any limits, and the state before its first step. -/
inductive Loads (records : List Record) : Program → State → Prop
  | mk {g : Graph} {functions : Functions} {start : Handle} (hb : Graph.build records = .ok g)
      (hfunctions : Functions.ofGraph g = .ok functions) (hstart : g.start = some start)
      (limits : Limits) :
      Loads records ⟨g, functions.table, limits⟩ (.initial start functions.failures)

theorem Reaches.refl (p : Program) (s : State) : Reaches p s s := Relation.ReflTransGen.refl

theorem Reaches.trans {p : Program} {s s' s'' : State} (h : Reaches p s s')
    (h' : Reaches p s' s'') :
    Reaches p s s'' := Relation.ReflTransGen.trans h h'

theorem Next.reaches {p : Program} {s s' : State} (h : Next p s s') : Reaches p s s' :=
  Relation.ReflTransGen.single h

/-- What holds at first and is kept by every step holds in every state that is reached. -/
theorem Reaches.invariant {p : Program} {s s' : State} {I : State → Prop} (h : Reaches p s s')
    (hs : I s) (hstep : ∀ s s', Next p s s' → I s → I s') : I s' := by
  induction h with
  | refl => exact hs
  | tail _ hnext ih => exact hstep _ _ hnext ih

theorem steps_of_next {p : Program} {s s' : State} (h : Next p s s') (n : Nat) :
    steps p (n + 1) s = steps p n s' := by
  rw [Next] at h
  simp [steps, h, bind, Except.bind]

theorem steps_of_reaches {p : Program} {s s' : State} (h : Reaches p s s') :
    ∃ c, ∀ n, steps p (c + n) s = steps p n s' := by
  induction h using Relation.ReflTransGen.head_induction_on with
  | refl => exact ⟨0, fun n => by rw [Nat.zero_add]⟩
  | head hnext _ ih =>
    obtain ⟨c, hc⟩ := ih
    refine ⟨c + 1, fun n => ?_⟩
    rw [show c + 1 + n = c + n + 1 by omega, steps_of_next hnext, hc]

theorem step_eq_none_iff {p : Program} {s : State} : step p s = .ok none ↔ s.tasks = [] := by
  unfold step
  split
  · simp [*]
  · rename_i t rest ht
    simp only [ht, bind, Except.bind, reduceCtorEq, iff_false]
    cases perform p { s with tasks := rest } t with
    | error c => simp
    | ok r =>
      obtain ⟨s', _ | f⟩ := r
      · simp [pure, Except.pure]
      · cases ha : s'.abandon p t f <;> simp [ha, pure, Except.pure]

theorem steps_of_done {p : Program} {s : State} (h : s.tasks = []) (n : Nat) :
    steps p (n + 1) s = .ok (some s) := by
  simp [steps, step_eq_none_iff.mpr h, bind, Except.bind, pure, Except.pure]

theorem steps_of_crash {p : Program} {s : State} {c : Crash} (h : step p s = .error c) (n : Nat) :
    steps p (n + 1) s = .error c := by
  simp [steps, h, bind, Except.bind]

theorem steps_succ_cases (p : Program) (n : Nat) (s : State) :
    (s.tasks = [] ∧ steps p (n + 1) s = .ok (some s)) ∨
      (∃ c, step p s = .error c ∧ steps p (n + 1) s = .error c) ∨
      ∃ s', Next p s s' ∧ steps p (n + 1) s = steps p n s' := by
  cases h : step p s with
  | error c => exact Or.inr (Or.inl ⟨c, rfl, steps_of_crash h n⟩)
  | ok r =>
    cases r with
    | none => exact Or.inl ⟨step_eq_none_iff.mp h, steps_of_done (step_eq_none_iff.mp h) n⟩
    | some s' => exact Or.inr (Or.inr ⟨s', h, steps_of_next h n⟩)

theorem reaches_of_steps {p : Program} {n : Nat} {s s' : State} (h : steps p n s = .ok (some s')) :
    Reaches p s s' ∧ s'.tasks = [] := by
  induction n generalizing s with
  | zero => simp [steps] at h
  | succ n ih =>
    rcases steps_succ_cases p n s with ⟨hdone, hs⟩ | ⟨c, _, hs⟩ | ⟨s1, hnext, hs⟩
    · rw [hs] at h
      cases h
      exact ⟨.refl p _, hdone⟩
    · rw [hs] at h
      cases h
    · rw [hs] at h
      exact ⟨hnext.reaches.trans (ih h).1, (ih h).2⟩

theorem steps_add {p : Program} {n : Nat} {s : State} (h : steps p n s ≠ .ok none) (k : Nat) :
    steps p (n + k) s = steps p n s := by
  induction n generalizing s with
  | zero => simp [steps] at h
  | succ n ih =>
    rw [show n + 1 + k = n + k + 1 by omega]
    rcases steps_succ_cases p n s with ⟨hdone, hs⟩ | ⟨c, hc, hs⟩ | ⟨s1, hnext, hs⟩
    · rw [hs, steps_of_done hdone]
    · rw [hs, steps_of_crash hc]
    · rw [hs] at h ⊢
      rw [steps_of_next hnext, ih h]

theorem steps_unique {p : Program} {n m : Nat} {s : State} (hn : steps p n s ≠ .ok none)
    (hm : steps p m s ≠ .ok none) : steps p n s = steps p m s := by
  rw [← steps_add hn m, ← steps_add hm n, Nat.add_comm]

/-! ## Blocks that neither branch nor call -/

theorem after_cases {α : Type} {s s' : State} {r : Attempt α} {next : α → Effect}
    {f : Option Failure} (h : s.after r next = .ok (s', f)) :
    (∃ a, r = .ok a ∧ next a = .ok (s', f)) ∨ ∃ x, r = .error (.failed x) ∧ s' = s ∧
      f = some x := by
  unfold State.after at h
  split at h
  · exact Or.inl ⟨_, rfl, h⟩
  · cases h
    exact Or.inr ⟨_, rfl, rfl, rfl⟩
  · cases h

/-- Both states have the same tasks, calls and frames; what the frames hold may differ. -/
structure SameStacks (s s' : State) : Prop where
  tasks : s'.tasks = s.tasks
  calls : s'.calls = s.calls
  frames : Scope.Refilled s.scopes.frames s'.scopes.frames

theorem SameStacks.refl (s : State) : SameStacks s s := ⟨rfl, rfl, Scope.refilled_refl _⟩

theorem SameStacks.trans {s s' s'' : State} (h : SameStacks s s') (h' : SameStacks s' s'') :
    SameStacks s s'' :=
  ⟨h'.tasks.trans h.tasks, h'.calls.trans h.calls, h.frames.trans h'.frames⟩

theorem sameStacks_of_refilled {s : State} {scopes : Scopes}
    (h : Scope.Refilled s.scopes.frames scopes.frames) : SameStacks s { s with scopes } :=
  ⟨rfl, rfl, h⟩

theorem declareAll_sameStacks {s s' : State} {names : List String} {f : Option Failure}
    (h : declareAll s names = .ok (s', f)) : SameStacks s s' := by
  induction names generalizing s with
  | nil =>
    cases h
    exact .refl _
  | cons name rest ih =>
    rcases after_cases h with ⟨scopes, hd, hrest⟩ | ⟨x, _, rfl, _⟩
    · exact (sameStacks_of_refilled (Scopes.refilled_declare hd)).trans (ih hrest)
    · exact .refl s'

/-- What a block that neither branches nor calls comes to. A block that fails changes nothing,
unless it has declared some of its names before. -/
inductive Executed (g : Graph) (s : State) (n : Node) : State → Option Failure → Prop
  | refused (x : Failure) : Executed g s n s (some x)
  | declared (names : String) (s' : State) (f : Option Failure)
      (hfields : n.fields = .declaration names)
      (hdeclare : declareAll s (nameList names) = .ok (s', f)) : Executed g s n s' f
  | assigned (target text : String) (v : Float) (scopes : Scopes)
      (hfields : n.fields = .assignment target text) (hv : operand g s.scopes n .value text = .ok v)
      (hupdate : s.scopes.update target v = .ok scopes) :
      Executed g s n { s with scopes } none
  | putOut (text : String) : Executed g s n { s with output := s.output.push ⟨n.id, text⟩ } none
  | arrayDeclared (array size : String) (count : Int) (scopes : Scopes)
      (hfields : n.fields = .arrayDeclaration array size)
      (hdeclare : s.scopes.declareArray array count = .ok scopes) :
      Executed g s n { s with scopes } none
  | elementSet (array index text : String) (i : Int) (v : Float) (scopes : Scopes)
      (hfields : n.fields = .arrayAssignment array index text)
      (hi : arrayIndex g s.scopes n index = .ok i) (hv : operand g s.scopes n .value text = .ok v)
      (hset : s.scopes.setElement array i v = .ok scopes) :
      Executed g s n { s with scopes } none

theorem executeBlock_cases {g : Graph} {s s' : State} {n : Node} {f : Option Failure}
    (h : executeBlock g s n = .ok (s', f)) : Executed g s n s' f := by
  unfold executeBlock at h
  split at h
  · -- declaration
    rename_i names hfields
    split at h
    · cases h; exact .refused _
    · rename_i name rest hnames
      exact .declared names s' f hfields (hnames ▸ h)
  · -- assignment
    rename_i target text hfields
    split_ifs at h
    · cases h; exact .refused _
    · cases h; exact .refused _
    · rcases after_cases h with ⟨v, hv, h⟩ | ⟨x, _, rfl, rfl⟩
      · rcases after_cases h with ⟨scopes, hupdate, h⟩ | ⟨x, _, rfl, rfl⟩
        · cases h
          exact .assigned target text v scopes hfields hv hupdate
        · exact .refused x
      · exact .refused x
  · -- output
    rcases after_cases h with ⟨text, _, h⟩ | ⟨x, _, rfl, rfl⟩
    · cases h
      exact .putOut text
    · exact .refused x
  · -- array declaration
    rename_i array size hfields
    split_ifs at h
    · cases h; exact .refused _
    · cases h; exact .refused _
    · split at h
      · rename_i count _
        split_ifs at h
        · cases h; exact .refused _
        · rcases after_cases h with ⟨scopes, hdeclare, h⟩ | ⟨x, _, rfl, rfl⟩
          · cases h
            exact .arrayDeclared array size count scopes hfields hdeclare
          · exact .refused x
      · cases h; exact .refused _
  · -- array assignment
    rename_i array index text hfields
    split_ifs at h
    · cases h; exact .refused _
    · rcases after_cases h with ⟨i, hi, h⟩ | ⟨x, _, rfl, rfl⟩
      · rcases after_cases h with ⟨v, hv, h⟩ | ⟨x, _, rfl, rfl⟩
        · rcases after_cases h with ⟨scopes, hset, h⟩ | ⟨x, _, rfl, rfl⟩
          · cases h
            exact .elementSet array index text i v scopes hfields hi hv hset
          · exact .refused x
        · exact .refused x
      · exact .refused x
  · cases h; exact .refused _

theorem executeBlock_sameStacks {g : Graph} {s s' : State} {n : Node} {f : Option Failure}
    (h : executeBlock g s n = .ok (s', f)) : SameStacks s s' := by
  cases executeBlock_cases h with
  | refused x => exact .refl s
  | declared names _ _ _ hdeclare => exact declareAll_sameStacks hdeclare
  | assigned target text v scopes _ _ hupdate =>
    exact sameStacks_of_refilled (Scopes.refilled_update hupdate)
  | putOut text => exact ⟨rfl, rfl, Scope.refilled_refl _⟩
  | arrayDeclared array size count scopes _ hdeclare =>
    exact sameStacks_of_refilled (Scopes.refilled_declareArray hdeclare)
  | elementSet array index text i v scopes _ _ _ hset =>
    exact sameStacks_of_refilled (Scopes.refilled_setElement hset)

/-- A change of states that blocks which neither branch nor call do not notice. -/
structure Unnoticed (φ : State → State) : Prop where
  scopes : ∀ s, (φ s).scopes = s.scopes
  setScopes : ∀ s scopes, { φ s with scopes } = φ { s with scopes }
  putOut : ∀ s m, { φ s with output := (φ s).output.push m } =
    φ { s with output := s.output.push m }

def Effect.mapState (φ : State → State) (e : Effect) : Effect := e.map fun r => (φ r.1, r.2)

theorem after_mapState {α : Type} {φ : State → State} (s : State) (r : Attempt α)
    {next next' : α → Effect} (hnext : ∀ a, next' a = (next a).mapState φ) :
    (φ s).after r next' = (s.after r next).mapState φ := by
  unfold State.after
  split
  · exact hnext _
  · rfl
  · rfl

section Unnoticed

variable {φ : State → State}

theorem Unnoticed.done_setScopes (hφ : Unnoticed φ) (s : State) (scopes : Scopes) :
    State.done { φ s with scopes } = (State.done { s with scopes }).mapState φ := by
  rw [hφ.setScopes]
  rfl

theorem declareAll_unnoticed (hφ : Unnoticed φ) (s : State) (names : List String) :
    declareAll (φ s) names = (declareAll s names).mapState φ := by
  induction names generalizing s with
  | nil => rfl
  | cons name rest ih =>
    unfold declareAll
    rw [hφ.scopes]
    refine after_mapState s _ fun scopes => ?_
    rw [hφ.setScopes, ih]

theorem executeBlock_unnoticed (hφ : Unnoticed φ) (g : Graph) (s : State) (n : Node) :
    executeBlock g (φ s) n = (executeBlock g s n).mapState φ := by
  unfold executeBlock
  rw [hφ.scopes]
  split
  · -- declaration
    split
    · rfl
    · exact declareAll_unnoticed hφ s _
  · -- assignment
    split_ifs
    · rfl
    · rfl
    · refine after_mapState s _ fun v => ?_
      exact after_mapState s _ fun scopes => hφ.done_setScopes s scopes
  · -- output
    refine after_mapState s _ fun text => ?_
    have hput := hφ.putOut s ⟨n.id, text⟩
    simp only [hφ.scopes] at hput
    exact congrArg State.done hput
  · -- array declaration
    split_ifs
    · rfl
    · rfl
    · split
      · split_ifs
        · rfl
        · exact after_mapState s _ fun scopes => hφ.done_setScopes s scopes
      · rfl
  · -- array assignment
    split_ifs
    · rfl
    · refine after_mapState s _ fun i => ?_
      refine after_mapState s _ fun v => ?_
      exact after_mapState s _ fun scopes => hφ.done_setScopes s scopes
  · rfl

end Unnoticed

/-! ## Statements of counting loops -/

theorem refilled_prepare {s s' : Scopes} {statement : String} (h : prepare s statement = .ok s') :
    Scope.Refilled s.frames s'.frames := by
  obtain ⟨a, -, h⟩ := bind_eq_ok h
  obtain ⟨v, -, h⟩ := bind_eq_ok h
  cases hs : s.assignCurrent a.name v with
  | error c =>
    rw [hs] at h
    cases h
  | ok s1 =>
    rw [hs] at h
    cases h
    exact Scopes.refilled_assignCurrent hs

theorem refilled_advance {s s' : Scopes} {statement : String} (h : advance s statement = .ok s') :
    Scope.Refilled s.frames s'.frames := by
  obtain ⟨a, -, h⟩ := bind_eq_ok h
  split_ifs at h
  · cases h
  · obtain ⟨v, -, h⟩ := bind_eq_ok h
    exact Scopes.refilled_update h

theorem mapFailure_ok {α : Type} {g : Failure → Failure} {r : Attempt α} {a : α}
    (h : r.mapFailure g = .ok a) : r = .ok a := by
  unfold Attempt.mapFailure at h
  split at h
  · exact h
  · cases h
  · cases h

/-! ## What a task can do -/

def visits (h : Option Handle) (iteration : Nat) (stop : Option Handle) : List Task :=
  (h.map fun node => { activity := .visit, node, iteration, stop }).toList

theorem activity_of_mem_visits {h : Option Handle} {iteration : Nat} {stop : Option Handle}
    {t : Task} (ht : t ∈ visits h iteration stop) : t.activity = .visit := by
  cases h with
  | none => simp [visits] at ht
  | some node =>
    obtain rfl : t = _ := by simpa [visits] using ht
    rfl

theorem visitNext_eq (s : State) (h : Option Handle) (iteration : Nat) (stop : Option Handle) :
    s.visitNext h iteration stop = { s with tasks := visits h iteration stop ++ s.tasks } := by
  cases h <;> rfl

theorem follow_eq (s : State) (h : Option Handle) (t : Task) :
    s.follow h t = { s with tasks := visits h t.iteration t.stop ++ s.tasks } :=
  visitNext_eq s h t.iteration t.stop

/-- What the task `t`, taken off the tasks of `s`, does to tasks, calls and frames. The last
argument is the failure it ends in, if it does. -/
inductive Performed (p : Program) (t : Task) (s s' : State) : Option Failure → Prop
  /-- A block was carried out, and others are visited next. -/
  | visited (vs : List Task) (ht : t.activity = .visit) (hvs : ∀ v ∈ vs, v.activity = .visit)
      (htasks : s'.tasks = vs ++ s.tasks) (hcalls : s'.calls = s.calls)
      (hframes : Scope.Refilled s.scopes.frames s'.scopes.frames) : Performed p t s s' none
  | failed (f : Failure) (ht : t.activity = .visit) (hs : SameStacks s s') :
      Performed p t s s' (some f)
  | entered (name : String) (ht : t.activity = .visit)
      (htasks : s'.tasks = { t with activity := .check, depth := s.scopes.depth } :: s.tasks)
      (hcalls : s'.calls = s.calls)
      (hframes : Scope.Refilled (s.scopes.push name).frames s'.scopes.frames) :
      Performed p t s s' none
  | repeated (vs : List Task) (ht : t.activity = .check) (hvs : ∀ v ∈ vs, v.activity = .visit)
      (htasks : s'.tasks = vs ++ { t with activity := .step } :: s.tasks)
      (hcalls : s'.calls = s.calls) (hscopes : s'.scopes = s.scopes) : Performed p t s s' none
  | advanced (ht : t.activity = .step)
      (htasks : s'.tasks = { t with activity := .check, iteration := t.iteration + 1 } :: s.tasks)
      (hcalls : s'.calls = s.calls)
      (hframes : Scope.Refilled s.scopes.frames s'.scopes.frames) : Performed p t s s' none
  /-- The scope of a loop was closed, as the loop is over or failed. -/
  | closed (f : Option Failure) (vs : List Task) (ht : t.activity = .check ∨ t.activity = .step)
      (hvs : ∀ v ∈ vs, v.activity = .visit) (htasks : s'.tasks = vs ++ s.tasks)
      (hcalls : s'.calls = s.calls) (hscopes : s'.scopes = s.scopes.unwind t.depth) :
      Performed p t s s' f
  | called (n : Node) (name : String) (vs : List Task) (ht : t.activity = .visit)
      (hn : p.graph.node t.node = .ok n) (hname : n.fields = .function name) (hnew : name ∉ s.calls)
      (hroom : s.calls.length < p.limits.maxCallDepth) (hvs : ∀ v ∈ vs, v.activity = .visit)
      (htasks : s'.tasks = vs ++ { t with activity := .leave, depth := s.scopes.depth } :: s.tasks)
      (hcalls : s'.calls = name :: s.calls) (hscopes : s'.scopes = s.scopes.push name) :
      Performed p t s s' none
  | left (ht : t.activity = .leave) (hleave : leaveCall p s t = .ok s') : Performed p t s s' none

theorem enterLoop_performed {p : Program} {s s' : State} {n : Node} {t : Task} {f : Option Failure}
    (hs : s.scopes.WellFormed) (ht : t.activity = .visit) (h : enterLoop s n t = .ok (s', f)) :
    Performed p t s s' f := by
  unfold enterLoop at h
  split at h
  · rename_i init _ _ _ _
    rcases after_cases h with ⟨scopes, hprep, h⟩ | ⟨x, _, rfl, rfl⟩
    · cases h
      refine .entered s!"for {n.id}" ht rfl rfl ?_
      split_ifs at hprep
      · cases hprep
        exact Scope.refilled_refl _
      · exact refilled_prepare (mapFailure_ok hprep)
    · -- The scope that was opened for the loop is closed again.
      refine .failed x ht ⟨rfl, rfl, ?_⟩
      simp only [State.unwind, hs.unwind_push]
      exact Scope.refilled_refl _
  · cases h

theorem checkLoop_performed {p : Program} {s s' : State} {t : Task} {f : Option Failure}
    (ht : t.activity = .check) (h : checkLoop p s t = .ok (s', f)) : Performed p t s s' f := by
  obtain ⟨n, -, h⟩ := bind_eq_ok h
  simp only at h
  split_ifs at h
  · cases h
    exact .closed _ [] (Or.inl ht) (by simp) rfl rfl rfl
  · split at h
    · rcases after_cases h with ⟨holds, _, h⟩ | ⟨x, _, rfl, rfl⟩
      · split_ifs at h
        · cases h
          rw [visitNext_eq]
          exact .repeated _ ht (fun v hv => activity_of_mem_visits hv) rfl rfl rfl
        · cases h
          rw [follow_eq]
          exact .closed _ _ (Or.inl ht) (fun v hv => activity_of_mem_visits hv) rfl rfl rfl
      · exact .closed _ [] (Or.inl ht) (by simp) rfl rfl rfl
    · cases h

theorem stepLoop_performed {p : Program} {s s' : State} {t : Task} {f : Option Failure}
    (ht : t.activity = .step) (h : stepLoop p s t = .ok (s', f)) : Performed p t s s' f := by
  obtain ⟨n, -, h⟩ := bind_eq_ok h
  split at h
  · rcases after_cases h with ⟨scopes, hadv, h⟩ | ⟨x, _, rfl, rfl⟩
    · cases h
      refine .advanced ht rfl rfl ?_
      split_ifs at hadv
      · cases hadv
        exact Scope.refilled_refl _
      · exact refilled_advance (mapFailure_ok hadv)
    · exact .closed _ [] (Or.inr ht) (by simp) rfl rfl rfl
  · cases h

theorem call_performed {p : Program} {s s' : State} {n : Node} {t : Task} {f : Option Failure}
    (ht : t.activity = .visit) (hn : p.graph.node t.node = .ok n) (h : call p s n t = .ok (s', f)) :
    Performed p t s s' f := by
  unfold call at h
  split at h
  · rename_i name hname
    split_ifs at h with _ hroom hnew
    · cases h
      exact .failed _ ht (.refl s)
    · cases h
      exact .failed _ ht (.refl s)
    · cases h
      exact .failed _ ht (.refl s)
    · split at h
      · cases h
        exact .failed _ ht (.refl s)
      · obtain ⟨first, -, h⟩ := bind_eq_ok h
        cases h
        rw [visitNext_eq]
        refine .called n name _ ht hn hname ?_ (by omega) (fun v hv => activity_of_mem_visits hv)
          rfl rfl rfl
        simpa using hnew
  · cases h

theorem branchOn_cases {p : Program} {s s' : State} {n : Node} {decide : Bool → State}
    {f : Option Failure} (h : branchOn p s n decide = .ok (s', f)) :
    (∃ holds, s' = decide holds ∧ f = none) ∨ ∃ x, s' = s ∧ f = some x := by
  unfold branchOn at h
  split at h
  · rcases after_cases h with ⟨holds, _, h⟩ | ⟨x, _, rfl, rfl⟩
    · cases h
      exact Or.inl ⟨holds, rfl, rfl⟩
    · exact Or.inr ⟨x, rfl, rfl⟩
  · cases h

theorem visited_of_tasks {p : Program} {t : Task} {s : State} (vs : List Task)
    (ht : t.activity = .visit) (hvs : ∀ v ∈ vs, v.activity = .visit) :
    Performed p t s { s with tasks := vs ++ s.tasks } none :=
  .visited vs ht hvs rfl rfl (Scope.refilled_refl _)

theorem visited_follow {p : Program} {t : Task} {s : State} (h : Option Handle)
    (ht : t.activity = .visit) :
    Performed p t s (s.follow h t) none := by
  rw [follow_eq]
  exact visited_of_tasks _ ht fun v hv => activity_of_mem_visits hv

theorem whileLoop_performed {p : Program} {s s' : State} {n : Node} {t : Task} {f : Option Failure}
    (ht : t.activity = .visit)
    (h : (branchOn p s n fun holds =>
      if holds then
        match n.onTrue with
        | some body =>
          (s.visitNext (some t.node) (t.iteration + 1) t.stop).visitNext (some body)
            (t.iteration + 1) t.stop
        | none => s
      else s.follow n.onFalse t) = .ok (s', f)) : Performed p t s s' f := by
  rcases branchOn_cases h with ⟨holds, rfl, rfl⟩ | ⟨x, rfl, rfl⟩
  · cases holds with
    | false => exact visited_follow n.onFalse ht
    | true =>
      simp only [if_true]
      cases n.onTrue with
      | none => exact visited_of_tasks [] ht (by simp)
      | some body =>
        simp only [visitNext_eq, ← List.append_assoc]
        refine visited_of_tasks _ ht fun v hv => ?_
        rcases List.mem_append.mp hv with hv | hv
        · exact activity_of_mem_visits hv
        · exact activity_of_mem_visits hv
  · exact .failed x ht (.refl _)

theorem plain_performed {p : Program} {s s' : State} {n : Node} {t : Task} {f : Option Failure}
    (ht : t.activity = .visit)
    (h : (do match ← executeBlock p.graph s n with
      | (s', none) => (s'.follow n.next t).done
      | failed => .ok failed : Effect) = .ok (s', f)) : Performed p t s s' f := by
  obtain ⟨⟨s1, f1⟩, hexec, h⟩ := bind_eq_ok h
  have hs := executeBlock_sameStacks hexec
  cases f1 with
  | none =>
    cases h
    rw [follow_eq]
    exact .visited _ ht (fun v hv => activity_of_mem_visits hv) (by rw [hs.tasks])
      hs.calls hs.frames
  | some x =>
    cases h
    exact .failed x ht hs

theorem visit_performed {p : Program} {s s' : State} {t : Task} {f : Option Failure}
    (hs : s.scopes.WellFormed) (ht : t.activity = .visit) (h : visit p s t = .ok (s', f)) :
    Performed p t s s' f := by
  obtain ⟨n, hn, h⟩ := bind_eq_ok h
  split_ifs at h
  · cases h
    exact .failed _ ht (.refl s)
  · cases h
    exact visited_of_tasks [] ht (by simp)
  · cases hk : n.kind <;> simp only [hk] at h
    case start | functionStart | functionEnd | arithmetic | arrayElement =>
      cases h
      exact visited_follow n.next ht
    case stop =>
      cases h
      exact visited_of_tasks [] ht (by simp)
    case declaration | assignment | output | arrayDeclaration | arrayAssignment =>
      exact plain_performed ht h
    case branch =>
      rcases branchOn_cases h with ⟨holds, rfl, rfl⟩ | ⟨x, rfl, rfl⟩
      · exact visited_follow _ ht
      · exact .failed x ht (.refl _)
    case whileLoop => exact whileLoop_performed ht h
    case forLoop => exact enterLoop_performed hs ht h
    case functionCall => exact call_performed ht hn h
    case unknown =>
      cases h
      exact .failed _ ht (.refl s)

theorem perform_performed {p : Program} {s s' : State} {t : Task} {f : Option Failure}
    (hs : s.scopes.WellFormed) (h : perform p s t = .ok (s', f)) : Performed p t s s' f := by
  unfold perform at h
  cases ht : t.activity <;> simp only [ht] at h
  case visit => exact visit_performed hs ht h
  case check => exact checkLoop_performed ht h
  case step => exact stepLoop_performed ht h
  case leave =>
    obtain ⟨s1, hl, h⟩ := bind_eq_ok h
    cases h
    exact .left ht hl

/-- A step carries out the topmost task and, if that fails, gives up its path. -/
theorem next_cases {p : Program} {s s' : State} (h : Next p s s') :
    ∃ t rest s1, ∃ f, s.tasks = t :: rest ∧ perform p { s with tasks := rest } t = .ok (s1, f) ∧
      match f with
      | none => s' = s1
      | some f => s1.abandon p t f = .ok s' := by
  unfold Next step at h
  split at h
  · cases h
  · rename_i t rest ht
    obtain ⟨⟨s1, f⟩, hp, h⟩ := bind_eq_ok h
    refine ⟨t, rest, s1, f, ht, hp, ?_⟩
    cases f with
    | none =>
      cases h
      rfl
    | some f =>
      obtain ⟨s2, ha, h⟩ := bind_eq_ok h
      cases h
      exact ha

theorem next_of_performed {p : Program} {s s' s1 : State} {t : Task} {rest : List Task}
    {f : Option Failure} (ht : s.tasks = t :: rest)
    (hend : match f with | none => s' = s1 | some f => s1.abandon p t f = .ok s')
    (hp : perform p { s with tasks := rest } t = .ok (s1, f)) : Next p s s' := by
  unfold Next step
  rw [ht]
  simp only [hp, bind, Except.bind]
  cases f with
  | none => exact congrArg (fun s => Except.ok (some s)) hend.symm
  | some f =>
    simp only at hend ⊢
    rw [hend]
    rfl

end Flowchart.Machine
