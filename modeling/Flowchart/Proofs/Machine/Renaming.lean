import Flowchart.Proofs.Machine.Discovery
import Flowchart.Proofs.Machine.Safety

/-!
# Runs under other handles

The machine does the same steps when the handles of all blocks are written differently, in
the graph, in the functions and in the pending tasks. Failures that were reported before
the run stay in front of those of the run and have no influence on it. So the order of the
records of a program has no influence on what a run does.
-/

namespace Flowchart.Machine

open Flowchart.Graph

variable {σ : Handle → Handle} {g g' : Graph} {n n' : Node}

/-! ## Evaluation -/

theorem attempt_node {α : Type} (hg : Renamed σ g g') (h : Handle) {next next' : Node → Attempt α}
    (hnext : ∀ n n', n.Renamed σ n' → next' n' = next n) :
    (attempt (g'.node (σ h)) >>= next') = attempt (g.node h) >>= next := by
  rcases hg.node_cases h with ⟨hn, hn'⟩ | ⟨n, n', hn, hn', hrenamed⟩
  · rw [hn, hn']
    rfl
  · rw [hn, hn']
    exact hnext n n' hrenamed

theorem value_renamed (hg : Renamed σ g g') (s : Scopes) (fuel : Nat) (h : Handle) :
    value g' s fuel (σ h) = value g s fuel h := by
  induction fuel generalizing h with
  | zero =>
    unfold value
    refine attempt_node hg h fun n n' hn => ?_
    rw [hn.id]
  | succ fuel ih =>
    unfold value
    refine attempt_node hg h fun n n' hn => ?_
    rw [hn.id, hn.fields, hn.type, hn.input]
    congr 1
    split
    · rfl
    · split_ifs
      · rfl
      · cases n.input .index with
        | none => rfl
        | some producer =>
          simp only [Option.map_some]
          rw [ih producer]
    · rfl

theorem operand_renamed (hg : Renamed σ g g') (hn : n.Renamed σ n') (s : Scopes) (slot : Slot)
    (text : String) :
    operand g' s n' slot text = operand g s n slot text := by
  unfold operand
  rw [hn.input, hg.size]
  cases n.input slot with
  | none => rfl
  | some producer => exact value_renamed hg s g.size producer

theorem arrayIndex_renamed (hg : Renamed σ g g') (hn : n.Renamed σ n') (s : Scopes)
    (text : String) :
    arrayIndex g' s n' text = arrayIndex g s n text := by
  rw [arrayIndex, arrayIndex, operand_renamed hg hn]

theorem condition_renamed (hg : Renamed σ g g') (hn : n.Renamed σ n') (s : Scopes)
    (text operator : String) :
    condition g' s n' text operator = condition g s n text operator := by
  simp only [condition, operand_renamed hg hn]

theorem outputText_renamed (hg : Renamed σ g g') (hn : n.Renamed σ n') (s : Scopes)
    (expression : String) :
    outputText g' s n' expression = outputText g s n expression := by
  unfold outputText
  rw [hn.input, hg.size]
  cases n.input .value with
  | none => rfl
  | some producer => exact congrArg (Except.map Number.format) (value_renamed hg s g.size producer)

/-! ## States -/

def Task.renamed (σ : Handle → Handle) (t : Task) : Task :=
  { t with node := σ t.node, stop := t.stop.map σ }

/-- A state under other handles, in a run before which the failures `found` were reported. -/
def State.renamed (σ : Handle → Handle) (found : List Failure) (s : State) : State :=
  { s with tasks := s.tasks.map (Task.renamed σ), failures := found.toArray ++ s.failures }

structure Program.Renamed (σ : Handle → Handle) (p p' : Program) : Prop where
  graph : Graph.Renamed σ p.graph p'.graph
  functions : ∀ name, p'.functions.get? name = (p.functions.get? name).map (Function.renamed σ)
  limits : p'.limits = p.limits

theorem Program.renamed_refl (p : Program) : p.Renamed id p where
  graph := Graph.renamed_refl p.graph
  functions := by
    intro name
    cases p.functions.get? name <;> rfl
  limits := rfl

variable {p p' : Program} {found : List Failure}

@[simp] theorem State.renamed_scopes (s : State) : (s.renamed σ found).scopes = s.scopes := rfl

@[simp] theorem State.renamed_calls (s : State) : (s.renamed σ found).calls = s.calls := rfl

theorem visitNext_renamed (s : State) (h : Option Handle) (iteration : Nat) (stop : Option Handle) :
    (s.renamed σ found).visitNext (h.map σ) iteration (stop.map σ) =
      (s.visitNext h iteration stop).renamed σ found := by
  cases h <;> rfl

theorem follow_renamed (s : State) (h : Option Handle) (t : Task) :
    (s.renamed σ found).follow (h.map σ) (t.renamed σ) = (s.follow h t).renamed σ found :=
  visitNext_renamed s h t.iteration t.stop

theorem after_renamed {α : Type} (s : State) (r : Attempt α) {next next' : α → Effect}
    (hnext : ∀ a, next' a = (next a).mapState (State.renamed σ found)) :
    (s.renamed σ found).after r next' = (s.after r next).mapState (State.renamed σ found) :=
  after_mapState s r hnext

/-! ## Blocks -/

theorem executeBlock_graph (hg : Renamed σ g g') (hn : n.Renamed σ n') (s : State) :
    executeBlock g' s n' = executeBlock g s n := by
  unfold executeBlock
  rw [hn.fields]
  simp only [operand_renamed hg hn, arrayIndex_renamed hg hn, outputText_renamed hg hn,
    hn.id, hn.type]

theorem executeBlock_renamed (hg : Renamed σ g g') (hn : n.Renamed σ n') (s : State) :
    executeBlock g' (s.renamed σ found) n' =
      (executeBlock g s n).mapState (State.renamed σ found) := by
  have hrenamed : Unnoticed (State.renamed σ found) :=
    ⟨fun _ => rfl, fun _ _ => rfl, fun _ _ => rfl⟩
  rw [executeBlock_graph hg hn]
  exact executeBlock_unnoticed hrenamed g s n

theorem enterLoop_renamed (hn : n.Renamed σ n') (s : State) (t : Task) :
    enterLoop (s.renamed σ found) n' (t.renamed σ) =
      (enterLoop s n t).mapState (State.renamed σ found) := by
  unfold enterLoop
  rw [hn.fields, hn.id]
  split
  · let opened : State := { s with scopes := s.scopes.push s!"for {n.id}" }
    exact after_renamed (opened.unwind s.scopes.depth) _ fun scopes => rfl
  · rfl

theorem checkLoop_renamed (hp : p.Renamed σ p') (s : State) (t : Task) :
    checkLoop p' (s.renamed σ found) (t.renamed σ) =
      (checkLoop p s t).mapState (State.renamed σ found) := by
  refine hp.graph.bind_node t.node fun n n' hn => ?_
  simp only [hp.limits, hn.fields, State.renamed_scopes, condition_renamed hp.graph hn, hn.onTrue,
    hn.onFalse]
  by_cases hlimit : p.limits.maxIterations < t.iteration
  · rw [if_pos hlimit]
    exact if_pos hlimit
  · rw [if_neg hlimit]
    refine (if_neg hlimit).trans ?_
    split
    · refine after_renamed (s.unwind t.depth) _ fun holds => ?_
      cases holds with
      | true =>
        let again : State := s.schedule { t with activity := .step }
        exact congrArg State.done (visitNext_renamed again n.onTrue (t.iteration + 1) t.stop)
      | false => exact congrArg State.done (follow_renamed (s.unwind t.depth) n.onFalse t)
    · rfl

theorem stepLoop_renamed (hp : p.Renamed σ p') (s : State) (t : Task) :
    stepLoop p' (s.renamed σ found) (t.renamed σ) =
      (stepLoop p s t).mapState (State.renamed σ found) := by
  refine hp.graph.bind_node t.node fun n n' hn => ?_
  rw [hn.fields]
  split
  · exact after_renamed (s.unwind t.depth) _ fun scopes => rfl
  · rfl

theorem call_renamed (hp : p.Renamed σ p') (hn : n.Renamed σ n') (s : State) (t : Task) :
    call p' (s.renamed σ found) n' (t.renamed σ) =
      (call p s n t).mapState (State.renamed σ found) := by
  unfold call
  rw [hn.fields]
  split
  · rename_i name _
    rw [hp.limits, hp.functions, State.renamed_calls]
    split_ifs
    · rfl
    · rfl
    · rfl
    · cases p.functions.get? name with
      | none => rfl
      | some f =>
        refine hp.graph.bind_node f.start fun first first' hfirst => ?_
        let entered : State := { s with calls := name :: s.calls, scopes := s.scopes.push name }
        let ret : Task := { t with activity := .leave, depth := s.scopes.depth }
        rw [hfirst.next]
        exact congrArg State.done
          (visitNext_renamed (entered.schedule ret) first.next 0 (some f.stop))
  · rfl

theorem leaveCall_renamed (hp : p.Renamed σ p') (s : State) (t : Task) :
    leaveCall p' (s.renamed σ found) (t.renamed σ) =
      (leaveCall p s t).map (State.renamed σ found) := by
  refine hp.graph.bind_node t.node fun n n' hn => ?_
  let left : State := { s.unwind t.depth with calls := s.calls.tail }
  rw [hn.next]
  exact congrArg Except.ok (follow_renamed left n.next t)

theorem branchOn_renamed (hg : Renamed σ p.graph p'.graph) (hn : n.Renamed σ n') (s : State)
    {decide decide' : Bool → State}
    (hdecide : ∀ holds, decide' holds = (decide holds).renamed σ found) :
    branchOn p' (s.renamed σ found) n' decide' =
      (branchOn p s n decide).mapState (State.renamed σ found) := by
  unfold branchOn
  rw [hn.fields, State.renamed_scopes]
  split
  · rw [condition_renamed hg hn]
    exact after_renamed s _ fun holds => congrArg State.done (hdecide holds)
  · rfl

theorem plain_renamed (hg : Renamed σ g g') (hn : n.Renamed σ n') (s : State) (t : Task) :
    (do match ← executeBlock g' (s.renamed σ found) n' with
      | (s', none) => (s'.follow (n.next.map σ) (t.renamed σ)).done
      | failed => .ok failed) =
    Effect.mapState (State.renamed σ found) (do match ← executeBlock g s n with
      | (s', none) => (s'.follow n.next t).done
      | failed => .ok failed) := by
  rw [executeBlock_renamed hg hn]
  rcases executeBlock g s n with c | ⟨s', _ | f⟩
  · rfl
  · exact congrArg State.done (follow_renamed s' n.next t)
  · rfl

theorem visit_renamed (hp : p.Renamed σ p') (s : State) (t : Task) :
    visit p' (s.renamed σ found) (t.renamed σ) =
      (visit p s t).mapState (State.renamed σ found) := by
  refine hp.graph.bind_node t.node fun n n' hn => ?_
  have hfollow : ∀ (s : State) (h : Option Handle),
      ((s.renamed σ found).follow (h.map σ) (t.renamed σ)).done =
      (s.follow h t).done.mapState (State.renamed σ found) :=
    fun s h => congrArg State.done (follow_renamed s h t)
  -- The end of a function body is told by its handle, so no two handles may become one.
  have hstop : some (t.renamed σ).node = (t.renamed σ).stop ↔ some t.node = t.stop := by
    change Option.map σ (some t.node) = Option.map σ t.stop ↔ _
    rw [(Option.map_injective hp.graph.injective).eq_iff]
  rw [hp.limits]
  by_cases hlimit : p.limits.maxIterations < t.iteration
  · rw [if_pos hlimit]
    exact if_pos hlimit
  · rw [if_neg hlimit]
    refine (if_neg hlimit).trans ?_
    by_cases hend : some t.node = t.stop
    · rw [if_pos hend, if_pos (hstop.mpr hend)]
      rfl
    · rw [if_neg hend, if_neg (mt hstop.mp hend), hn.kind, hn.next, hn.onTrue, hn.onFalse, hn.type]
      cases n.kind
      case start | functionStart | functionEnd | arithmetic | arrayElement => exact hfollow s n.next
      case stop => rfl
      case declaration | assignment | output | arrayDeclaration | arrayAssignment =>
        exact plain_renamed hp.graph hn s t
      case branch =>
        refine branchOn_renamed hp.graph hn s fun holds => ?_
        cases holds with
        | true => exact follow_renamed s n.onTrue t
        | false => exact follow_renamed s n.onFalse t
      case whileLoop =>
        refine branchOn_renamed hp.graph hn s fun holds => ?_
        cases holds with
        | true => cases n.onTrue <;> rfl
        | false => exact follow_renamed s n.onFalse t
      case forLoop => exact enterLoop_renamed hn s t
      case functionCall => exact call_renamed hp hn s t
      case unknown => rfl

/-! ## Steps -/

theorem innermostCall_renamed (ts : List Task) :
    innermostCall (ts.map (Task.renamed σ)) =
      (innermostCall ts).map fun r => (r.1.renamed σ, r.2.map (Task.renamed σ)) := by
  induction ts with
  | nil => rfl
  | cons t rest ih =>
    rw [List.map_cons, innermostCall, innermostCall, ih]
    change (if t.activity = .leave then _ else _) = _
    split_ifs <;> rfl

/-- The state in which a failure has been recorded. -/
def State.blaming (p : Program) (s : State) (t : Task) (f : Failure) : State :=
  let f := match p.graph.node? t.node with
    | some n => f.atBlock n.id
    | none => f
  { s with failures := s.failures.push f }

/-- Goes on behind the innermost call, or ends the run. -/
def State.fallBack (p : Program) (s : State) : Except Crash State :=
  match innermostCall s.tasks with
  | some (ret, rest) => leaveCall p { s with tasks := rest } ret
  | none => .ok ({ s with tasks := [] }.unwind 1)

theorem abandon_eq (p : Program) (s : State) (t : Task) (f : Failure) :
    s.abandon p t f = (s.blaming p t f).fallBack p := rfl

theorem blaming_renamed (hg : Renamed σ p.graph p'.graph) (s : State) (t : Task) (f : Failure) :
    (s.renamed σ found).blaming p' (t.renamed σ) f = (s.blaming p t f).renamed σ found := by
  unfold State.blaming
  change State.mk _ _ _ _ _ = State.renamed σ found (State.mk _ _ _ _ _)
  have hid : (match p'.graph.node? (t.renamed σ).node with | some n => f.atBlock n.id | none => f) =
      match p.graph.node? t.node with | some n => f.atBlock n.id | none => f := by
    rcases hg.node?_cases t.node with ⟨hn, hn'⟩ | ⟨n, n', hn, hn', hrenamed⟩
    · simp only [Task.renamed, hn, hn']
    · simp only [Task.renamed, hn, hn', hrenamed.id]
  rw [hid]
  simp [State.renamed]

theorem fallBack_renamed (hp : p.Renamed σ p') (s : State) :
    (s.renamed σ found).fallBack p' = (s.fallBack p).map (State.renamed σ found) := by
  unfold State.fallBack
  have htasks : (s.renamed σ found).tasks = s.tasks.map (Task.renamed σ) := rfl
  rw [htasks, innermostCall_renamed]
  rcases innermostCall s.tasks with _ | ⟨ret, rest⟩
  · rfl
  · exact leaveCall_renamed hp { s with tasks := rest } ret

theorem abandon_renamed (hp : p.Renamed σ p') (s : State) (t : Task) (f : Failure) :
    (s.renamed σ found).abandon p' (t.renamed σ) f =
      (s.abandon p t f).map (State.renamed σ found) := by
  rw [abandon_eq, abandon_eq, blaming_renamed hp.graph, fallBack_renamed hp]

theorem perform_renamed (hp : p.Renamed σ p') (s : State) (t : Task) :
    perform p' (s.renamed σ found) (t.renamed σ) =
      (perform p s t).mapState (State.renamed σ found) := by
  have hactivity : (t.renamed σ).activity = t.activity := rfl
  unfold perform
  rw [hactivity]
  cases t.activity with
  | visit => exact visit_renamed hp s t
  | check => exact checkLoop_renamed hp s t
  | step => exact stepLoop_renamed hp s t
  | leave =>
    simp only [leaveCall_renamed hp]
    cases leaveCall p s t <;> rfl

theorem step_renamed (hp : p.Renamed σ p') (s : State) :
    step p' (s.renamed σ found) = (step p s).map (Option.map (State.renamed σ found)) := by
  obtain ⟨tasks, scopes, calls, output, failures⟩ := s
  cases tasks with
  | nil => rfl
  | cons t rest =>
    let popped : State := ⟨rest, scopes, calls, output, failures⟩
    have hperform : perform p' (popped.renamed σ found) (t.renamed σ) = _ :=
      perform_renamed hp popped t
    simp only [step, State.renamed, List.map_cons, popped] at hperform ⊢
    rw [hperform]
    rcases perform p ⟨rest, scopes, calls, output, failures⟩ t with c | ⟨s', _ | f⟩
    · rfl
    · rfl
    · refine (congrArg (Except.map some) (abandon_renamed hp s' t f)).trans ?_
      cases hs : s'.abandon p t f <;> simp [hs, Except.map, bind, Except.bind, pure, Except.pure]

theorem steps_renamed (hp : p.Renamed σ p') (fuel : Nat) (s : State) :
    steps p' fuel (s.renamed σ found) =
      (steps p fuel s).map (Option.map (State.renamed σ found)) := by
  induction fuel generalizing s with
  | zero => rfl
  | succ fuel ih =>
    unfold steps
    rw [step_renamed hp]
    rcases step p s with c | _ | s'
    · rfl
    · rfl
    · exact ih s'

/-! ## Records in any order -/

/-- The failures that are reported before a run. -/
def discoveries (g : Graph) : List Failure :=
  match g.start, Functions.ofGraph g with
  | some _, .ok fs => fs.failures
  | _, _ => []

/-- Two runs that end in the same way, where `found` and `found'` were reported before them. Only
the order in which the functions were found may differ. -/
inductive SameOutcome (found found' : List Failure) : Run → Run → Prop
  | finished (r r' : Result) (later : List Failure) (hfailures : r.failures = found ++ later)
      (hfailures' : r'.failures = found' ++ later) (hsuccess : r'.success = r.success)
      (hvars : r'.vars = r.vars) (harrays : r'.arrays = r.arrays) (houtput : r'.output = r.output)
      (hfunctions : r.functions.Perm r'.functions) :
      SameOutcome found found' (.finished r) (.finished r')
  | crashed (c : Crash) : SameOutcome found found' (.crashed c) (.crashed c)
  | unfinished : SameOutcome found found' .unfinished .unfinished

theorem initial_renamed (σ : Handle → Handle) (start : Handle) (found : List Failure) :
    (State.initial start []).renamed σ found = .initial (σ start) found := by
  simp [State.renamed, State.initial, Task.renamed]

/-- The run of a program without a start block. -/
def unstarted (mark : String) : Run :=
  .finished { failures := [{ cause := .graph .startNotFound }], fingerprint := mark }

theorem execute_of_no_start {i : Interpreter} {records : List Record} (hb : build records = .ok g)
    (hstart : g.start = none) : i.execute records = unstarted (fingerprint records) := by
  simp [unstarted, Interpreter.execute, hb, Interpreter.runGraph, hstart]

theorem sameOutcome_unstarted (mark mark' : String) :
    SameOutcome [] [] (unstarted mark) (unstarted mark') :=
  .finished _ _ [{ cause := .graph .startNotFound }] rfl rfl rfl rfl rfl rfl (.refl _)

/-- How a run ends whose steps, without failures that were reported before, lead to `r`. -/
def ending (σ : Handle → Handle) (fs : Functions) (mark : String)
    (r : Except Crash (Option State)) : Run :=
  match r with
  | .ok (some s) => .finished { resultOf fs (s.renamed σ fs.failures) with fingerprint := mark }
  | .ok none => .unfinished
  | .error c => .crashed c

theorem execute_renamed {i : Interpreter} {records : List Record} {start : Handle} {fs : Functions}
    (hb : build records = .ok g) (hstart : g.start = some (σ start))
    (hfs : Functions.ofGraph g = .ok fs) (hp : p.Renamed σ ⟨g, fs.table, i.limits⟩) :
    i.execute records = ending σ fs (fingerprint records) (steps p i.fuel (.initial start [])) := by
  have hsteps :
      steps ⟨g, fs.table, i.limits⟩ i.fuel ((State.initial start []).renamed σ fs.failures) = _ :=
    steps_renamed hp i.fuel (.initial start [])
  rw [initial_renamed] at hsteps
  rw [execute_of_steps hb hstart hfs, hsteps]
  rcases steps p i.fuel (.initial start []) with c | _ | s <;> rfl

theorem sameOutcome_ending {fs fs' : Functions} (hfs : fs.Renamed σ fs') (mark mark' : String)
    (r : Except Crash (Option State)) :
    SameOutcome fs.failures fs'.failures (ending id fs mark r) (ending σ fs' mark' r) := by
  rcases r with c | _ | s
  · exact .crashed c
  · exact .unfinished
  · refine .finished _ _ s.failures.toList ?_ ?_ ?_ rfl rfl rfl hfs.keys
    · simp [resultOf, State.renamed]
    · simp [resultOf, State.renamed]
    · simp only [Result.success, resultOf, State.renamed, Array.toList_append]
      exact (hfs.failures.symm.append_right s.failures.toList).isEmpty_eq

/-- Neither the order of records nor their links back nor the texts for a palette have an
influence on a run. The functions that are found, and what is reported about them before the run,
come in another order. -/
theorem order_has_no_influence {records records' : List Record} (hb : build records = .ok g)
    (hnames : (records.filterMap Record.functionName?).Nodup) (h : Reordered records records') :
    ∃ g', build records' = .ok g' ∧ (discoveries g).Perm (discoveries g') ∧
      ∀ i : Interpreter, SameOutcome (discoveries g) (discoveries g') (i.execute records)
      (i.execute records') := by
  obtain ⟨g', hb'⟩ := h.build hb
  have hg := renamed_of_reordered hb hb' h
  obtain ⟨fs, fs', hofGraph, hofGraph', hfs⟩ := Functions.renamed_of_reordered h hb hb' hnames
  refine ⟨g', hb', ?_⟩
  cases hstart : g.start with
  | none =>
    have hstart' : g'.start = none := by rw [hg.start, hstart, Option.map_none]
    have hfound : discoveries g = [] := by simp [discoveries, hstart]
    have hfound' : discoveries g' = [] := by simp [discoveries, hstart']
    rw [hfound, hfound']
    refine ⟨.refl _, fun i => ?_⟩
    rw [execute_of_no_start hb hstart, execute_of_no_start hb' hstart']
    exact sameOutcome_unstarted _ _
  | some start =>
    have hstart' : g'.start = some (rename g g' start) := by rw [hg.start, hstart, Option.map_some]
    have hfound : discoveries g = fs.failures := by simp [discoveries, hstart, hofGraph]
    have hfound' : discoveries g' = fs'.failures := by simp [discoveries, hstart', hofGraph']
    rw [hfound, hfound']
    refine ⟨hfs.failures, fun i => ?_⟩
    have hself := Program.renamed_refl ⟨g, fs.table, i.limits⟩
    have hother : Program.Renamed (rename g g') ⟨g, fs.table, i.limits⟩ ⟨g', fs'.table, i.limits⟩ :=
      ⟨hg, hfs.get?, rfl⟩
    rw [execute_renamed hb hstart hofGraph hself, execute_renamed hb' hstart' hofGraph' hother]
    exact sameOutcome_ending hfs _ _ _

/-- A program that calls a function with an end and one without; a third has no name. -/
def unendedCallee : List Record :=
  [{ id := "start", type := "start", next := "callF" },
   { id := "callF", type := "functionCall", next := "callG", data := { functionName := "f" } },
   { id := "callG", type := "functionCall", data := { functionName := "g" } },
   { id := "f", type := "functionStart", next := "out", data := { functionName := "f" } },
   { id := "out", type := "output", next := "endF", data := { expression := "in f" } },
   { id := "endF", type := "functionEnd" },
   { id := "g", type := "functionStart", data := { functionName := " g " } },
   { id := "h", type := "functionStart" }]

/-- The same program from the last record to the first, with titles and links back. -/
def unendedCalleeReversed : List Record :=
  (unendedCallee.map fun r => { r with title := r.type, previous := r.next }).reverse

theorem order_has_no_influence_unendedCallee :
    ∃ g g', build unendedCallee = .ok g ∧ build unendedCalleeReversed = .ok g' ∧
      (discoveries g).map (·.node) = ["g", "h"] ∧ (discoveries g').map (·.node) = ["h", "g"] ∧
      (discoveries g).Perm (discoveries g') ∧
      ∀ i : Interpreter, SameOutcome (discoveries g) (discoveries g') (i.execute unendedCallee)
        (i.execute unendedCalleeReversed) := by
  obtain ⟨g, hb, hfound⟩ : ∃ g, build unendedCallee = .ok g ∧ (discoveries g).map (·.node) =
    ["g", "h"] := ⟨_, rfl, rfl⟩
  obtain ⟨g', hb', hfound'⟩ : ∃ g', build unendedCalleeReversed = .ok g' ∧
      (discoveries g').map (·.node) = ["h", "g"] := ⟨_, rfl, rfl⟩
  have hnames : (unendedCallee.filterMap Record.functionName?).Nodup := by decide
  have hreordered : Reordered unendedCallee unendedCalleeReversed := by
    rw [Reordered, unendedCalleeReversed, List.map_reverse, List.map_map]
    exact (List.reverse_perm _).symm
  obtain ⟨x, hx, hperm, hsame⟩ := order_has_no_influence hb hnames hreordered
  obtain rfl : g' = x := by simpa [hb'] using hx
  exact ⟨g, g', hb, hb', hfound, hfound', hperm, hsame⟩

end Flowchart.Machine
