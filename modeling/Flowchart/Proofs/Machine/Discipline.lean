import Flowchart.Proofs.Machine.Steps

/-!
# Scopes and calls follow the tasks

The tasks of a state say which scopes are open and which calls are active: every pending
task of a loop and every pending return stands for one scope, and every pending return for
one call. A failure drops tasks without carrying them out, and still leaves no scope and
no call behind.
-/

namespace Flowchart.Machine

/-! ## The invariant -/

/-- The pending tests and steps of loops, and the pending returns from calls. -/
def scopeTasks (ts : List Task) : List Task := ts.filter (·.activity ≠ .visit)

def returnTasks (ts : List Task) : List Task := ts.filter (·.activity = .leave)

/-- Counted from the bottom, the i-th task goes back to depth i. -/
def CountedUp (ts : List Task) : Prop := ts.reverse.map (·.depth) = List.range' 1 ts.length

/-- `t` returns from a call of the function `name`. -/
def ReturnsFrom (g : Graph) (t : Task) (name : String) : Prop :=
  ∃ n, g.node t.node = .ok n ∧ n.fields = .function name

structure Disciplined (p : Program) (s : State) : Prop where
  memory : s.scopes.WellFormed
  bottom : (s.scopes.frames.map Scope.Frame.label).getLast? = some ("global", 0)
  depth : s.scopes.depth = 1 + (scopeTasks s.tasks).length
  depths : CountedUp (scopeTasks s.tasks)
  calls : List.Forall₂ (ReturnsFrom p.graph) (returnTasks s.tasks) s.calls
  distinct : s.calls.Nodup
  bounded : s.calls.length ≤ p.limits.maxCallDepth

/-! ## Lists of tasks -/

theorem scopeTasks_cons_of_visit {t : Task} (ts : List Task) (h : t.activity = .visit) :
    scopeTasks (t :: ts) = scopeTasks ts := by simp [scopeTasks, h]

theorem scopeTasks_cons_of_ne {t : Task} (ts : List Task) (h : t.activity ≠ .visit) :
    scopeTasks (t :: ts) = t :: scopeTasks ts := by simp [scopeTasks, h]

theorem scopeTasks_append (ts us : List Task) :
    scopeTasks (ts ++ us) = scopeTasks ts ++ scopeTasks us :=
  List.filter_append ..

theorem scopeTasks_visits {vs : List Task} (h : ∀ v ∈ vs, v.activity = .visit) :
    scopeTasks vs = [] := by
  simpa [scopeTasks] using h

theorem returnTasks_cons_of_ne {t : Task} (ts : List Task) (h : t.activity ≠ .leave) :
    returnTasks (t :: ts) = returnTasks ts := by simp [returnTasks, h]

theorem returnTasks_cons_of_visit {t : Task} (ts : List Task) (h : t.activity = .visit) :
    returnTasks (t :: ts) = returnTasks ts := by simp [returnTasks, h]

theorem returnTasks_cons_of_leave {t : Task} (ts : List Task) (h : t.activity = .leave) :
    returnTasks (t :: ts) = t :: returnTasks ts := by simp [returnTasks, h]

theorem returnTasks_append (ts us : List Task) :
    returnTasks (ts ++ us) = returnTasks ts ++ returnTasks us :=
  List.filter_append ..

theorem returnTasks_visits {vs : List Task} (h : ∀ v ∈ vs, v.activity = .visit) :
    returnTasks vs = [] := by
  simp only [returnTasks, List.filter_eq_nil_iff, decide_eq_true_eq]
  intro v hv hleave
  rw [h v hv] at hleave
  cases hleave

theorem countedUp_cons (t : Task) (ts : List Task) :
    CountedUp (t :: ts) ↔ CountedUp ts ∧ t.depth = 1 + ts.length := by
  simp only [CountedUp, List.reverse_cons, List.map_append, List.map_cons, List.map_nil,
    List.length_cons, List.range'_1_concat]
  constructor
  · intro h
    have hlen : (ts.reverse.map (·.depth)).length = (List.range' 1 ts.length).length := by simp
    obtain ⟨h1, h2⟩ := List.append_inj h hlen
    exact ⟨h1, by simpa using h2⟩
  · rintro ⟨h1, h2⟩
    rw [h1, h2]

theorem CountedUp.of_append {ts us : List Task} (h : CountedUp (ts ++ us)) : CountedUp us := by
  induction ts with
  | nil => exact h
  | cons t ts ih => exact ih ((countedUp_cons t (ts ++ us)).mp h).1

theorem countedUp_congr {ts us : List Task} (h : us.map (·.depth) = ts.map (·.depth))
    (ht : CountedUp ts) :
    CountedUp us := by
  have hlen : us.length = ts.length := by simpa using congrArg List.length h
  rw [CountedUp, List.map_reverse] at ht ⊢
  rw [h, ht, hlen]

/-! ## Three ways to keep the invariant -/

namespace Disciplined

variable {p : Program} {s s' : State}

theorem kept (h : Disciplined p s)
    (hscoped : (scopeTasks s'.tasks).map (·.depth) = (scopeTasks s.tasks).map (·.depth))
    (hreturns : returnTasks s'.tasks = returnTasks s.tasks) (hcalls : s'.calls = s.calls)
    (hframes : Scope.Refilled s.scopes.frames s'.scopes.frames) : Disciplined p s' where
  memory := h.memory.refilled hframes
  bottom := by rw [hframes.1]; exact h.bottom
  depth := by
    have hlen : (scopeTasks s'.tasks).length = (scopeTasks s.tasks).length := by
      simpa using congrArg List.length hscoped
    rw [Scopes.depth_of_refilled hframes, h.depth, hlen]
  depths := countedUp_congr hscoped h.depths
  calls := by rw [hreturns, hcalls]; exact h.calls
  distinct := by rw [hcalls]; exact h.distinct
  bounded := by rw [hcalls]; exact h.bounded

theorem opened (h : Disciplined p s) {c : Task} {name : String}
    (hscoped : scopeTasks s'.tasks = c :: scopeTasks s.tasks) (hc : c.depth = s.scopes.depth)
    (hframes : Scope.Refilled (s.scopes.push name).frames s'.scopes.frames)
    (hcalls : List.Forall₂ (ReturnsFrom p.graph) (returnTasks s'.tasks) s'.calls)
    (hdistinct : s'.calls.Nodup) (hbounded : s'.calls.length ≤ p.limits.maxCallDepth) :
    Disciplined p s' where
  memory := (h.memory.push name).refilled hframes
  bottom := by
    rw [hframes.1]
    simp only [Scopes.push, Scope.Frames.push, List.map_cons]
    rw [List.getLast?_cons, h.bottom]
    rfl
  depth := by
    rw [Scopes.depth_of_refilled hframes, Scopes.depth_push, h.depth, hscoped, List.length_cons]
    omega
  depths := by
    rw [hscoped, countedUp_cons, hc]
    exact ⟨h.depths, h.depth⟩
  calls := hcalls
  distinct := hdistinct
  bounded := hbounded

theorem closed (h : Disciplined p s) (above : List Task)
    (hscoped : scopeTasks s.tasks = above ++ scopeTasks s'.tasks)
    (hscopes : s'.scopes = s.scopes.unwind (1 + (scopeTasks s'.tasks).length : Nat))
    (hcalls : List.Forall₂ (ReturnsFrom p.graph) (returnTasks s'.tasks) s'.calls)
    (hdistinct : s'.calls.Nodup) (hbounded : s'.calls.length ≤ p.limits.maxCallDepth) :
    Disciplined p s' where
  memory := by
    rw [hscopes]
    exact h.memory.unwind (by omega)
  bottom := by
    have hlen : 0 < s.scopes.frames.length := List.length_pos_iff.mpr h.memory.nonempty
    rw [hscopes, h.memory.unwind_frames (by omega), List.map_drop, List.getLast?_drop,
      if_neg (by simp only [List.length_map]; omega)]
    exact h.bottom
  depth := by
    rw [hscopes]
    refine h.memory.unwind_depth (by omega) ?_
    rw [h.depth, hscoped, List.length_append]
    omega
  depths := (hscoped ▸ h.depths).of_append
  calls := hcalls
  distinct := hdistinct
  bounded := hbounded

/-- A return gives up its scope and its call, and all scopes opened above it. -/
theorem leave (h : Disciplined p s) (above : List Task) {below : List Task} {ret : Task}
    (ht : s.tasks = above ++ ret :: below) (habove : returnTasks above = [])
    (hret : ret.activity = .leave) (hleave : leaveCall p { s with tasks := below } ret = .ok s') :
    Disciplined p s' := by
  have hne : ret.activity ≠ .visit := by rw [hret]; decide
  have hscoped : scopeTasks s.tasks = scopeTasks above ++ ret :: scopeTasks below := by
    rw [ht, scopeTasks_append, scopeTasks_cons_of_ne below hne]
  have hdepth : ret.depth = 1 + (scopeTasks below).length := by
    have := (hscoped ▸ h.depths).of_append
    exact ((countedUp_cons ret _).mp this).2
  have hcalls := h.calls
  rw [ht, returnTasks_append, habove, returnTasks_cons_of_leave below hret,
    List.nil_append] at hcalls
  obtain ⟨n, -, hleave⟩ := bind_eq_ok hleave
  rw [follow_eq] at hleave
  have hvs : ∀ v ∈ visits n.next ret.iteration ret.stop, v.activity = .visit :=
    fun v hv => activity_of_mem_visits hv
  cases hc : s.calls with
  | nil =>
    rw [hc] at hcalls
    cases hcalls
  | cons name calls =>
    rw [hc] at hcalls
    have hdistinct := h.distinct
    have hbounded := h.bounded
    rw [hc] at hdistinct hbounded
    cases hleave
    refine h.closed (scopeTasks above ++ [ret]) ?_ ?_ ?_ ?_ ?_
    · simp only [State.unwind, scopeTasks_append, scopeTasks_visits hvs, hscoped, List.nil_append,
        List.append_assoc, List.singleton_append]
    · simp only [State.unwind, scopeTasks_append, scopeTasks_visits hvs, List.nil_append, hdepth]
    · simp only [State.unwind, returnTasks_append, returnTasks_visits hvs, List.nil_append, hc,
        List.tail_cons]
      exact (List.forall₂_cons.mp hcalls).2
    · simp only [hc, List.tail_cons]
      exact (List.nodup_cons.mp hdistinct).2
    · simp only [hc, List.tail_cons]
      exact Nat.le_of_succ_le hbounded

end Disciplined

/-! ## What one step keeps -/

theorem performed_disciplined {p : Program} {s s' : State} {t : Task} {rest : List Task}
    {f : Option Failure} (h : Disciplined p s) (ht : s.tasks = t :: rest)
    (hp : Performed p t { s with tasks := rest } s' f) : Disciplined p s' := by
  cases hp with
  | visited vs hvisit hvs htasks hcalls hframes =>
    refine h.kept ?_ ?_ hcalls hframes
    · rw [htasks, scopeTasks_append, scopeTasks_visits hvs, ht,
        scopeTasks_cons_of_visit rest hvisit]
      rfl
    · rw [htasks, returnTasks_append, returnTasks_visits hvs, ht,
        returnTasks_cons_of_visit rest hvisit]
      rfl
  | failed f hvisit hs =>
    refine h.kept ?_ ?_ hs.calls hs.frames
    · rw [hs.tasks, ht, scopeTasks_cons_of_visit rest hvisit]
    · rw [hs.tasks, ht, returnTasks_cons_of_visit rest hvisit]
  | entered name hvisit htasks hcalls hframes =>
    refine h.opened (c := { t with activity := .check, depth := s.scopes.depth }) ?_ rfl
      hframes ?_ ?_ ?_
    · rw [htasks, scopeTasks_cons_of_ne _ (by simp), ht, scopeTasks_cons_of_visit rest hvisit]
    · rw [htasks, returnTasks_cons_of_ne _ (by simp), hcalls]
      have hc := h.calls
      rwa [ht, returnTasks_cons_of_visit rest hvisit] at hc
    · rw [hcalls]; exact h.distinct
    · rw [hcalls]; exact h.bounded
  | repeated vs hcheck hvs htasks hcalls hscopes =>
    refine h.kept ?_ ?_ hcalls (by rw [hscopes]; exact Scope.refilled_refl _)
    · rw [htasks, scopeTasks_append, scopeTasks_visits hvs, scopeTasks_cons_of_ne _ (by simp), ht,
        scopeTasks_cons_of_ne rest (by simp [hcheck])]
      rfl
    · rw [htasks, returnTasks_append, returnTasks_visits hvs,
        returnTasks_cons_of_ne _ (by simp), ht, returnTasks_cons_of_ne rest (by simp [hcheck])]
      rfl
  | advanced hstep htasks hcalls hframes =>
    refine h.kept ?_ ?_ hcalls hframes
    · rw [htasks, scopeTasks_cons_of_ne _ (by simp), ht,
        scopeTasks_cons_of_ne rest (by simp [hstep])]
      rfl
    · rw [htasks, returnTasks_cons_of_ne _ (by simp), ht,
        returnTasks_cons_of_ne rest (by simp [hstep])]
  | closed f vs hloop hvs htasks hcalls hscopes =>
    have hne : t.activity ≠ .visit := by rcases hloop with hl | hl <;> rw [hl] <;> decide
    have hnl : t.activity ≠ .leave := by rcases hloop with hl | hl <;> rw [hl] <;> decide
    have hscoped : scopeTasks s'.tasks = scopeTasks rest := by
      rw [htasks, scopeTasks_append, scopeTasks_visits hvs]
      rfl
    have hdepths := h.depths
    rw [ht, scopeTasks_cons_of_ne rest hne, countedUp_cons] at hdepths
    refine h.closed [t] ?_ ?_ ?_ ?_ ?_
    · rw [hscoped, ht, scopeTasks_cons_of_ne rest hne]
      rfl
    · rw [hscopes, hscoped, hdepths.2]
    · have hc := h.calls
      rw [ht, returnTasks_cons_of_ne rest hnl] at hc
      rwa [htasks, returnTasks_append, returnTasks_visits hvs, hcalls]
    · rw [hcalls]; exact h.distinct
    · rw [hcalls]; exact h.bounded
  | called n name vs hvisit hn hname hnew hroom hvs htasks hcalls hscopes =>
    have hc := h.calls
    rw [ht, returnTasks_cons_of_visit rest hvisit] at hc
    refine h.opened (c := { t with activity := .leave, depth := s.scopes.depth }) ?_ rfl
      (by rw [hscopes]; exact Scope.refilled_refl _) ?_ ?_ ?_
    · rw [htasks, scopeTasks_append, scopeTasks_visits hvs, scopeTasks_cons_of_ne _ (by simp), ht,
        scopeTasks_cons_of_visit rest hvisit]
      rfl
    · rw [htasks, returnTasks_append, returnTasks_visits hvs,
        returnTasks_cons_of_leave _ rfl, hcalls]
      exact .cons ⟨n, hn, hname⟩ hc
    · rw [hcalls]; exact List.nodup_cons.mpr ⟨hnew, h.distinct⟩
    · rw [hcalls]; exact hroom
  | left hleave hl => exact h.leave [] ht rfl hleave hl

theorem innermostCall_some {ts below : List Task} {ret : Task}
    (h : innermostCall ts = some (ret, below)) :
    ∃ above, ts = above ++ ret :: below ∧ returnTasks above = [] ∧ ret.activity = .leave := by
  induction ts with
  | nil => simp [innermostCall] at h
  | cons t rest ih =>
    unfold innermostCall at h
    split_ifs at h with ht
    · cases h
      exact ⟨[], rfl, rfl, ht⟩
    · obtain ⟨above, rfl, habove, hret⟩ := ih h
      exact ⟨t :: above, rfl, by rw [returnTasks_cons_of_ne above ht, habove], hret⟩

theorem innermostCall_none {ts : List Task} (h : innermostCall ts = none) :
    returnTasks ts = [] := by
  induction ts with
  | nil => rfl
  | cons t rest ih =>
    unfold innermostCall at h
    split_ifs at h with ht
    rw [returnTasks_cons_of_ne rest ht, ih h]

/-- A failure drops tasks unseen, yet the scopes and calls they stand for are given up. -/
theorem abandon_disciplined {p : Program} {s s' : State} {t : Task} {f : Failure}
    (h : Disciplined p s) (ha : s.abandon p t f = .ok s') : Disciplined p s' := by
  have hrecorded : ∀ failures, Disciplined p { s with failures } :=
    fun failures => h.kept rfl rfl rfl (Scope.refilled_refl _)
  unfold State.abandon at ha
  simp only at ha
  generalize s.failures.push _ = failures at ha
  split at ha
  · rename_i ret below hin
    obtain ⟨above, ht, habove, hret⟩ := innermostCall_some hin
    exact (hrecorded failures).leave above ht habove hret ha
  · rename_i hin
    have hreturns : returnTasks s.tasks = [] := innermostCall_none hin
    have hcalls : s.calls = [] := by
      have := h.calls
      rwa [hreturns, List.forall₂_nil_left_iff] at this
    cases ha
    refine h.closed (scopeTasks s.tasks) (by simp [State.unwind, scopeTasks]) rfl ?_ ?_ ?_
    · simp [State.unwind, returnTasks, hcalls]
    · exact h.distinct
    · exact h.bounded

theorem next_disciplined {p : Program} {s s' : State} (hnext : Next p s s') (h : Disciplined p s) :
    Disciplined p s' := by
  obtain ⟨t, rest, s1, f, ht, hperform, hend⟩ := next_cases hnext
  have h1 : Disciplined p s1 := performed_disciplined h ht (perform_performed h.memory hperform)
  cases f with
  | none => rwa [hend]
  | some f => exact abandon_disciplined h1 hend

/-! ## Whole runs -/

theorem initial_disciplined (p : Program) (start : Handle) (failures : List Failure) :
    Disciplined p (.initial start failures) where
  memory := Scopes.wellFormed_initial
  bottom := rfl
  depth := rfl
  depths := rfl
  calls := .nil
  distinct := List.nodup_nil
  bounded := Nat.zero_le _

theorem reaches_disciplined {p : Program} {start : Handle} {failures : List Failure} {s : State}
    (h : Reaches p (.initial start failures) s) : Disciplined p s :=
  h.invariant (initial_disciplined p start failures) fun _ _ => next_disciplined

theorem CountedUp.depth_eq {ts : List Task} (h : CountedUp ts) {i : Nat} {t : Task}
    (ht : ts.reverse[i]? = some t) : t.depth = i + 1 := by
  have hi := congrArg (·[i]?) h
  have hlt : i < ts.length := by simpa using (List.getElem?_eq_some_iff.mp ht).1
  simp only [List.getElem?_map, ht, Option.map_some, List.getElem?_range' hlt,
    Option.some.injEq] at hi
  omega

/-- `s` has the global frame only, and shows nothing else. -/
def OnlyGlobals (s : State) (global : Scope.Frame) : Prop :=
  s.scopes.frames = [global] ∧ global.label = ("global", 0) ∧ s.calls = [] ∧
    s.scopes.vars = .ok global.vars.entries ∧ s.scopes.arrays = .ok global.arrays.entries

theorem Disciplined.onlyGlobals {p : Program} {s : State} (h : Disciplined p s)
    (ht : s.tasks = []) :
    ∃ global, OnlyGlobals s global := by
  have hlen : s.scopes.frames.length = 1 := by
    rw [← h.memory.depth_eq, h.depth, ht]
    rfl
  obtain ⟨f, hf⟩ := List.length_eq_one_iff.mp hlen
  have hwell : f.WellFormed := h.memory.frames f (by rw [hf]; exact List.mem_singleton_self f)
  have hbottom := h.bottom
  have hcalls := h.calls
  rw [hf] at hbottom
  rw [ht] at hcalls
  refine ⟨f, hf, by simpa using hbottom, by simpa [returnTasks] using hcalls, ?_, ?_⟩
  · rw [Scopes.vars, h.memory.snapshot_eq, hf, List.map_singleton,
      Table.layered_singleton hwell.vars]
  · rw [Scopes.arrays, h.memory.snapshot_eq, hf, List.map_singleton,
      Table.layered_singleton hwell.arrays]

theorem runGraph_final {i : Interpreter} {g : Graph} {r : Result}
    (h : i.runGraph g = .ok (some r)) :
    g.start = none ∧ r.vars = [] ∧ r.arrays = [] ∨
      ∃ start functions s, g.start = some start ∧ Functions.ofGraph g = .ok functions ∧
        Reaches ⟨g, functions.table, i.limits⟩ (.initial start functions.failures) s ∧
        s.tasks = [] ∧
        s.scopes.vars = .ok r.vars ∧ s.scopes.arrays = .ok r.arrays := by
  unfold Interpreter.runGraph at h
  split at h
  · rename_i hstart
    cases h
    exact Or.inl ⟨hstart, rfl, rfl⟩
  · rename_i start hstart
    obtain ⟨functions, hfunctions, h⟩ := bind_eq_ok h
    obtain ⟨final, hsteps, h⟩ := bind_eq_ok h
    cases final with
    | none => cases h
    | some s =>
      obtain ⟨hreaches, hdone⟩ := reaches_of_steps hsteps
      obtain ⟨vars, hvars, h⟩ := bind_eq_ok h
      obtain ⟨arrays, harrays, h⟩ := bind_eq_ok h
      cases h
      exact Or.inr ⟨start, functions, s, hstart, hfunctions, hreaches, hdone, hvars, harrays⟩

/-- In every state of a run the open scopes and the active calls are those that the tasks
stand for. So a run, however it ends, leaves the global frame only, and its result shows
nothing else. -/
theorem scopes_follow_tasks :
    (∀ (p : Program) (start : Handle) (failures : List Failure) (s : State),
      Reaches p (.initial start failures) s →
        s.scopes.depth = 1 + (scopeTasks s.tasks).length ∧ s.scopes.frames.length = s.scopes.depth ∧
        (∀ i t, (scopeTasks s.tasks).reverse[i]? = some t → t.depth = i + 1) ∧
        List.Forall₂ (ReturnsFrom p.graph) (returnTasks s.tasks) s.calls ∧
        s.calls.Nodup ∧ s.calls.length ≤ p.limits.maxCallDepth ∧
        (s.tasks = [] → ∃ global, OnlyGlobals s global)) ∧
    ∀ (i : Interpreter) (g : Graph) (r : Result), i.runGraph g = .ok (some r) →
      g.start = none ∧ r.vars = [] ∧ r.arrays = [] ∨
      ∃ start functions s global, g.start = some start ∧ Functions.ofGraph g = .ok functions ∧
        Reaches ⟨g, functions.table, i.limits⟩ (.initial start functions.failures) s ∧
        s.tasks = [] ∧
        OnlyGlobals s global ∧ r.vars = global.vars.entries ∧ r.arrays = global.arrays.entries := by
  constructor
  · intro p start failures s hs
    have h := reaches_disciplined hs
    exact ⟨h.depth, h.memory.depth_eq.symm, fun i t => h.depths.depth_eq, h.calls, h.distinct,
      h.bounded, h.onlyGlobals⟩
  · intro i g r hr
    rcases runGraph_final hr with
      hnone | ⟨start, functions, s, hstart, hfunctions, hs, hdone, hvars, harrays⟩
    · exact Or.inl hnone
    · obtain ⟨global, hglobal⟩ := (reaches_disciplined hs).onlyGlobals hdone
      refine Or.inr ⟨start, functions, s, global, hstart, hfunctions, hs, hdone, hglobal, ?_, ?_⟩
      · exact Except.ok.inj (hvars.symm.trans hglobal.2.2.2.1)
      · exact Except.ok.inj (harrays.symm.trans hglobal.2.2.2.2)

/-- The start block calls a function whose body is a loop. -/
def loopInCall : List Record :=
  [{ id := "start", type := "start", next := "call" },
   { id := "call", type := "functionCall", data := { functionName := "f" } },
   { id := "f", type := "functionStart", next := "loop", data := { functionName := "f" } },
   { id := "loop", type := "for", next := "end" },
   { id := "end", type := "functionEnd" }]

theorem scopes_follow_tasks_in_loopInCall :
    ∃ p s, Loads loopInCall p (.initial 0 []) ∧ Reaches p (.initial 0 []) s ∧ s.calls = ["f"] ∧
      (scopeTasks s.tasks).map (·.activity) = [.check, .leave] ∧
      s.scopes.depth = 1 + (scopeTasks s.tasks).length ∧ s.calls.Nodup := by
  obtain ⟨p, s₀, s, hload, hs, rfl, hcalls, htasks⟩ : ∃ p s₀ s, Loads loopInCall p s₀ ∧
      Reaches p s₀ s ∧ s₀ = .initial 0 [] ∧ s.calls = ["f"] ∧
      (scopeTasks s.tasks).map (·.activity) = [.check, .leave] :=
    ⟨_, _, _, .mk rfl rfl rfl .standard, .tail (.tail (.tail .refl (by rfl)) (by rfl)) (by rfl),
      rfl, by rfl, by rfl⟩
  have h := scopes_follow_tasks.1 p 0 [] s hs
  exact ⟨p, s, hload, hs, hcalls, htasks, h.1, h.2.2.2.2.1⟩

end Flowchart.Machine
