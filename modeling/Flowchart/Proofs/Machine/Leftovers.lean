import Flowchart.Proofs.Machine.Faults

/-!
# What a failing task leaves behind

A task that fails has no effect, with two exceptions: a declaration keeps the names in front of
the one that is taken, and a test or step of a loop closes the scope of the loop. To say whose
scope that is, the frames of loops are followed through a run.
-/

namespace Flowchart.Machine

open Flowchart.Graph

variable {p : Program} {s s' : State} {t : Task} {rest : List Task} {n : Node} {path : List Handle}
  {x f : Failure}

/-! ## Frames of loops -/

def labels (s : State) : List (String × Nat) := s.scopes.frames.map Scope.Frame.label

def IsLoopTask (t : Task) : Prop := t.activity = .check ∨ t.activity = .step

/-- The frame that a task of a loop goes back from was opened for this loop. -/
def LoopScopes (p : Program) (s : State) : Prop :=
  ∀ t ∈ s.tasks, IsLoopTask t → ∀ n, p.graph.node t.node = .ok n →
    (s!"for {n.id}", t.depth) ∈ labels s

theorem mem_drop_of_index {fs : Scope.Frames} (hfs : Scope.Numbered fs) {d : Nat}
    {frame : Scope.Frame} (hmem : frame ∈ fs) (hindex : frame.index < d) :
    frame ∈ fs.drop (fs.length - d) := by
  induction fs with
  | nil => cases hmem
  | cons top below ih =>
    obtain ⟨htop, hbelow⟩ := hfs
    by_cases hd : below.length < d
    · rw [List.length_cons, Nat.sub_eq_zero_of_le hd]
      exact hmem
    · rcases List.mem_cons.mp hmem with rfl | hmem
      · omega
      · rw [List.length_cons, Nat.succ_sub (by omega), List.drop_succ_cons]
        exact ih hbelow hmem

theorem mem_labels_unwind (hm : s.scopes.WellFormed) {d : Nat} (hd : 1 ≤ d) {l : String × Nat}
    (hl : l ∈ labels s) (hindex : l.2 < d) :
    l ∈ (s.scopes.unwind d).frames.map Scope.Frame.label := by
  obtain ⟨frame, hframe, rfl⟩ := List.mem_map.mp hl
  rw [hm.unwind_frames hd]
  exact List.mem_map_of_mem (mem_drop_of_index hm.numbered hframe hindex)

theorem CountedUp.depth_le {ts : List Task} (h : CountedUp ts) (ht : t ∈ ts) :
    1 ≤ t.depth ∧ t.depth ≤ ts.length := by
  have hmem : t.depth ∈ ts.reverse.map (·.depth) := List.mem_map_of_mem (List.mem_reverse.mpr ht)
  rw [h, List.mem_range'] at hmem
  obtain ⟨i, hi, hdepth⟩ := hmem
  omega

theorem Disciplined.depth_of_task (h : Disciplined p s) (hmem : t ∈ s.tasks)
    (ht : t.activity ≠ .visit) :
    1 ≤ t.depth ∧ t.depth < s.scopes.depth := by
  have hdepth := h.depths.depth_le (List.mem_filter.mpr ⟨hmem, by simpa using ht⟩)
  rw [h.depth]
  omega

theorem IsLoopTask.not_visit (ht : IsLoopTask t) : t.activity ≠ .visit := by
  rcases ht with ht | ht <;> simp [ht]

theorem LoopScopes.kept (h : LoopScopes p s) (hd : Disciplined p s')
    (hold : ∀ u ∈ s'.tasks, IsLoopTask u →
      ∃ v ∈ s.tasks, IsLoopTask v ∧ v.node = u.node ∧ v.depth = u.depth)
    (hlabels : ∀ l ∈ labels s, l.2 < s'.scopes.depth → l ∈ labels s') : LoopScopes p s' := by
  intro u hu hloop n hn
  obtain ⟨v, hv, hloopv, hnode, hdepth⟩ := hold u hu hloop
  have hlabel := h v hv hloopv n (hnode ▸ hn)
  rw [hdepth] at hlabel
  exact hlabels _ hlabel (hd.depth_of_task hu hloop.not_visit).2

theorem labels_of_refilled (h : Scope.Refilled s.scopes.frames s'.scopes.frames) :
    labels s' = labels s := h.1

theorem labels_of_push {name : String}
    (h : Scope.Refilled (s.scopes.push name).frames s'.scopes.frames) :
    labels s' = (name, s.scopes.depth) :: labels s := h.1

theorem older_of_visits {vs : List Task} (hvs : ∀ v ∈ vs, v.activity = .visit)
    (hrest : ∀ u ∈ rest, u ∈ s.tasks) :
    ∀ u ∈ vs ++ rest, IsLoopTask u → ∃ v ∈ s.tasks, IsLoopTask v ∧ v.node = u.node ∧
      v.depth = u.depth := by
  intro u hu hloop
  rcases List.mem_append.mp hu with hu | hu
  · exact absurd (hvs u hu) hloop.not_visit
  · exact ⟨u, hrest u hu, hloop, rfl, rfl⟩

theorem older_of_successor {vs : List Task} {v : Task} (htop : t ∈ s.tasks)
    (hvs : ∀ v ∈ vs, v.activity = .visit)
    (hv : IsLoopTask v → IsLoopTask t ∧ t.node = v.node ∧ t.depth = v.depth)
    (hrest : ∀ u ∈ rest, u ∈ s.tasks) :
    ∀ u ∈ vs ++ v :: rest, IsLoopTask u → ∃ v ∈ s.tasks, IsLoopTask v ∧ v.node = u.node ∧
      v.depth = u.depth := by
  intro u hu hloop
  rcases List.mem_append.mp hu with hu | hu
  · exact absurd (hvs u hu) hloop.not_visit
  · rcases List.mem_cons.mp hu with rfl | hu
    · exact ⟨t, htop, hv hloop⟩
    · exact ⟨u, hrest u hu, hloop, rfl, rfl⟩

theorem refilled_enterLoop (h : enterLoop s n t = .ok (s', none)) :
    Scope.Refilled (s.scopes.push s!"for {n.id}").frames s'.scopes.frames := by
  unfold enterLoop at h
  split at h
  · rcases after_cases h with ⟨m, hprepared, h⟩ | ⟨x, -, -, hx⟩
    · cases h
      split_ifs at hprepared
      · cases hprepared
        exact Scope.refilled_refl _
      · exact refilled_prepare (mapFailure_ok hprepared)
    · cases hx
  · cases h

theorem enterLoop_of_perform (hn : p.graph.node t.node = .ok n) (hkind : n.kind = .forLoop)
    (ht : t.activity = .visit) (h : perform p s t = .ok (s', none)) (htasks : s'.tasks ≠ s.tasks) :
    enterLoop s n t = .ok (s', none) := by
  simp only [perform, ht, visit, hn, bind, Except.bind, hkind] at h
  split_ifs at h
  · cases h
  · cases h
    exact absurd rfl htasks
  · exact h

theorem leaveCall_loopScopes {above below : List Task} {ret : Task} (h : LoopScopes p s)
    (hd : Disciplined p s) (hd' : Disciplined p s') (ht : s.tasks = above ++ ret :: below)
    (hret : ret.activity = .leave) (hleave : leaveCall p { s with tasks := below } ret = .ok s') :
    LoopScopes p s' := by
  obtain ⟨n, -, rfl⟩ := leaveCall_eq_ok hleave
  have hdepth := hd.depth_of_task (t := ret) (by simp [ht]) (by simp [hret])
  refine h.kept hd' ?_ fun l hl hindex => ?_
  · exact older_of_visits (fun v hv => activity_of_mem_visits hv) (by simp +contextual [ht])
  · simp only [hd.memory.unwind_depth hdepth.1 (by omega)] at hindex
    exact mem_labels_unwind hd.memory hdepth.1 hl hindex

theorem abandon_loopScopes (h : LoopScopes p s) (hd : Disciplined p s)
    (ha : s.abandon p t f = .ok s') :
    LoopScopes p s' := by
  have hd' := abandon_disciplined hd ha
  unfold State.abandon at ha
  simp only at ha
  generalize s.failures.push _ = failures at ha
  split at ha
  · rename_i ret below hin
    obtain ⟨above, ht, -, hret⟩ := innermostCall_some hin
    have hrecorded : Disciplined p { s with failures } :=
      hd.kept rfl rfl rfl (Scope.refilled_refl _)
    exact leaveCall_loopScopes (s := { s with failures }) h hrecorded hd' ht hret ha
  · cases ha
    simp [LoopScopes, State.unwind]

theorem performed_loopScopes {f : Option Failure} (h : LoopScopes p s) (hd : Disciplined p s)
    (ht : s.tasks = t :: rest) (hperform : perform p { s with tasks := rest } t = .ok (s', f))
    (hgrounded : ∀ u ∈ s'.tasks, Grounded p.graph u) : LoopScopes p s' := by
  have hp := perform_performed (s := { s with tasks := rest }) hd.memory hperform
  have hd' := performed_disciplined hd ht hp
  have hrest : ∀ u ∈ rest, u ∈ s.tasks := by simp +contextual [ht]
  have htop : t ∈ s.tasks := by simp [ht]
  cases hp with
  | visited vs _ hvs htasks _ hframes =>
    refine h.kept hd' (htasks ▸ older_of_visits hvs hrest) fun l hl _ => ?_
    rwa [labels_of_refilled (s := s) hframes]
  | failed f _ hs =>
    have htasks : s'.tasks = rest := hs.tasks
    refine h.kept hd' (fun u hu hloop => ⟨u, hrest u (htasks ▸ hu), hloop, rfl, rfl⟩) fun l hl _ =>
      ?_
    rwa [labels_of_refilled (s := s) hs.frames]
  | entered name hvisit htasks _ _ =>
    -- The scope is named after the block whose task will close it.
    obtain ⟨n, hn, hkind⟩ :=
      hgrounded { t with activity := .check, depth := s.scopes.depth } (by simp [htasks])
    have hn : p.graph.node t.node = .ok n := hn
    have henter := enterLoop_of_perform hn (hkind (Or.inl rfl)) hvisit hperform (by simp [htasks])
    have hframes := refilled_enterLoop henter
    have hlabels := labels_of_push (s := s) hframes
    intro u hu hloop m hm
    rw [htasks] at hu
    rw [hlabels]
    rcases List.mem_cons.mp hu with rfl | hu
    · cases hn.symm.trans hm
      exact List.mem_cons_self
    · exact List.mem_cons_of_mem _ (h u (hrest u hu) hloop m hm)
  | repeated vs hcheck hvs htasks _ hscopes =>
    refine h.kept hd' ?_ fun l hl _ => ?_
    · rw [htasks]
      exact older_of_successor htop hvs (fun _ => ⟨Or.inl hcheck, rfl, rfl⟩) hrest
    · rwa [labels, hscopes]
  | advanced hstep htasks _ hframes =>
    refine h.kept hd' ?_ fun l hl _ => ?_
    · rw [htasks, ← List.nil_append (_ :: _)]
      exact older_of_successor htop (by simp) (fun _ => ⟨Or.inr hstep, rfl, rfl⟩) hrest
    · rwa [labels_of_refilled (s := s) hframes]
  | closed f vs hloop hvs htasks _ hscopes =>
    have hdepth := hd.depth_of_task htop (IsLoopTask.not_visit hloop)
    refine h.kept hd' (htasks ▸ older_of_visits hvs hrest) fun l hl hindex => ?_
    rw [labels, hscopes]
    rw [hscopes, hd.memory.unwind_depth hdepth.1 (by omega)] at hindex
    exact mem_labels_unwind hd.memory hdepth.1 hl hindex
  | called n name vs _ _ _ _ _ hvs htasks _ hscopes =>
    refine h.kept hd' ?_ fun l hl _ => ?_
    · rw [htasks]
      exact older_of_successor htop hvs (fun hloop => by simp [IsLoopTask] at hloop) hrest
    · have hframes : Scope.Refilled (s.scopes.push name).frames s'.scopes.frames := by
        rw [hscopes]
        exact Scope.refilled_refl _
      rw [labels_of_push hframes]
      exact List.mem_cons_of_mem _ hl
  | left hreturn hleave =>
    exact leaveCall_loopScopes h hd hd' (show s.tasks = [] ++ t :: rest from ht) hreturn hleave

theorem reaches_loopScopes {records : List Record} {s₀ : State} (hload : Loads records p s₀)
    (hs : Reaches p s₀ s) :
    LoopScopes p s := by
  induction hs with
  | refl =>
    cases hload with
    | mk _ _ _ _ => simp [LoopScopes, IsLoopTask, State.initial]
  | @tail s s' hs hnext ih =>
    have hd := hload.disciplined hs
    cases stepped_of_next hload hs hnext with
    | carriedOut ht _ hperform =>
      exact performed_loopScopes ih hd ht hperform (hload.sound (hs.tail hnext)).tasks
    | @gaveUp t rest n s1 path x ht hn hx habandon =>
      have hperform :=
        perform_of_fault (s := { s with tasks := rest }) (identified_of_build hload.built)
          hd.memory hn hx
      have hgrounded : ∀ u ∈ s1.tasks, Grounded p.graph u := by
        rw [hx.untouched.1]
        exact fun u hu => (hload.sound hs).tasks u (by simp [ht, hu])
      have hd1 :=
        performed_disciplined hd ht
          (perform_performed (s := { s with tasks := rest }) hd.memory hperform)
      exact abandon_loopScopes (performed_loopScopes ih hd ht hperform hgrounded) hd1 habandon

/-! ## Frames after a failure -/

/-- What the frames `m` have become when the task `t` of the block `n` has failed. -/
inductive Leaves (p : Program) (t : Task) (n : Node) (m : Scopes) : Scopes → Prop
  /-- Nothing has changed; a declaration that was carried out had nothing to declare. -/
  | same (ht : t.activity = .visit)
      (hother : t.iteration ≤ p.limits.maxIterations → ∀ names, n.fields = .declaration names →
        nameList names = []) :
      Leaves p t n m m
  | declared {names name : String} {m' : Scopes} (ht : Executes p t)
      (hfields : n.fields = .declaration names) (hstop : StoppedAt (nameList names) name m m') :
      Leaves p t n m m'
  | closed {own : Scope.Frame} {outer : Scope.Frames} (ht : IsLoopTask t)
      (hframes : m.frames = own :: outer) (hown : own.label = (s!"for {n.id}", t.depth)) :
      Leaves p t n m ⟨outer⟩

theorem index_lt_of_mem {fs : Scope.Frames} (hfs : Scope.Numbered fs) {frame : Scope.Frame}
    (hmem : frame ∈ fs) :
    frame.index < fs.length := by
  induction fs with
  | nil => cases hmem
  | cons top below ih =>
    rcases List.mem_cons.mp hmem with rfl | hmem
    · rw [hfs.1, List.length_cons]
      omega
    · have hlt := ih hfs.2 hmem
      rw [List.length_cons]
      omega

/-- Going back to the depth of the topmost task, if it belongs to a loop, drops the frame of the
loop. -/
theorem unwind_closes (hd : Disciplined p s) (hl : LoopScopes p s) (ht : s.tasks = t :: rest)
    (hloop : IsLoopTask t) (hn : p.graph.node t.node = .ok n) :
    ∃ own outer, s.scopes.frames = own :: outer ∧
      own.label = (s!"for {n.id}", t.depth) ∧ s.scopes.unwind t.depth = ⟨outer⟩ := by
  obtain ⟨own, outer, hframes⟩ := List.exists_cons_of_ne_nil hd.memory.nonempty
  have hnumbered := hd.memory.numbered
  rw [hframes] at hnumbered
  have hdepth : t.depth = outer.length ∧ 1 ≤ t.depth := by
    have hcounted := hd.depths
    have hall := hd.depth
    rw [ht, scopeTasks_cons_of_ne rest hloop.not_visit] at hcounted hall
    rw [hd.memory.depth_eq, hframes] at hall
    have htop := ((countedUp_cons t _).mp hcounted).2
    simp only [List.length_cons] at hall
    omega
  refine ⟨own, outer, hframes, ?_, ?_⟩
  · -- All other frames have a smaller index.
    have hlabel := hl t (by simp [ht]) hloop n hn
    rw [labels, hframes, List.map_cons] at hlabel
    rcases List.mem_cons.mp hlabel with hlabel | hlabel
    · exact hlabel.symm
    · obtain ⟨frame, hframe, heq⟩ := List.mem_map.mp hlabel
      have hindex : frame.index = t.depth := congrArg Prod.snd heq
      have hlt := index_lt_of_mem hnumbered.2 hframe
      omega
  · have hunwind := hd.memory.unwind_frames hdepth.2
    rw [hframes, hdepth.1, List.length_cons, Nat.add_sub_cancel_left, List.drop_one,
      List.tail_cons] at hunwind
    rw [hdepth.1]
    exact congrArg Scopes.mk hunwind

theorem BlockFault.leaves {g : Graph} (hx : BlockFault g s n s' path x) (ht : Executes p t) :
    Leaves p t n s.scopes s'.scopes := by
  cases hx with
  | namesMissing hfields hnames =>
    refine .same ht.visit fun _ names' hfields' => ?_
    cases hfields.symm.trans hfields'
    exact hnames
  | nameTaken hfields hstop => exact .declared ht hfields hstop
  | _ => exact .same ht.visit (by simp [*])

theorem leaves_of_fault (hg : p.graph.Linked) (hd : Disciplined p s) (hl : LoopScopes p s)
    (ht : s.tasks = t :: rest) (hn : p.graph.node t.node = .ok n)
    (hx : TaskFault p { s with tasks := rest } t n s' path x) :
    Leaves p t n s.scopes s'.scopes := by
  have hclosed (hloop : IsLoopTask t) : Leaves p t n s.scopes (s.scopes.unwind t.depth) := by
    obtain ⟨own, outer, hframes, hown, hunwind⟩ := unwind_closes hd hl ht hloop hn
    rw [hunwind]
    exact .closed hloop hframes hown
  cases hx with
  | ceiling hvisit hlimit => exact .same hvisit (by omega)
  | statement hexec _ hx => exact hx.leaves hexec
  | branch hexec _ hfields => exact .same hexec.visit (by simp [hfields])
  | initialization hexec _ hfields => exact .same hexec.visit (by simp [hfields])
  | call hexec _ hfields => exact .same hexec.visit (by simp [hfields])
  | unknown hexec hkind =>
    obtain ⟨data, hfields⟩ := hg.fields t.node n hn
    rw [hkind] at hfields
    exact .same hexec.visit (by simp [hfields, Fields.of])
  | checkCeiling hcheck => exact hclosed (Or.inl hcheck)
  | check hcheck => exact hclosed (Or.inl hcheck)
  | step hstep => exact hclosed (Or.inr hstep)

/-- A task that fails leaves output and calls alone, and the frames too, but for the names that a
declaration came to before the one that is taken, and for the scope of a loop whose test or step
failed. Then its failure is recorded, and no other. A task that is carried out records none. -/
theorem failing_tasks_leave_nothing_half_done (records : List Record) (p : Program) (s₀ s : State)
    (hload : Loads records p s₀) (hs : Reaches p s₀ s) (t : Task) (rest : List Task)
    (ht : s.tasks = t :: rest) :
    ∃ n, p.graph.node t.node = .ok n ∧
      (∀ s1 f, perform p { s with tasks := rest } t = .ok (s1, some f) →
        s1.output = s.output ∧ s1.calls = s.calls ∧ s1.tasks = rest ∧ s1.failures = s.failures ∧
        Leaves p t n s.scopes s1.scopes ∧
        ∃ s', Next p s s' ∧ s'.failures = s.failures.push (f.atBlock n.id)) ∧
      ∀ s', perform p { s with tasks := rest } t = .ok (s', none) →
        Next p s s' ∧ s'.failures = s.failures := by
  have hd := hload.disciplined hs
  obtain ⟨n, hn, -⟩ := hload.topmost hs ht
  refine ⟨n, hn, fun s1 f hperform => ?_, fun s' hperform => ?_⟩
  · obtain ⟨path, x, hx, rfl⟩ := perform_traced (s := { s with tasks := rest }) hload.ready.linked
      (identified_of_build hload.built) hd.memory hn hperform
    obtain ⟨htasks, hcalls, houtput, hfailures⟩ := hx.untouched
    have hleaves := leaves_of_fault hload.ready.linked hd (reaches_loopScopes hload hs) ht hn hx
    obtain ⟨s', habandon, hnext⟩ := next_of_fault hload hs ht hn hx
    refine ⟨houtput, hcalls, htasks, hfailures, hleaves, s', hnext, ?_⟩
    rw [(abandon_eq_ok hn habandon).2.1, hfailures]
  · obtain ⟨vs, -, -, hfailures⟩ := perform_carriedOut hn hperform
    exact ⟨next_of_performed (f := none) ht rfl hperform, hfailures⟩

/-- The third name is the first one again. -/
def repeatedName : List Record :=
  [{ id := "start", type := "start", next := "names" },
   { id := "names", type := "variable", data := { variableName := "x, y, x, z" } }]

theorem failing_tasks_leave_nothing_half_done_repeatedName :
    ∃ p s₀ s t rest n s1 f, Loads repeatedName p s₀ ∧ Reaches p s₀ s ∧ s.tasks = t :: rest ∧
      p.graph.node t.node = .ok n ∧ perform p { s with tasks := rest } t = .ok (s1, some f) ∧
      f.cause = .scope (.variableExists "x") ∧ s.scopes.vars = .ok [] ∧
      s1.scopes.vars = .ok [("x", 0), ("y", 0)] ∧
      Leaves p t n s.scopes s1.scopes ∧
      ∃ s', Next p s s' ∧ s'.failures = s.failures.push (f.atBlock n.id) := by
  obtain ⟨p, s₀, s, t, rest, s1, f, hload, hs, ht, hperform, hcause, hbefore, hafter⟩ :
      ∃ p s₀ s t rest s1 f, Loads repeatedName p s₀ ∧ Reaches p s₀ s ∧ s.tasks = t :: rest ∧
        perform p { s with tasks := rest } t = .ok (s1, some f) ∧
        f.cause = .scope (.variableExists "x") ∧ s.scopes.vars = .ok [] ∧
        s1.scopes.vars = .ok [("x", 0), ("y", 0)] :=
    ⟨_, _, _, _, _, _, _, .mk rfl rfl rfl .standard, .tail .refl (by rfl), rfl, rfl, rfl, rfl, rfl⟩
  obtain ⟨n, hn, hfails, -⟩ :=
    failing_tasks_leave_nothing_half_done repeatedName p s₀ s hload hs t rest ht
  obtain ⟨-, -, -, -, hleaves, hnext⟩ := hfails s1 f hperform
  exact ⟨p, s₀, s, t, rest, n, s1, f, hload, hs, ht, hn, hperform, hcause, hbefore, hafter,
    hleaves, hnext⟩

end Flowchart.Machine
