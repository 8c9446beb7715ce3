import Flowchart.Proofs.Machine.Discipline
import Flowchart.Proofs.Machine.Recursive

/-!
# The machine does what recursion does

Every run of the machine ends exactly if recursive execution ends, and then both leave the
same memory, output and failures. The tasks below a visit play the part of what the
recursion does when it comes back: a visit is carried out to the end before the tasks
below it, and if it fails, those up to the innermost return are dropped.
-/

namespace Flowchart.Machine

/-! ## Worlds and states -/

@[simp] theorem World.state_tasks (w : World) (ts : List Task) : (w.state ts).tasks = ts := rfl

@[simp] theorem World.state_scopes (w : World) (ts : List Task) :
    (w.state ts).scopes = w.scopes := rfl

@[simp] theorem World.state_calls (w : World) (ts : List Task) : (w.state ts).calls = w.calls := rfl

theorem World.state_unwind (w : World) (ts : List Task) (d : Nat) :
    (w.state ts).unwind d = (w.close d).state ts := rfl

theorem World.state_schedule (w : World) (ts : List Task) (t : Task) :
    (w.state ts).schedule t = w.state (t :: ts) := rfl

theorem World.state_setScopes (w : World) (ts : List Task) (scopes : Scopes) :
    { w.state ts with scopes } = { w with scopes }.state ts := rfl

theorem World.record_close (w : World) (d : Nat) (n : Node) (f : Failure) :
    (w.close d).record n f = (w.record n f).close d := rfl

def Effect.withTasks (ts : List Task) (e : Effect) : Effect :=
  e.map fun r => ({ r.1 with tasks := ts }, r.2)

theorem executeBlock_withTasks (g : Graph) (w : World) (ts : List Task) (n : Node) :
    executeBlock g (w.state ts) n = (executeBlock g (w.state []) n).withTasks ts := by
  have htasks : Unnoticed fun s => { s with tasks := ts } :=
    ⟨fun _ => rfl, fun _ _ => rfl, fun _ _ => rfl⟩
  exact executeBlock_unnoticed htasks g (w.state []) n

/-! ## Giving up a path -/

/-- The state after the tasks `rest`, up to the innermost return, were dropped. -/
def giveUp (p : Program) (w : World) (rest : List Task) : Except Crash State :=
  match innermostCall rest with
  | some (ret, below) => leaveCall p (w.state below) ret
  | none => .ok ((w.state []).unwind 1)

theorem giveUp_cons_of_ne {p : Program} (w : World) {t : Task} (rest : List Task)
    (h : t.activity ≠ .leave) :
    giveUp p w (t :: rest) = giveUp p w rest := by
  simp [giveUp, innermostCall, h]

theorem giveUp_cons_of_leave {p : Program} (w : World) {t : Task} (rest : List Task)
    (h : t.activity = .leave) :
    giveUp p w (t :: rest) = leaveCall p (w.state rest) t := by
  simp [giveUp, innermostCall, h]

/-- Scopes that the dropped tasks would have closed need not be closed before. -/
theorem giveUp_close {p : Program} (w : World) {rest : List Task} (h : CountedUp (scopeTasks rest))
    {d : Nat} (hd : 1 + (scopeTasks rest).length ≤ d) :
    giveUp p (w.close d) rest = giveUp p w rest := by
  unfold giveUp
  split
  · rename_i ret below hin
    obtain ⟨above, rfl, -, hret⟩ := innermostCall_some hin
    have hne : ret.activity ≠ .visit := by rw [hret]; decide
    rw [scopeTasks_append, scopeTasks_cons_of_ne below hne] at h hd
    have hdepth := ((countedUp_cons ret _).mp h.of_append).2
    have hle : ret.depth ≤ d := by
      simp only [List.length_append, List.length_cons] at hd
      omega
    simp only [leaveCall, State.unwind, World.close, World.state, Scopes.unwind_unwind hle]
  · have h1 : (w.scopes.unwind d).unwind (1 : Nat) = w.scopes.unwind (1 : Nat) :=
      Scopes.unwind_unwind (by omega) w.scopes
    simp only [State.unwind, World.close, World.state, h1]

/-! ## One task -/

section Task

variable {p : Program} {w : World} {t : Task} {rest : List Task}

theorem step_cons : step p (w.state (t :: rest)) = (do
    match ← perform p (w.state rest) t with
    | (s', none) => return some s'
    | (s', some f) => return some (← s'.abandon p t f)) := rfl

theorem next_of_perform {s : State} (h : perform p (w.state rest) t = .ok (s, none)) :
    Next p (w.state (t :: rest)) s := by
  rw [Next, step_cons, h]
  rfl

theorem step_of_crash {c : Crash} (h : perform p (w.state rest) t = .error c) :
    step p (w.state (t :: rest)) = .error c := by
  rw [step_cons, h]
  rfl

theorem step_of_failed {u : World} {f : Failure} {n : Node} (hn : p.graph.node t.node = .ok n)
    (h : perform p (w.state rest) t = .ok (u.state rest, some f)) :
    step p (w.state (t :: rest)) = (giveUp p (u.record n f) rest).map some := by
  have hn' : p.graph.node? t.node = some n := by
    unfold Graph.node at hn
    unfold Graph.node?
    split at hn
    · cases hn
      assumption
    · cases hn
  have ha : (u.state rest).abandon p t f = giveUp p (u.record n f) rest := by
    simp only [State.abandon, hn', giveUp, World.state_tasks]
    rfl
  rw [step_cons, h]
  change (do return some (← (u.state rest).abandon p t f)) = _
  rw [ha]
  cases giveUp p (u.record n f) rest <;> rfl

end Task

/-! ## Simulation -/

/-- From `s` the machine comes to the same end as a recursion at most `fuel` deep, and leaves
the tasks `rest`; it takes at least as many steps as the recursion was deep. -/
def Simulates (p : Program) (fuel : Nat) (s : State) (rest : List Task) : Except Halt World → Prop
  | .ok w => Reaches p s (w.state rest)
  | .error (.failed w) => ∃ s', Reaches p s s' ∧ step p s' = (giveUp p w rest).map some
  | .error (.crashed c) => ∃ s', Reaches p s s' ∧ step p s' = .error c
  | .error .unfinished => steps p fuel s = .ok none

namespace Simulates

variable {p : Program} {fuel : Nat} {s s' : State} {rest : List Task} {r : Except Halt World}

theorem steps_none_of_reaches (h : Reaches p s s') (hs : steps p fuel s' = .ok none) :
    steps p fuel s = .ok none := by
  obtain ⟨c, hc⟩ := steps_of_reaches h
  by_contra hne
  have := steps_add hne c
  rw [Nat.add_comm, hc, hs] at this
  exact hne this.symm

theorem after_reaches (h : Reaches p s s') (hs : Simulates p fuel s' rest r) :
    Simulates p fuel s rest r := by
  rcases r with (w | c | _) | w
  · obtain ⟨s1, h1, hstep⟩ := hs
    exact ⟨s1, h.trans h1, hstep⟩
  · obtain ⟨s1, h1, hstep⟩ := hs
    exact ⟨s1, h.trans h1, hstep⟩
  · exact steps_none_of_reaches h hs
  · exact h.trans hs

/-- One step of the machine pays for one call of the recursion. -/
theorem after_next (h : Next p s s') (hs : Simulates p fuel s' rest r) :
    Simulates p (fuel + 1) s rest r := by
  rcases r with (w | c | _) | w
  · exact after_reaches h.reaches hs
  · exact after_reaches h.reaches hs
  · rw [Simulates, steps_of_next h]
    exact hs
  · exact after_reaches h.reaches hs

theorem weaken (hs : Simulates p (fuel + 1) s rest r) : Simulates p fuel s rest r := by
  rcases r with (w | c | _) | w
  · exact hs
  · exact hs
  · rw [Simulates]
    by_contra hne
    have := steps_add hne 1
    rw [show steps p (fuel + 1) s = .ok none from hs] at this
    exact hne this.symm
  · exact hs

theorem bind {t : Task} {k : World → Except Halt World} (ht : t.activity ≠ .leave)
    (hs : Simulates p fuel s (t :: rest) r)
    (hk : ∀ w, Reaches p s (w.state (t :: rest)) →
      Simulates p fuel (w.state (t :: rest)) rest (k w)) :
    Simulates p fuel s rest (r >>= k) := by
  rcases r with (w | c | _) | w
  · obtain ⟨s1, h1, hstep⟩ := hs
    rw [giveUp_cons_of_ne w rest ht] at hstep
    exact ⟨s1, h1, hstep⟩
  · exact hs
  · exact hs
  · exact after_reaches hs (hk w hs)

theorem of_after {α : Type} {w w₁ w₂ : World} {t : Task} {n : Node} {a : Attempt α}
    {next : α → Effect} {k : α → Except Halt World} (hn : p.graph.node t.node = .ok n)
    (hperform : perform p (w.state rest) t = (w₁.state rest).after a next)
    (hfail : ∀ f, giveUp p (w₁.record n f) rest = giveUp p (w₂.record n f) rest)
    (hok : ∀ x, a = .ok x → ∃ s', next x = .ok (s', none) ∧
      (Next p (w.state (t :: rest)) s' → Simulates p fuel s' rest (k x))) :
    Simulates p (fuel + 1) (w.state (t :: rest)) rest (w₂.get n a >>= k) := by
  rcases a with (f | c) | x
  · exact ⟨_, .refl p _, by rw [step_of_failed hn hperform, hfail]⟩
  · exact ⟨_, .refl p _, step_of_crash hperform⟩
  · obtain ⟨s', hnext, hs⟩ := hok x rfl
    have hstep : Next p (w.state (t :: rest)) s' := next_of_perform (by rw [hperform]; exact hnext)
    exact after_next hstep (hs hstep)

end Simulates

/-! ## One call of the recursion -/

def ExecSimulated (p : Program) (fuel : Nat) : Prop :=
  ∀ h k stop w rest, Disciplined p (w.state (visits h k stop ++ rest)) →
    Simulates p fuel (w.state (visits h k stop ++ rest)) rest (exec p fuel h k stop w)

def LoopSimulated (p : Program) (fuel : Nat) : Prop :=
  ∀ node n j stop depth w rest, p.graph.node node = .ok n →
    Disciplined p (w.state (⟨.check, node, j, stop, depth⟩ :: rest)) →
    Simulates p fuel (w.state (⟨.check, node, j, stop, depth⟩ :: rest)) rest
    (execLoop p fuel n j stop depth w)

section Blocks

variable {p : Program} {fuel : Nat} {w : World} {t : Task} {rest : List Task} {n : Node}

theorem follow_simulated (ih : ExecSimulated p fuel) (hd : Disciplined p (w.state (t :: rest)))
    (w' : World) (next : Option Handle)
    (hperform : perform p (w.state rest) t = ((w'.state rest).follow next t).done) :
    Simulates p (fuel + 1) (w.state (t :: rest)) rest (exec p fuel next t.iteration t.stop w') := by
  have hnext := next_of_perform hperform
  rw [follow_eq] at hnext
  exact .after_next hnext (ih next t.iteration t.stop w' rest (next_disciplined hnext hd))

theorem plain_simulated (ih : ExecSimulated p fuel) (hd : Disciplined p (w.state (t :: rest)))
    (hn : p.graph.node t.node = .ok n)
    (hperform : perform p (w.state rest) t = (do
      match ← executeBlock p.graph (w.state rest) n with
      | (s', none) => (s'.follow n.next t).done
      | failed => .ok failed)) :
    Simulates p (fuel + 1) (w.state (t :: rest)) rest
      (w.execute p.graph n >>= exec p fuel n.next t.iteration t.stop) := by
  unfold World.execute
  rw [executeBlock_withTasks] at hperform
  rcases hexec : executeBlock p.graph (w.state []) n with c | ⟨s, _ | f⟩
  all_goals rw [hexec] at hperform
  · exact ⟨_, .refl p _, step_of_crash hperform⟩
  · exact follow_simulated ih hd s.world n.next hperform
  · exact ⟨_, .refl p _, step_of_failed (u := s.world) hn hperform⟩

theorem branchOn_simulated {decide : Bool → State} {k : Bool → Except Halt World}
    (hn : p.graph.node t.node = .ok n)
    (hperform : perform p (w.state rest) t = branchOn p (w.state rest) n decide)
    (hk : ∀ holds, Next p (w.state (t :: rest)) (decide holds) →
      Simulates p fuel (decide holds) rest (k holds)) :
    Simulates p (fuel + 1) (w.state (t :: rest)) rest (w.holds p.graph n >>= k) := by
  unfold branchOn at hperform
  unfold World.holds
  cases hf : n.fields with
  | condition text operator =>
    rw [hf] at hperform
    exact .of_after hn hperform (fun f => rfl) fun holds _ => ⟨_, rfl, hk holds⟩
  | _ =>
    rw [hf] at hperform
    exact ⟨_, .refl p _, step_of_crash hperform⟩

theorem branch_simulated (ih : ExecSimulated p fuel) (hd : Disciplined p (w.state (t :: rest)))
    (hn : p.graph.node t.node = .ok n)
    (hperform : perform p (w.state rest) t = branchOn p (w.state rest) n fun holds =>
      (w.state rest).follow (if holds then n.onTrue else n.onFalse) t) :
    Simulates p (fuel + 1) (w.state (t :: rest)) rest (w.holds p.graph n >>= fun holds =>
      exec p fuel (if holds then n.onTrue else n.onFalse) t.iteration t.stop w) := by
  refine branchOn_simulated hn hperform fun holds hnext => ?_
  rw [follow_eq] at hnext ⊢
  exact ih _ t.iteration t.stop w rest (next_disciplined hnext hd)

theorem whileLoop_simulated (ih : ExecSimulated p fuel) (hd : Disciplined p (w.state (t :: rest)))
    (hn : p.graph.node t.node = .ok n)
    (hperform : perform p (w.state rest) t = branchOn p (w.state rest) n fun holds =>
      if holds then
        match n.onTrue with
        | some body =>
          ((w.state rest).visitNext (some t.node) (t.iteration + 1) t.stop).visitNext (some body)
            (t.iteration + 1) t.stop
        | none => w.state rest
      else (w.state rest).follow n.onFalse t) :
    Simulates p (fuel + 1) (w.state (t :: rest)) rest (w.holds p.graph n >>= fun holds =>
      if holds then
        match n.onTrue with
        | some body =>
          exec p fuel (some body) (t.iteration + 1) t.stop w >>=
          exec p fuel (some t.node) (t.iteration + 1) t.stop
        | none => .ok w
      else exec p fuel n.onFalse t.iteration t.stop w) := by
  refine branchOn_simulated hn hperform fun holds hnext => ?_
  have hd' := next_disciplined hnext hd
  cases holds with
  | false =>
    simp only [Bool.false_eq_true, if_false, follow_eq] at hd' ⊢
    exact ih _ t.iteration t.stop w rest hd'
  | true =>
    simp only [if_true] at hd' ⊢
    cases hbody : n.onTrue with
    | none => exact Reaches.refl p _
    | some body =>
      simp only [hbody] at hd'
      -- The second visit of the loop waits below its body.
      refine .bind (t := ⟨.visit, t.node, t.iteration + 1, t.stop, 0⟩) (by simp) ?_ ?_
      · exact ih (some body) (t.iteration + 1) t.stop w _ hd'
      · intro w' hw'
        exact ih (some t.node) (t.iteration + 1) t.stop w' rest
          (hw'.invariant hd' fun _ _ => next_disciplined)

/-! ## Counting loops -/

theorem giveUp_close_record (hd : Disciplined p (w.state (t :: rest))) (ht : t.activity ≠ .visit)
    (f : Failure) :
    giveUp p ((w.close t.depth).record n f) rest = giveUp p (w.record n f) rest := by
  have hdepths := hd.depths
  rw [World.state_tasks, scopeTasks_cons_of_ne rest ht, countedUp_cons] at hdepths
  rw [World.record_close]
  exact giveUp_close _ hdepths.1 (by omega)

theorem forLoop_simulated (ih : LoopSimulated p fuel) (hd : Disciplined p (w.state (t :: rest)))
    (hn : p.graph.node t.node = .ok n) (ht : t.activity = .visit)
    (hperform : perform p (w.state rest) t = enterLoop (w.state rest) n t) :
    Simulates p (fuel + 1) (w.state (t :: rest)) rest
      (w.enterLoop n >>= execLoop p fuel n t.iteration t.stop w.scopes.depth) := by
  unfold enterLoop at hperform
  unfold World.enterLoop
  cases hf : n.fields with
  | forLoop init text operator step =>
    simp only [hf, World.state_setScopes, World.state_unwind, World.state_schedule] at hperform
    by_cases hinit : init = ""
    · simp only [hinit, if_true] at hperform ⊢
      have hnext := next_of_perform hperform
      exact .after_next hnext (ih t.node n _ _ _ _ rest hn (next_disciplined hnext hd))
    · simp only [hinit, if_false, bind_assoc, pure_bind] at hperform ⊢
      refine .of_after hn hperform ?_ ?_
      · intro f
        have hdepths := hd.depths
        have hdepth := hd.depth
        rw [World.state_tasks, scopeTasks_cons_of_visit rest ht] at hdepths hdepth
        rw [World.record_close]
        exact giveUp_close _ hdepths (Nat.le_of_eq hdepth.symm)
      · intro scopes _
        exact ⟨_, rfl, fun hnext => ih t.node n _ _ _ _ rest hn (next_disciplined hnext hd)⟩
  | _ =>
    simp only [hf] at hperform
    exact ⟨_, .refl p _, step_of_crash hperform⟩

theorem stepLoop_simulated (ih : LoopSimulated p fuel) {node : Handle} {j : Nat}
    {stop : Option Handle} {depth : Nat}
    (hd : Disciplined p (w.state (⟨.step, node, j, stop, depth⟩ :: rest)))
    (hn : p.graph.node node = .ok n) :
    Simulates p (fuel + 1) (w.state (⟨.step, node, j, stop, depth⟩ :: rest)) rest
      (w.advance n >>= execLoop p fuel n (j + 1) stop depth) := by
  have hperform : perform p (w.state rest) ⟨.step, node, j, stop, depth⟩ =
      stepLoop p (w.state rest) ⟨.step, node, j, stop, depth⟩ := rfl
  unfold stepLoop at hperform
  unfold World.advance
  simp only [hn, bind, Except.bind] at hperform
  cases hf : n.fields with
  | forLoop init text operator step =>
    simp only [hf, World.state_setScopes, World.state_unwind, World.state_schedule] at hperform
    by_cases hstep : step = ""
    · simp only [hstep, if_true] at hperform ⊢
      have hnext := next_of_perform hperform
      exact .after_next hnext (ih node n _ _ _ _ rest hn (next_disciplined hnext hd))
    · simp only [hstep, if_false, bind_assoc, pure_bind] at hperform ⊢
      have hgive (f : Failure) := giveUp_close_record (n := n) hd (by simp) f
      refine .of_after hn hperform hgive ?_
      intro scopes _
      exact ⟨_, rfl, fun hnext => ih node n _ _ _ _ rest hn (next_disciplined hnext hd)⟩
  | _ =>
    simp only [hf] at hperform
    exact ⟨_, .refl p _, step_of_crash hperform⟩

theorem checkLoop_simulated (ihe : ExecSimulated p fuel) (ihl : LoopSimulated p fuel) :
    LoopSimulated p (fuel + 1) := by
  intro node n j stop depth w rest hn hd
  have hperform : perform p (w.state rest) ⟨.check, node, j, stop, depth⟩ =
      checkLoop p (w.state rest) ⟨.check, node, j, stop, depth⟩ := rfl
  unfold checkLoop at hperform
  simp only [hn, bind, Except.bind] at hperform
  have hgive (f : Failure) := giveUp_close_record (n := n) hd (by simp) f
  rw [execLoop]
  by_cases hj : p.limits.maxIterations < j
  · rw [if_pos hj] at hperform ⊢
    refine ⟨_, .refl p _, ?_⟩
    rw [step_of_failed (u := w.close depth) hn hperform, hgive]
  · rw [if_neg hj] at hperform ⊢
    unfold World.repeats
    cases hf : n.fields with
    | forLoop init text operator step =>
      simp only [hf, World.state_unwind] at hperform
      have hget :
          (if text = "" then .ok false else w.get n (condition p.graph w.scopes n text operator)) =
          w.get n
            (if text = "" then .ok false else condition p.graph w.scopes n text operator) := by
        split_ifs <;> rfl
      simp only [hget]
      refine .of_after hn hperform hgive ?_
      intro repeats _
      cases repeats with
      | false =>
        refine ⟨_, rfl, fun hnext => ?_⟩
        rw [follow_eq] at hnext ⊢
        exact ihe _ j stop (w.close depth) rest (next_disciplined hnext hd)
      | true =>
        refine ⟨_, rfl, fun hnext => ?_⟩
        rw [visitNext_eq] at hnext ⊢
        have hd' := next_disciplined hnext hd
        -- The step of the loop waits below its body.
        refine .bind (t := ⟨.step, node, j, stop, depth⟩) (by simp) ?_ ?_
        · exact ihe n.onTrue (j + 1) stop w _ hd'
        · intro w' hw'
          exact (stepLoop_simulated ihl (hw'.invariant hd' fun _ _ => next_disciplined) hn).weaken
    | _ =>
      simp only [hf] at hperform
      exact ⟨_, .refl p _, step_of_crash hperform⟩

/-! ## Calls -/

theorem return_simulated (ih : ExecSimulated p fuel) {s : State} {r : Except Halt World}
    (ht : t.activity = .leave) (hn : p.graph.node t.node = .ok n) (hd : Disciplined p s)
    (hs : Simulates p fuel s (t :: rest) r) :
    Simulates p fuel s rest
      (resume r fun w => exec p fuel n.next t.iteration t.stop (w.leaveCall t.depth)) := by
  have hleave (w : World) : leaveCall p (w.state rest) t =
      .ok ((w.leaveCall t.depth).state (visits n.next t.iteration t.stop ++ rest)) := by
    simp only [leaveCall, hn, bind, Except.bind, pure, Except.pure, follow_eq]
    rfl
  have hgo (w : World) (hw :
      Reaches p s ((w.leaveCall t.depth).state (visits n.next t.iteration t.stop ++ rest))) :
      Simulates p fuel s rest (exec p fuel n.next t.iteration t.stop (w.leaveCall t.depth)) :=
    .after_reaches hw (ih _ _ _ _ rest (hw.invariant hd fun _ _ => next_disciplined))
  rcases r with (w | c | _) | w
  · obtain ⟨s', hs', hstep⟩ := hs
    rw [giveUp_cons_of_leave w rest ht, hleave] at hstep
    exact hgo w (hs'.trans (Next.reaches hstep))
  · exact hs
  · exact hs
  · have hperform : perform p (w.state rest) t = (do (← leaveCall p (w.state rest) t).done) := by
      simp only [perform, ht]
    rw [hleave] at hperform
    exact hgo w (hs.trans (next_of_perform hperform).reaches)

theorem call_of_refused {halt : Halt} (t : Task) (rest : List Task)
    (h : w.callee p n = .error halt) :
    (∃ f, halt = .failed (w.record n f) ∧ call p (w.state rest) n t = .ok (w.state rest, some f)) ∨
      ∃ c, halt = .crashed c ∧ call p (w.state rest) n t = .error c := by
  unfold World.callee at h
  unfold call
  cases hf : n.fields with
  | function name =>
    simp only [hf] at h ⊢
    rw [World.state_calls]
    by_cases hname : name = ""
    · rw [if_pos hname] at h ⊢
      cases h
      exact .inl ⟨_, rfl, rfl⟩
    rw [if_neg hname] at h ⊢
    by_cases hroom : p.limits.maxCallDepth ≤ w.calls.length
    · rw [if_pos hroom] at h ⊢
      cases h
      exact .inl ⟨_, rfl, rfl⟩
    rw [if_neg hroom] at h ⊢
    by_cases hactive : w.calls.contains name
    · rw [if_pos hactive] at h ⊢
      cases h
      exact .inl ⟨_, rfl, rfl⟩
    rw [if_neg hactive] at h ⊢
    cases hfunction : p.functions.get? name with
    | none =>
      simp only [hfunction] at h ⊢
      cases h
      exact .inl ⟨_, rfl, rfl⟩
    | some f =>
      simp only [hfunction] at h
      cases h
  | _ =>
    simp only [hf] at h ⊢
    cases h
    exact .inr ⟨_, rfl, rfl⟩

theorem call_of_callee {name : String} {f : Function} (h : w.callee p n = .ok (name, f)) :
    call p (w.state rest) n t = (p.graph.node f.start).bind fun first =>
      .ok ((w.enterCall name).state (visits first.next 0 (some f.stop) ++
        { t with activity := .leave, depth := w.scopes.depth } :: rest), none) := by
  unfold World.callee at h
  unfold call
  cases hf : n.fields with
  | function callee =>
    simp only [hf] at h ⊢
    rw [World.state_calls]
    split_ifs at h with hname hroom hactive
    · cases h
    · cases h
    · cases h
    rw [if_neg hname, if_neg hroom, if_neg hactive]
    cases hfunction : p.functions.get? callee with
    | none =>
      simp only [hfunction] at h
      cases h
    | some g =>
      simp only [hfunction] at h ⊢
      cases h
      simp only [visitNext_eq]
      rfl
  | _ =>
    simp only [hf] at h
    cases h

theorem call_simulated (ih : ExecSimulated p fuel) (hd : Disciplined p (w.state (t :: rest)))
    (hn : p.graph.node t.node = .ok n)
    (hperform : perform p (w.state rest) t = call p (w.state rest) n t) :
    Simulates p (fuel + 1) (w.state (t :: rest)) rest (do
      let (name, f) ← w.callee p n
      let first ← blockAt p f.start
      resume (exec p fuel first.next 0 (some f.stop) (w.enterCall name)) fun body =>
        exec p fuel n.next t.iteration t.stop (body.leaveCall w.scopes.depth)) := by
  rcases hcallee : w.callee p n with halt | ⟨name, f⟩
  · rcases call_of_refused t rest hcallee with ⟨f, rfl, hcall⟩ | ⟨c, rfl, hcall⟩
    · exact ⟨_, .refl p _, step_of_failed hn (hperform.trans hcall)⟩
    · exact ⟨_, .refl p _, step_of_crash (hperform.trans hcall)⟩
  · rw [call_of_callee hcallee] at hperform
    simp only [bind, Except.bind, blockAt]
    cases hfirst : p.graph.node f.start with
    | error c =>
      rw [hfirst] at hperform
      exact ⟨_, .refl p _, step_of_crash hperform⟩
    | ok first =>
      rw [hfirst] at hperform
      have hnext := next_of_perform hperform
      have hd' := next_disciplined hnext hd
      have hbody := ih first.next 0 (some f.stop) (w.enterCall name) _ hd'
      refine .after_next hnext ?_
      exact return_simulated (t := { t with activity := .leave, depth := w.scopes.depth }) ih rfl
        hn hd' hbody

/-! ## All blocks -/

theorem visit_simulated (ihe : ExecSimulated p fuel) (ihl : LoopSimulated p fuel) :
    ExecSimulated p (fuel + 1) := by
  intro h k stop w rest hd
  cases h with
  | none =>
    rw [exec]
    exact Reaches.refl p _
  | some h =>
    let t : Task := ⟨.visit, h, k, stop, 0⟩
    change Disciplined p (w.state (t :: rest)) at hd
    change Simulates p (fuel + 1) (w.state (t :: rest)) rest _
    have hperform : perform p (w.state rest) t = visit p (w.state rest) t := rfl
    rw [exec, blockAt]
    unfold visit at hperform
    cases hn : p.graph.node h with
    | error c =>
      simp only [hn, t, bind, Except.bind] at hperform
      exact ⟨_, .refl p _, step_of_crash hperform⟩
    | ok n =>
      simp only [hn, t, bind, Except.bind] at hperform
      change Simulates p (fuel + 1) (w.state (t :: rest)) rest (if _ then _ else _)
      by_cases hk : p.limits.maxIterations < k
      · rw [if_pos hk] at hperform ⊢
        exact ⟨_, .refl p _, step_of_failed hn hperform⟩
      rw [if_neg hk] at hperform ⊢
      by_cases hstop : some h = stop
      · rw [if_pos hstop] at hperform ⊢
        exact (next_of_perform hperform).reaches
      rw [if_neg hstop] at hperform ⊢
      cases hkind : n.kind
      all_goals simp only [hkind] at hperform ⊢
      case start | functionStart | functionEnd | arithmetic | arrayElement =>
        exact follow_simulated ihe hd w n.next hperform
      case declaration | assignment | output | arrayDeclaration | arrayAssignment =>
        exact plain_simulated ihe hd hn hperform
      case stop => exact (next_of_perform hperform).reaches
      case unknown => exact ⟨_, .refl p _, step_of_failed hn hperform⟩
      case branch => exact branch_simulated ihe hd hn hperform
      case whileLoop => exact whileLoop_simulated ihe hd hn hperform
      case forLoop => exact forLoop_simulated ihl hd hn rfl hperform
      case functionCall => exact call_simulated ihe hd hn hperform

end Blocks

/-! ## Whole runs -/

theorem exec_simulated (p : Program) (fuel : Nat) :
    ExecSimulated p fuel ∧ LoopSimulated p fuel := by
  induction fuel with
  | zero =>
    constructor
    · intro h k stop w rest _
      rw [exec]
      rfl
    · intro node n j stop depth w rest _ _
      rw [execLoop]
      rfl
  | succ fuel ih => exact ⟨visit_simulated ih.1 ih.2, checkLoop_simulated ih.1 ih.2⟩

/-- How the machine ends if the recursion, at most `fuel` deep, ends with `r`. -/
def EndsLike (p : Program) (fuel : Nat) (s : State) : Except Crash (Option World) → Prop
  | .ok (some w) => ∃ n, steps p n s = .ok (some (w.state []))
  | .ok none => steps p fuel s = .ok none
  | .error c => ∃ n, steps p n s = .error c

theorem EndsLike.eq_of_ended {p : Program} {fuel : Nat} {s : State}
    {r : Except Crash (Option World)} (h : EndsLike p fuel s r)
    (hended : steps p fuel s ≠ .ok none) :
    steps p fuel s = r.map (Option.map (·.state [])) := by
  rcases r with c | _ | w
  · obtain ⟨n, hn⟩ := h
    rw [steps_unique hended (m := n) (by rw [hn]; simp), hn]
    rfl
  · exact absurd h hended
  · obtain ⟨n, hn⟩ := h
    rw [steps_unique hended (m := n) (by rw [hn]; simp), hn]
    rfl

theorem runRecursive_endsLike (p : Program) (fuel : Nat) (start : Handle)
    (failures : List Failure) :
    EndsLike p fuel (.initial start failures) (runRecursive p fuel start failures) := by
  have hsim : Simulates p fuel (.initial start failures) [] _ :=
    (exec_simulated p fuel).1 (some start) 0 none ⟨Scopes.initial, [], #[], failures.toArray⟩ []
      (initial_disciplined p start failures)
  unfold runRecursive
  revert hsim
  generalize exec p fuel (some start) 0 none ⟨Scopes.initial, [], #[], failures.toArray⟩ = r
  intro hsim
  rcases r with (w | c | _) | w
  · obtain ⟨s, hs, hstep⟩ := hsim
    obtain ⟨c, hc⟩ := steps_of_reaches (hs.trans (Next.reaches hstep))
    exact ⟨c + 1, by rw [hc, steps_of_done rfl]; rfl⟩
  · obtain ⟨s, hs, hstep⟩ := hsim
    obtain ⟨k, hk⟩ := steps_of_reaches hs
    exact ⟨k + 1, by rw [hk, steps_of_crash hstep]⟩
  · exact hsim
  · obtain ⟨c, hc⟩ := steps_of_reaches hsim
    exact ⟨c + 1, by rw [hc, steps_of_done rfl]⟩

/-- The machine and the recursion end alike, with the same memory, calls, output and failures or
with the same crash, and one of them does not end if the other does not. -/
theorem run_refines_recursion (p : Program) (start : Handle) (failures : List Failure) :
    (∀ s, (∃ n, steps p n (.initial start failures) = .ok (some s)) ↔
        ∃ fuel w, runRecursive p fuel start failures = .ok (some w) ∧ s = w.state []) ∧
      ∀ c, (∃ n, steps p n (.initial start failures) = .error c) ↔
        ∃ fuel, runRecursive p fuel start failures = .error c := by
  have hlike (fuel : Nat) := runRecursive_endsLike p fuel start failures
  refine ⟨fun s => ⟨?_, ?_⟩, fun c => ⟨?_, ?_⟩⟩
  · rintro ⟨n, hn⟩
    have hend := (hlike n).eq_of_ended (by rw [hn]; simp)
    rcases hr : runRecursive p n start failures with c | _ | w
    all_goals rw [hn, hr] at hend; cases hend
    exact ⟨n, w, hr, rfl⟩
  · rintro ⟨fuel, w, hr, rfl⟩
    have hend := hlike fuel
    rw [hr] at hend
    exact hend
  · rintro ⟨n, hn⟩
    have hend := (hlike n).eq_of_ended (by rw [hn]; simp)
    rcases hr : runRecursive p n start failures with c' | _ | w
    all_goals rw [hn, hr] at hend; cases hend
    exact ⟨n, hr⟩
  · rintro ⟨fuel, hr⟩
    have hend := hlike fuel
    rw [hr] at hend
    exact hend

end Flowchart.Machine
