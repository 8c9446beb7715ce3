import Flowchart.Proofs.Graph.Links
import Flowchart.Proofs.Machine.Discipline

/-!
# What follows a task

A task that is carried out puts others on top of the pending ones: visits of the blocks that
come next, at the count of the path they are on, and the tasks that loops and calls come back
to. A task that fails gives up its path instead.
-/

namespace Flowchart.Machine

open Flowchart.Graph

variable {p : Program} {g : Graph} {s s' : State} {t : Task} {n : Node} {f : Failure}

/-! ## Tasks that are carried out -/

/-- The tasks that the task `t` of the block `n` puts on top, at scope depth `depth`. -/
inductive Scheduled (p : Program) (t : Task) (n : Node) (depth : Nat) : List Task → Prop
  /-- The path is at its end. -/
  | ended (ht : t.activity = .visit) : Scheduled p t n depth []
  | plain (h : Option Handle)
      (ht : t.activity = .leave ∨ t.activity = .visit ∧ n.kind ≠ .whileLoop ∧ n.kind ≠ .forLoop) :
      Scheduled p t n depth (visits h t.iteration t.stop)
  /-- The condition of a loop does not hold. -/
  | left (ht : t.activity = .check ∨ t.activity = .visit ∧ n.kind = .whileLoop) :
      Scheduled p t n depth (visits n.onFalse t.iteration t.stop)
  | again {body : Handle} (ht : t.activity = .visit) (hkind : n.kind = .whileLoop)
      (hbody : n.onTrue = some body) (hlimit : t.iteration ≤ p.limits.maxIterations) :
      Scheduled p t n depth
        [{ activity := .visit, node := body, iteration := t.iteration + 1, stop := t.stop },
         { activity := .visit, node := t.node, iteration := t.iteration + 1, stop := t.stop }]
  | opened (ht : t.activity = .visit) (hkind : n.kind = .forLoop)
      (hlimit : t.iteration ≤ p.limits.maxIterations) :
      Scheduled p t n depth [{ t with activity := .check, depth }]
  | repeated (ht : t.activity = .check) (hlimit : t.iteration ≤ p.limits.maxIterations) :
      Scheduled p t n depth
        (visits n.onTrue (t.iteration + 1) t.stop ++ [{ t with activity := .step }])
  | advanced (ht : t.activity = .step) :
      Scheduled p t n depth [{ t with activity := .check, iteration := t.iteration + 1 }]
  | called (h stop : Option Handle) (ht : t.activity = .visit) (hkind : n.kind = .functionCall) :
      Scheduled p t n depth (visits h 0 stop ++ [{ t with activity := .leave, depth }])

/-- `s'` is `s` with the tasks that follow `t` on top, and with the same failures. -/
def CarriedOut (p : Program) (t : Task) (n : Node) (s s' : State) : Prop :=
  ∃ vs, Scheduled p t n s.scopes.depth vs ∧ s'.tasks = vs ++ s.tasks ∧ s'.failures = s.failures

theorem failures_declareAll {names : List String} {f : Option Failure}
    (h : declareAll s names = .ok (s', f)) :
    s'.failures = s.failures := by
  induction names generalizing s with
  | nil =>
    cases h
    rfl
  | cons name rest ih =>
    rcases after_cases h with ⟨m', -, h⟩ | ⟨x, -, rfl, -⟩
    · have hrest := ih h
      exact hrest
    · rfl

theorem failures_executeBlock {f : Option Failure} (h : executeBlock g s n = .ok (s', f)) :
    s'.failures = s.failures := by
  cases executeBlock_cases h with
  | declared _ _ _ _ hdeclare => exact failures_declareAll hdeclare
  | _ => rfl

theorem carriedOut_follow (h : Option Handle) (ht : t.activity = .visit)
    (hwhile : n.kind ≠ .whileLoop) (hfor : n.kind ≠ .forLoop) :
    CarriedOut p t n s (s.follow h t) := by
  rw [follow_eq]
  exact ⟨_, .plain h (Or.inr ⟨ht, hwhile, hfor⟩), rfl, rfl⟩

theorem carriedOut_enterLoop (ht : t.activity = .visit) (hkind : n.kind = .forLoop)
    (hlimit : t.iteration ≤ p.limits.maxIterations) (h : enterLoop s n t = .ok (s', none)) :
    CarriedOut p t n s s' := by
  unfold enterLoop at h
  split at h
  · rcases after_cases h with ⟨m', -, h⟩ | ⟨x, -, -, hx⟩
    · cases h
      exact ⟨_, .opened ht hkind hlimit, rfl, rfl⟩
    · cases hx
  · cases h

theorem carriedOut_call (ht : t.activity = .visit) (hkind : n.kind = .functionCall)
    (h : call p s n t = .ok (s', none)) :
    CarriedOut p t n s s' := by
  unfold call at h
  split at h
  · split_ifs at h
    · cases h
    · cases h
    · cases h
    · split at h
      · cases h
      · rename_i callee _
        obtain ⟨first, -, h⟩ := bind_eq_ok h
        cases h
        rw [visitNext_eq]
        exact ⟨_, .called first.next (some callee.stop) ht hkind, by simp [State.schedule], rfl⟩
  · cases h

theorem carriedOut_whileLoop (ht : t.activity = .visit) (hkind : n.kind = .whileLoop)
    (hlimit : t.iteration ≤ p.limits.maxIterations)
    (h : (branchOn p s n fun holds =>
      if holds then
        match n.onTrue with
        | some body =>
          (s.visitNext (some t.node) (t.iteration + 1) t.stop).visitNext (some body)
            (t.iteration + 1) t.stop
        | none => s
      else s.follow n.onFalse t) = .ok (s', none)) : CarriedOut p t n s s' := by
  rcases branchOn_cases h with ⟨holds, rfl, -⟩ | ⟨x, -, hx⟩
  · cases holds with
    | false =>
      simp only [Bool.false_eq_true, if_false, follow_eq]
      exact ⟨_, .left (Or.inr ⟨ht, hkind⟩), rfl, rfl⟩
    | true =>
      simp only [if_true]
      cases hbody : n.onTrue with
      | none => exact ⟨[], .ended ht, rfl, rfl⟩
      | some body => exact ⟨_, .again ht hkind hbody hlimit, rfl, rfl⟩
  · cases hx

theorem carriedOut_visit (hn : p.graph.node t.node = .ok n) (ht : t.activity = .visit)
    (h : visit p s t = .ok (s', none)) :
    CarriedOut p t n s s' := by
  simp only [visit, hn, bind, Except.bind] at h
  split_ifs at h with hlimit
  · cases h
  · cases h
    exact ⟨[], .ended ht, rfl, rfl⟩
  · cases hk : n.kind <;> simp only [hk] at h
    case start | functionStart | functionEnd | arithmetic | arrayElement =>
      cases h
      exact carriedOut_follow n.next ht (by simp [hk]) (by simp [hk])
    case stop =>
      cases h
      exact ⟨[], .ended ht, rfl, rfl⟩
    case declaration | assignment | output | arrayDeclaration | arrayAssignment =>
      cases hexec : executeBlock p.graph s n with
      | error c => simp [hexec] at h
      | ok r =>
        obtain ⟨s1, _ | x⟩ := r
        · rw [hexec] at h
          cases h
          have hfailures := failures_executeBlock hexec
          rw [follow_eq]
          refine ⟨_, .plain n.next (Or.inr ⟨ht, by simp [hk], by simp [hk]⟩), ?_, hfailures⟩
          rw [(executeBlock_sameStacks hexec).tasks]
        · simp [hexec] at h
    case branch =>
      rcases branchOn_cases h with ⟨holds, rfl, -⟩ | ⟨x, -, hx⟩
      · exact carriedOut_follow _ ht (by simp [hk]) (by simp [hk])
      · cases hx
    case whileLoop => exact carriedOut_whileLoop ht hk (by omega) h
    case forLoop => exact carriedOut_enterLoop ht hk (by omega) h
    case functionCall => exact carriedOut_call ht hk h
    case unknown => cases h

theorem carriedOut_checkLoop (hn : p.graph.node t.node = .ok n) (ht : t.activity = .check)
    (h : checkLoop p s t = .ok (s', none)) : CarriedOut p t n s s' := by
  simp only [checkLoop, hn, bind, Except.bind] at h
  split_ifs at h with hlimit
  · cases h
  · split at h
    · rcases after_cases h with ⟨holds, -, h⟩ | ⟨x, -, -, hx⟩
      · split_ifs at h
        · cases h
          rw [visitNext_eq]
          exact ⟨_, .repeated ht (by omega), by simp [State.schedule], rfl⟩
        · cases h
          rw [follow_eq]
          exact ⟨_, .left (Or.inl ht), rfl, rfl⟩
      · cases hx
    · cases h

theorem carriedOut_stepLoop (hn : p.graph.node t.node = .ok n) (ht : t.activity = .step)
    (h : stepLoop p s t = .ok (s', none)) : CarriedOut p t n s s' := by
  simp only [stepLoop, hn, bind, Except.bind] at h
  split at h
  · rcases after_cases h with ⟨m', -, h⟩ | ⟨x, -, -, hx⟩
    · cases h
      exact ⟨_, .advanced ht, rfl, rfl⟩
    · cases hx
  · cases h

theorem leaveCall_eq_ok (h : leaveCall p s t = .ok s') : ∃ n, p.graph.node t.node = .ok n ∧
    s' = { s with
      tasks := visits n.next t.iteration t.stop ++ s.tasks
      scopes := s.scopes.unwind t.depth
      calls := s.calls.tail } := by
  obtain ⟨n, hn, h⟩ := bind_eq_ok h
  rw [follow_eq] at h
  cases h
  exact ⟨n, hn, rfl⟩

theorem perform_carriedOut (hn : p.graph.node t.node = .ok n) (h : perform p s t = .ok (s', none)) :
    CarriedOut p t n s s' := by
  unfold perform at h
  cases ht : t.activity <;> simp only [ht] at h
  case visit => exact carriedOut_visit hn ht h
  case check => exact carriedOut_checkLoop hn ht h
  case step => exact carriedOut_stepLoop hn ht h
  case leave =>
    obtain ⟨s1, hleave, h⟩ := bind_eq_ok h
    obtain ⟨m, hm, rfl⟩ := leaveCall_eq_ok hleave
    cases h
    exact ⟨_, .plain m.next (Or.inl ht), rfl, rfl⟩

/-! ## Paths that are given up -/

/-- The path on top of the tasks `ts` is given up: the innermost call returns, and outside of all
calls nothing is left to do. -/
inductive GivesUp (p : Program) (ts : List Task) : List Task → Prop
  | all (hnone : innermostCall ts = none) : GivesUp p ts []
  | call {ret : Task} {below : List Task} {m : Node} (hcall : innermostCall ts = some (ret, below))
      (hm : p.graph.node ret.node = .ok m) :
      GivesUp p ts (visits m.next ret.iteration ret.stop ++ below)

theorem abandon_eq_ok (hn : p.graph.node t.node = .ok n) (h : s.abandon p t f = .ok s') :
    GivesUp p s.tasks s'.tasks ∧ s'.failures = s.failures.push (f.atBlock n.id) ∧
      s'.output = s.output := by
  have hnode : p.graph.node? t.node = some n := node_eq_ok_iff.mp hn
  simp only [State.abandon, hnode] at h
  split at h
  · rename_i ret below hcall
    obtain ⟨m, hm, rfl⟩ := leaveCall_eq_ok h
    exact ⟨.call hcall hm, rfl, rfl⟩
  · rename_i hnone
    cases h
    exact ⟨.all hnone, rfl, rfl⟩

end Flowchart.Machine
