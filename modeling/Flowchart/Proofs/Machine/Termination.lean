import Flowchart.Proofs.Machine.Refinement
import Flowchart.Proofs.Machine.Safety

/-!
# Runs that end

A run ends if the links it follows without counting an iteration form no cycle. The
measure stands on the recursive execution: a call uses up one of the calls that may still
be nested, a loop body one of the iterations that are left, and every other link leads to
a block of a smaller height. Only the blocks that a run can come to matter.
-/

namespace Flowchart.Machine

open Flowchart.Graph Relation

/-! ## Recursions that come to an end -/

/-- The recursion came to an end, with the same calls active as before. -/
def Ended (calls : List String) : Except Halt World → Prop
  | .ok w => w.calls = calls
  | .error (.failed w) => w.calls = calls
  | .error (.crashed _) => True
  | .error .unfinished => False

section Ended

variable {calls : List String} {w : World} {n : Node}

theorem ended_bind {r : Except Halt World} {k : World → Except Halt World} (hr : Ended calls r)
    (hk : ∀ w, w.calls = calls → Ended calls (k w)) : Ended calls (r >>= k) := by
  rcases r with (w | c | _) | w
  · exact hr
  · exact hr
  · exact hr
  · exact hk w hr

theorem ended_resume {name : String} {r : Except Halt World} {k : World → Except Halt World}
    (hr : Ended (name :: calls) r) (hk : ∀ w, w.calls = name :: calls → Ended calls (k w)) :
    Ended calls (resume r k) := by
  rcases r with (w | c | _) | w
  · exact hk w hr
  · exact trivial
  · exact hr
  · exact hk w hr

theorem ended_get {α : Type} {a : Attempt α} {k : α → Except Halt World}
    (hk : ∀ x, Ended w.calls (k x)) : Ended w.calls (w.get n a >>= k) := by
  rcases a with (f | c) | x
  · rfl
  · exact trivial
  · exact hk x

theorem ended_holds {g : Graph} {k : Bool → Except Halt World}
    (hk : ∀ holds, Ended w.calls (k holds)) :
    Ended w.calls (w.holds g n >>= k) := by
  unfold World.holds
  split
  · exact ended_get hk
  · exact trivial

theorem ended_repeats {g : Graph} {k : Bool → Except Halt World}
    (hk : ∀ holds, Ended w.calls (k holds)) :
    Ended w.calls (w.repeats g n >>= k) := by
  unfold World.repeats
  split
  · split_ifs
    · exact hk false
    · exact ended_get hk
  · exact trivial

theorem ended_execute {g : Graph} : Ended w.calls (w.execute g n) := by
  unfold World.execute
  split
  · rename_i s hexec
    exact (executeBlock_sameStacks hexec).calls
  · rename_i s f hexec
    exact (executeBlock_sameStacks hexec).calls
  · exact trivial

theorem ended_enterLoop : Ended w.calls (w.enterLoop n) := by
  unfold World.enterLoop
  split
  · simp only
    split_ifs
    · rfl
    · exact ended_get (w := { w with scopes := _ }) fun scopes => rfl
  · exact trivial

theorem ended_advance : Ended w.calls (w.advance n) := by
  unfold World.advance
  split
  · split_ifs
    · rfl
    · exact ended_get fun scopes => rfl
  · exact trivial

theorem ended_callee {p : Program} {k : String × Function → Except Halt World}
    (hk : ∀ name f, p.functions.get? name = some f → w.calls.length < p.limits.maxCallDepth →
      Ended w.calls (k (name, f))) : Ended w.calls (w.callee p n >>= k) := by
  unfold World.callee
  split
  · rename_i name _
    split_ifs with hname hroom hactive
    · rfl
    · rfl
    · rfl
    · split
      · rfl
      · rename_i f hf
        exact hk name f hf (by omega)
  · exact trivial

end Ended

/-! ## The measure -/

/-- What is left of the nested calls and, in the innermost of them, of the iterations. -/
def budget (p : Program) (calls k : Nat) : Nat :=
  (p.limits.maxCallDepth - calls) * (p.limits.maxIterations + 2) + (p.limits.maxIterations + 1 - k)

theorem budget_iteration {p : Program} {calls k : Nat} (hk : k ≤ p.limits.maxIterations) :
    budget p calls (k + 1) < budget p calls k := by
  unfold budget
  omega

theorem budget_call {p : Program} {calls : Nat} (k : Nat) (hroom : calls < p.limits.maxCallDepth) :
    budget p (calls + 1) 0 < budget p calls k := by
  unfold budget
  have hsplit : p.limits.maxCallDepth - calls = p.limits.maxCallDepth - (calls + 1) + 1 := by omega
  rw [hsplit, Nat.add_mul]
  omega

/-- How deep the recursion may still go from a given place among the blocks. -/
def depthLeft (p : Program) (calls k place : Nat) : Nat :=
  budget p calls k * (2 * p.graph.size + 2) + place

theorem depthLeft_lt {p : Program} {calls calls' k k' place : Nat} (place' : Nat)
    (hbudget : budget p calls' k' < budget p calls k) (hplace : place < 2 * p.graph.size + 2) :
    depthLeft p calls' k' place < depthLeft p calls k place' := by
  unfold depthLeft
  have hmul : (budget p calls' k' + 1) * (2 * p.graph.size + 2) ≤
      budget p calls k * (2 * p.graph.size + 2) :=
    Nat.mul_le_mul_right _ hbudget
  rw [Nat.add_mul] at hmul
  omega

noncomputable def plainHeight (g : Graph) (h : Handle) : Nat := height (PlainLink g) g.size h

noncomputable def visitPlace (g : Graph) : Option Handle → Nat
  | none => 1
  | some h => 2 * plainHeight g h + 1

@[simp] theorem visitPlace_none (g : Graph) : visitPlace g none = 1 := rfl

@[simp] theorem visitPlace_some (g : Graph) (h : Handle) :
    visitPlace g (some h) = 2 * plainHeight g h + 1 := rfl

/-- Between the place of a counting loop and those of the blocks behind it. -/
noncomputable def loopPlace (g : Graph) (h : Handle) : Nat := 2 * plainHeight g h

theorem visitPlace_lt (g : Graph) (h : Option Handle) : visitPlace g h < 2 * g.size + 2 := by
  cases h with
  | none => simp
  | some h =>
    have hle : plainHeight g h ≤ g.size := height_le
    rw [visitPlace_some]
    omega

theorem loopPlace_lt (g : Graph) (h : Handle) : loopPlace g h < 2 * g.size + 2 := by
  have hle : plainHeight g h ≤ g.size := height_le
  unfold loopPlace
  omega

theorem visitPlace_lt_loopPlace {g : Graph} {h : Handle} {n : Node} {next : Option Handle}
    (hn : g.node h = .ok n) (hcycle : ¬ TransGen (PlainLink g) h h)
    (hnext : ∀ x, next = some x → PlainLink g h x) :
    visitPlace g next < loopPlace g h := by
  have hpos : 0 < plainHeight g h := height_pos (lt_size_of_node hn)
  unfold loopPlace
  cases next with
  | none =>
    rw [visitPlace_none]
    omega
  | some x =>
    have hlt : plainHeight g x < plainHeight g h :=
      height_lt (hnext x rfl) (lt_size_of_node hn) hcycle
    rw [visitPlace_some]
    omega

/-! ## Recursion within a region -/

/-- Blocks that are never left, with the functions that may be called, and without a cycle of
plain links. -/
structure Region (p : Program) (inside : Handle → Prop) : Prop where
  links : ∀ h h', inside h → ControlLink p.graph h h' → inside h'
  functions : ∀ name f, p.functions.get? name = some f → inside f.start
  acyclic : ∀ h, inside h → ¬ TransGen (PlainLink p.graph) h h

def ExecEnds (p : Program) (inside : Handle → Prop) (fuel : Nat) : Prop :=
  ∀ h k stop w, (∀ x, h = some x → inside x) →
    depthLeft p w.calls.length k (visitPlace p.graph h) ≤ fuel →
    Ended w.calls (exec p fuel h k stop w)

def LoopEnds (p : Program) (inside : Handle → Prop) (fuel : Nat) : Prop :=
  ∀ h n j stop depth w, p.graph.node h = .ok n → n.kind = .forLoop → inside h →
    depthLeft p w.calls.length j (loopPlace p.graph h) ≤ fuel →
    Ended w.calls (execLoop p fuel n j stop depth w)

section Region

variable {p : Program} {inside : Handle → Prop} {fuel : Nat} {h : Handle} {n : Node} {k : Nat}
  {stop : Option Handle} {w w' : World}

theorem ended_plain (hr : Region p inside) (ih : ExecEnds p inside fuel)
    (hn : p.graph.node h = .ok n) (hh : inside h)
    (hfuel : depthLeft p w.calls.length k (loopPlace p.graph h) ≤ fuel + 1) {next : Option Handle}
    (hnext : ∀ x, next = some x → PlainLink p.graph h x) (hw : w'.calls = w.calls) :
    Ended w.calls (exec p fuel next k stop w') := by
  have hlt := visitPlace_lt_loopPlace hn (hr.acyclic h hh) hnext
  rw [← hw] at hfuel ⊢
  refine ih next k stop w' ?_ ?_
  · intro x hx
    exact hr.links h x hh (hnext x hx).control
  · unfold depthLeft at hfuel ⊢
    omega

theorem ended_body (ih : ExecEnds p inside fuel) (hk : k ≤ p.limits.maxIterations) {place : Nat}
    (hfuel : depthLeft p w.calls.length k place ≤ fuel + 1) {next : Option Handle}
    (hnext : ∀ x, next = some x → inside x) (hw : w'.calls = w.calls) :
    Ended w.calls (exec p fuel next (k + 1) stop w') := by
  have hlt : depthLeft p w.calls.length (k + 1) (visitPlace p.graph next) <
      depthLeft p w.calls.length k place :=
    depthLeft_lt place (budget_iteration hk) (visitPlace_lt p.graph next)
  rw [← hw] at hfuel hlt ⊢
  exact ih next (k + 1) stop w' hnext (by omega)

theorem ended_call (hr : Region p inside) (ih : ExecEnds p inside fuel)
    (hn : p.graph.node h = .ok n) (hh : inside h) (hkind : n.kind = .functionCall)
    (hfuel : depthLeft p w.calls.length k (loopPlace p.graph h) ≤ fuel + 1) :
    Ended w.calls (do
      let (name, f) ← w.callee p n
      let first ← blockAt p f.start
      resume (exec p fuel first.next 0 (some f.stop) (w.enterCall name)) fun body =>
        exec p fuel n.next k stop (body.leaveCall w.scopes.depth)) := by
  refine ended_callee fun name f hf hroom => ?_
  simp only [blockAt]
  cases hfirst : p.graph.node f.start with
  | error c => exact trivial
  | ok first =>
    have hbody :
        Ended (name :: w.calls) (exec p fuel first.next 0 (some f.stop) (w.enterCall name)) := by
      refine ih first.next 0 _ (w.enterCall name) ?_ ?_
      · intro x hx
        exact hr.links f.start x (hr.functions name f hf) ⟨first, hfirst, Or.inl hx⟩
      · have hlt :=
          depthLeft_lt (loopPlace p.graph h) (budget_call k hroom)
            (visitPlace_lt p.graph first.next)
        have hlen : (w.enterCall name).calls.length = w.calls.length + 1 := rfl
        rw [hlen]
        omega
    refine ended_resume hbody fun body hcalls => ?_
    refine ended_plain hr ih hn hh hfuel ?_ ?_
    · intro x hx
      exact ⟨n, hn, Or.inl ⟨hx, by simp [hkind]⟩⟩
    · simp [World.leaveCall, hcalls]

theorem execEnds_succ (hr : Region p inside) (ihe : ExecEnds p inside fuel)
    (ihl : LoopEnds p inside fuel) :
    ExecEnds p inside (fuel + 1) := by
  intro h k stop w hinside hfuel
  cases h with
  | none =>
    rw [exec]
    rfl
  | some h =>
    have hh : inside h := hinside h rfl
    rw [exec, blockAt]
    cases hn : p.graph.node h with
    | error c => exact trivial
    | ok n =>
      change Ended w.calls (if _ then _ else _)
      split_ifs with hk hstop
      · rfl
      · rfl
      have hloop : depthLeft p w.calls.length k (loopPlace p.graph h) ≤ fuel := by
        rw [visitPlace_some] at hfuel
        unfold depthLeft at hfuel ⊢
        unfold loopPlace
        omega
      have hbranch (x : Handle) (hx : n.onFalse = some x)
          (hkind : n.kind = .branch ∨ n.kind = .whileLoop ∨ n.kind = .forLoop) :
          PlainLink p.graph h x :=
        ⟨n, hn, Or.inr (Or.inr ⟨hx, hkind⟩)⟩
      cases hkind : n.kind
      all_goals simp only
      case start | functionStart | functionEnd | arithmetic | arrayElement =>
        refine ended_plain hr ihe hn hh (by omega) ?_ rfl
        intro x hx
        exact ⟨n, hn, Or.inl ⟨hx, by simp [hkind]⟩⟩
      case declaration | assignment | output | arrayDeclaration | arrayAssignment =>
        refine ended_bind ended_execute fun w' hw' => ?_
        refine ended_plain hr ihe hn hh (by omega) ?_ hw'
        intro x hx
        exact ⟨n, hn, Or.inl ⟨hx, by simp [hkind]⟩⟩
      case stop => rfl
      case unknown => rfl
      case branch =>
        refine ended_holds fun holds => ?_
        refine ended_plain hr ihe hn hh (by omega) ?_ rfl
        intro x hx
        cases holds with
        | true => exact ⟨n, hn, Or.inr (Or.inl ⟨hx, hkind⟩)⟩
        | false => exact hbranch x hx (Or.inl hkind)
      case whileLoop =>
        refine ended_holds fun holds => ?_
        cases holds with
        | false =>
          refine ended_plain hr ihe hn hh (by omega) ?_ rfl
          intro x hx
          exact hbranch x hx (Or.inr (Or.inl hkind))
        | true =>
          simp only [if_true]
          cases hbody : n.onTrue with
          | none => rfl
          | some body =>
            have hinto : inside body := hr.links h body hh ⟨n, hn, Or.inr (Or.inl hbody)⟩
            refine ended_bind ?_ fun w' hw' => ?_
            · exact ended_body ihe (by omega) hfuel (by simpa using hinto) rfl
            · exact ended_body ihe (by omega) hfuel (by simpa using hh) hw'
      case forLoop =>
        refine ended_bind ended_enterLoop fun w' hw' => ?_
        rw [← hw'] at hloop ⊢
        exact ihl h n k stop _ w' hn hkind hh hloop
      case functionCall => exact ended_call hr ihe hn hh hkind (by omega)

theorem loopEnds_succ (hr : Region p inside) (ihe : ExecEnds p inside fuel)
    (ihl : LoopEnds p inside fuel) :
    LoopEnds p inside (fuel + 1) := by
  intro h n j stop depth w hn hkind hh hfuel
  rw [execLoop]
  split_ifs with hj
  · rfl
  refine ended_repeats fun holds => ?_
  cases holds with
  | false =>
    refine ended_plain hr ihe hn hh hfuel ?_ rfl
    intro x hx
    exact ⟨n, hn, Or.inr (Or.inr ⟨hx, Or.inr (Or.inr hkind)⟩)⟩
  | true =>
    simp only [if_true]
    refine ended_bind ?_ fun body hbody => ?_
    · refine ended_body ihe (by omega) hfuel ?_ rfl
      intro x hx
      exact hr.links h x hh ⟨n, hn, Or.inr (Or.inl hx)⟩
    · rw [← hbody]
      refine ended_bind ended_advance fun w' hw' => ?_
      have hbudget : budget p w.calls.length (j + 1) < budget p w.calls.length j :=
        budget_iteration (by omega)
      have hlt := depthLeft_lt (loopPlace p.graph h) hbudget (loopPlace_lt p.graph h)
      rw [← hbody, ← hw'] at hlt hfuel
      rw [← hw']
      exact ihl h n (j + 1) stop depth w' hn hkind hh (by omega)

theorem exec_ends (hr : Region p inside) (fuel : Nat) :
    ExecEnds p inside fuel ∧ LoopEnds p inside fuel := by
  induction fuel with
  | zero =>
    constructor
    · intro h k stop w _ hfuel
      have hpos : 0 < visitPlace p.graph h := by cases h <;> simp [visitPlace]
      unfold depthLeft at hfuel
      omega
    · intro h n j stop depth w hn _ _ hfuel
      have hpos : 0 < plainHeight p.graph h := height_pos (lt_size_of_node hn)
      unfold depthLeft loopPlace at hfuel
      omega
  | succ fuel ih => exact ⟨execEnds_succ hr ih.1 ih.2, loopEnds_succ hr ih.1 ih.2⟩

end Region

/-! ## Whole runs -/

theorem EndsLike.ended {p : Program} {fuel : Nat} {s : State} {r : Except Crash (Option World)}
    (h : EndsLike p fuel s r) (hr : r ≠ .ok none) : ∃ n, steps p n s ≠ .ok none := by
  rcases r with c | _ | w
  · obtain ⟨n, hn⟩ := h
    exact ⟨n, by simp [hn]⟩
  · exact absurd rfl hr
  · obtain ⟨n, hn⟩ := h
    exact ⟨n, by simp [hn]⟩

/-- A run that stays in a region without a cycle of plain links ends. -/
theorem steps_end {p : Program} {inside : Handle → Prop} {start : Handle} (hr : Region p inside)
    (hstart : inside start) (failures : List Failure) :
    ∃ n, steps p n (.initial start failures) ≠ .ok none := by
  let fuel := depthLeft p 0 0 (visitPlace p.graph (some start))
  have hended :
      Ended [] (exec p fuel (some start) 0 none ⟨Scopes.initial, [], #[], failures.toArray⟩) :=
    (exec_ends hr fuel).1 (some start) 0 none _ (by simpa using hstart) (Nat.le_refl _)
  refine (runRecursive_endsLike p fuel start failures).ended ?_
  unfold runRecursive
  revert hended
  rcases exec p fuel (some start) 0 none ⟨Scopes.initial, [], #[], failures.toArray⟩ with
    (w | c | _) | w
  all_goals simp [Ended]

/-- The run has ended: no task is left, or it was stopped at an array that is too large. -/
def EndsOrOverflows (p : Program) (s : State) : Prop :=
  ∃ n, (∃ s', steps p n s = .ok (some s') ∧ s'.tasks = []) ∨
    steps p n s = .error .allocation ∧ ∃ s', Reaches p s s' ∧ Overflows p s'

theorem endsOrOverflows {p : Program} {P : Cause → Prop} {inside : Handle → Prop} {start : Handle}
    (hready : Ready p P) (hr : Region p inside) (hstart : inside start)
    (hblock : start < p.graph.size) (failures : List Failure) :
    EndsOrOverflows p (.initial start failures) := by
  obtain ⟨n, hn⟩ := steps_end hr hstart failures
  refine ⟨n, ?_⟩
  rcases hsteps : steps p n (.initial start failures) with c | _ | s
  · obtain ⟨rfl, s, hreaches, -, hover⟩ := overflows_of_crash hready hblock hsteps
    exact Or.inr ⟨rfl, s, hreaches, hover⟩
  · exact absurd hsteps hn
  · exact Or.inl ⟨s, rfl, (reaches_of_steps hsteps).2⟩

/-- Without a cycle of plain links every run ends, whatever its functions call and within any
limits: no task is left, unless an array too large for any memory is declared. -/
theorem acyclic_runs_end (records : List Record) (g : Graph) (hbuild : build records = .ok g)
    (hacyclic : ∀ h, ¬ TransGen (PlainLink g) h h) :
    ∃ functions, Functions.ofGraph g = .ok functions ∧ ∀ limits start, g.start = some start →
      EndsOrOverflows ⟨g, functions.table, limits⟩ (.initial start functions.failures) := by
  have hg := linked_of_build hbuild
  obtain ⟨functions, hfunctions, hfound⟩ := Functions.ofGraph_found hg
  refine ⟨functions, hfunctions, fun limits start hstart => ?_⟩
  have hready := ready_of_found hg (permits_all hg) hfound limits
  have hregion : Region ⟨g, functions.table, limits⟩ fun _ => True :=
    ⟨fun _ _ _ _ => trivial, fun _ _ _ => trivial, fun h _ => hacyclic h⟩
  exact endsOrOverflows hready hregion trivial (hg.start start hstart) functions.failures

/-- Two functions that call each other, the first one from the body of a loop. -/
def mutualCalls : List Record :=
  [{ id := "start", type := "start", next := "loop" },
   { id := "loop", type := "while", onTrue := "call", data := { condition := "1 < 2" } },
   { id := "call", type := "functionCall", data := { functionName := "f" } },
   { id := "f", type := "functionStart", next := "callG", data := { functionName := "f" } },
   { id := "callG", type := "functionCall", next := "endF", data := { functionName := "g" } },
   { id := "endF", type := "functionEnd" },
   { id := "g", type := "functionStart", next := "callF", data := { functionName := "g" } },
   { id := "callF", type := "functionCall", next := "endG", data := { functionName := "f" } },
   { id := "endG", type := "functionEnd" }]

theorem acyclic_runs_end_mutualCalls :
    ∃ g functions, build mutualCalls = .ok g ∧ Functions.ofGraph g = .ok functions ∧
      functions.table.keys = ["f", "g"] ∧
      EndsOrOverflows ⟨g, functions.table, .standard⟩ (.initial 0 functions.failures) := by
  obtain ⟨g, hbuild⟩ : ∃ g, build mutualCalls = .ok g := ⟨_, rfl⟩
  have hforward : g.forward := by
    cases hbuild
    decide
  have hstart : g.start = some 0 := by
    cases hbuild
    rfl
  obtain ⟨functions, hfunctions, hends⟩ :=
    acyclic_runs_end mutualCalls g hbuild (acyclic_of_forward hforward)
  refine ⟨g, functions, hbuild, hfunctions, ?_, hends .standard 0 hstart⟩
  cases hbuild
  cases hfunctions
  rfl

/-- The second case of `EndsOrOverflows` is real: no number of steps leads to a state without
tasks. -/
theorem vastArray_never_done :
    ∃ g functions, build vastArray = .ok g ∧ (∀ h, ¬ TransGen (PlainLink g) h h) ∧
      g.start = some 0 ∧
      Functions.ofGraph g = .ok functions ∧
      ∀ n s, steps ⟨g, functions.table, .standard⟩ n (.initial 0 functions.failures) ≠
        .ok (some s) := by
  obtain ⟨g, hbuild⟩ : ∃ g, build vastArray = .ok g := ⟨_, rfl⟩
  obtain ⟨functions, hfunctions, -⟩ := Functions.ofGraph_found (linked_of_build hbuild)
  refine ⟨g, functions, hbuild, acyclic_of_forward ?_, ?_, hfunctions, ?_⟩
  · cases hbuild
    decide
  · cases hbuild
    rfl
  · intro n s hs
    have hcrash : steps ⟨g, functions.table, .standard⟩ 2 (.initial 0 functions.failures) =
        .error .allocation := by
      cases hbuild
      cases hfunctions
      rfl
    have heq := steps_unique (hs.trans_ne (by simp)) (hcrash.trans_ne (by simp))
    simp [hs, hcrash] at heq

end Flowchart.Machine
