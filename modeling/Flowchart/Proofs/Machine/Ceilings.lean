import Flowchart.Proofs.Machine.Renaming

/-!
# Higher ceilings

A ceiling makes itself felt only by the failure it is recorded with. A run in which no such
failure is recorded makes the same steps under higher ceilings and ends with the same result.
-/

namespace Flowchart

instance : LE Limits where
  le l l' := l.maxIterations ≤ l'.maxIterations ∧ l.maxCallDepth ≤ l'.maxCallDepth

/-- Too many iterations, calls nested too deep, or a call of a function that is active. -/
def Failure.AtCeiling (f : Failure) : Prop := f.kind = .iterationLimit ∨ f.kind = .recursion

end Flowchart

namespace Flowchart.Machine

def Program.withLimits (p : Program) (limits : Limits) : Program := { p with limits }

variable {p : Program} {l : Limits} {s s' : State} {t : Task} {n : Node} {f : Option Failure}

/-! ## Tasks -/

theorem iteration_raised (hle : p.limits ≤ l) {k : Nat} (h : ¬ p.limits.maxIterations < k) :
    ¬ (p.withLimits l).limits.maxIterations < k := by
  have hmax : p.limits.maxIterations ≤ l.maxIterations := hle.1
  simp only [Program.withLimits]
  omega

theorem callDepth_raised (hle : p.limits ≤ l) {k : Nat} (h : ¬ p.limits.maxCallDepth ≤ k) :
    ¬ (p.withLimits l).limits.maxCallDepth ≤ k := by
  have hmax : p.limits.maxCallDepth ≤ l.maxCallDepth := hle.2
  simp only [Program.withLimits]
  omega

theorem atCeiling_of_failing {c : Cause} (hc : c.kind = .iterationLimit ∨ c.kind = .recursion)
    (h : s.failing c = .ok (s', f)) : ∃ x, f = some x ∧ x.AtCeiling := by
  cases h
  exact ⟨_, rfl, hc⟩

theorem checkLoop_raised (hle : p.limits ≤ l) (hf : ¬ ∃ x, f = some x ∧ x.AtCeiling)
    (h : checkLoop p s t = .ok (s', f)) : checkLoop (p.withLimits l) s t = .ok (s', f) := by
  obtain ⟨n, hn, h⟩ := bind_eq_ok h
  have hn' : (p.withLimits l).graph.node t.node = .ok n := hn
  simp only at h
  split_ifs at h with hlimit
  · exact absurd (atCeiling_of_failing (Or.inl rfl) h) hf
  · simp only [checkLoop, hn', bind, Except.bind, if_neg (iteration_raised hle hlimit)]
    exact h

theorem call_raised (hle : p.limits ≤ l) (hf : ¬ ∃ x, f = some x ∧ x.AtCeiling)
    (h : call p s n t = .ok (s', f)) : call (p.withLimits l) s n t = .ok (s', f) := by
  unfold call at h ⊢
  split at h
  · split_ifs at h with hname hdepth hactive
    · rwa [if_pos hname]
    · exact absurd (atCeiling_of_failing (Or.inr rfl) h) hf
    · exact absurd (atCeiling_of_failing (Or.inr rfl) h) hf
    · rw [if_neg hname, if_neg (callDepth_raised hle hdepth), if_neg hactive]
      exact h
  · cases h

theorem visit_raised (hle : p.limits ≤ l) (hf : ¬ ∃ x, f = some x ∧ x.AtCeiling)
    (h : visit p s t = .ok (s', f)) : visit (p.withLimits l) s t = .ok (s', f) := by
  obtain ⟨n, hn, h⟩ := bind_eq_ok h
  have hn' : (p.withLimits l).graph.node t.node = .ok n := hn
  by_cases hlimit : p.limits.maxIterations < t.iteration
  · rw [if_pos hlimit] at h
    exact absurd (atCeiling_of_failing (Or.inl rfl) h) hf
  · simp only [visit, hn', bind, Except.bind, if_neg (iteration_raised hle hlimit)]
    rw [if_neg hlimit] at h
    split_ifs at h ⊢
    · exact h
    · -- Calls are the only blocks that look at the limits.
      cases hk : n.kind <;> simp only [hk] at h ⊢
      case functionCall => exact call_raised hle hf h
      all_goals exact h

theorem perform_raised (hle : p.limits ≤ l) (hf : ¬ ∃ x, f = some x ∧ x.AtCeiling)
    (h : perform p s t = .ok (s', f)) : perform (p.withLimits l) s t = .ok (s', f) := by
  unfold perform at h ⊢
  cases ht : t.activity <;> simp only [ht] at h ⊢
  case visit => exact visit_raised hle hf h
  case check => exact checkLoop_raised hle hf h
  case step => exact h
  case leave => exact h

/-! ## Failures stay recorded -/

theorem failures_of_next (h : Next p s s') : ∀ f ∈ s.failures, f ∈ s'.failures := by
  -- The failures of `s` could as well have been reported before the run.
  let fresh : State := { s with failures := #[] }
  have hs : fresh.renamed id s.failures.toList = s := by
    have htask : Task.renamed id = id := by
      funext t
      simp [Task.renamed]
    simp [fresh, State.renamed, htask]
  have hstep : step p (fresh.renamed id s.failures.toList) = _ := step_renamed p.renamed_refl fresh
  rw [hs, h] at hstep
  obtain ⟨r, -, hr⟩ := map_eq_ok hstep.symm
  obtain ⟨s1, -, rfl⟩ := Option.map_eq_some_iff.mp hr
  intro f hf
  simpa [State.renamed] using Or.inl hf

theorem failures_of_reaches (h : Reaches p s s') : ∀ f ∈ s.failures, f ∈ s'.failures :=
  h.invariant (I := fun x => ∀ f ∈ s.failures, f ∈ x.failures) (fun _ hf => hf)
    fun _ _ hnext ih f hf => failures_of_next hnext f (ih f hf)

theorem failure_of_abandon {f : Failure} (h : s.abandon p t f = .ok s') :
    ∃ x ∈ s'.failures, x.kind = f.kind := by
  have hblamed : ∃ x ∈ (s.blaming p t f).failures, x.kind = f.kind := by
    refine ⟨_, Array.mem_push_self, ?_⟩
    split
    · exact Failure.kind_atBlock f _
    · rfl
  rw [abandon_eq, State.fallBack] at h
  split at h
  · obtain ⟨n, -, h⟩ := bind_eq_ok h
    rw [follow_eq] at h
    cases h
    exact hblamed
  · cases h
    exact hblamed

/-! ## Runs -/

theorem next_raised (hle : p.limits ≤ l) (h : Next p s s') (hs : ∀ f ∈ s'.failures, ¬ f.AtCeiling) :
    Next (p.withLimits l) s s' := by
  obtain ⟨t, rest, s1, f, ht, hperform, hend⟩ := next_cases h
  have hf : ¬ ∃ x, f = some x ∧ x.AtCeiling := by
    rintro ⟨x, rfl, hx⟩
    obtain ⟨y, hy, hkind⟩ := failure_of_abandon hend
    refine hs y hy ?_
    rwa [Failure.AtCeiling, hkind]
  exact next_of_performed ht hend (perform_raised hle hf hperform)

theorem steps_raised (hle : p.limits ≤ l) {k : Nat} (h : steps p k s = .ok (some s'))
    (hs : ∀ f ∈ s'.failures, ¬ f.AtCeiling) : steps (p.withLimits l) k s = .ok (some s') := by
  induction k generalizing s with
  | zero => simp [steps] at h
  | succ k ih =>
    rcases steps_succ_cases p k s with ⟨hdone, hk⟩ | ⟨c, -, hk⟩ | ⟨s1, hnext, hk⟩
    · rw [← h, hk]
      exact steps_of_done hdone k
    · simp [hk] at h
    · rw [hk] at h
      have hlater := failures_of_reaches (reaches_of_steps h).1
      have hnext' := next_raised hle hnext fun f hf => hs f (hlater f hf)
      rw [steps_of_next hnext', ih h]

theorem runGraph_raised {l l' : Limits} (hle : l ≤ l') {fuel : Nat} {g : Graph} {r : Result}
    (h : (⟨l, fuel⟩ : Interpreter).runGraph g = .ok (some r))
    (hr : ∀ f ∈ r.failures, ¬ f.AtCeiling) :
    (⟨l', fuel⟩ : Interpreter).runGraph g = .ok (some r) := by
  unfold Interpreter.runGraph at h ⊢
  cases hstart : g.start with
  | none =>
    rw [hstart] at h
    exact h
  | some start =>
    simp only [hstart] at h ⊢
    obtain ⟨fs, hfs, h⟩ := bind_eq_ok h
    obtain ⟨final, hsteps, h⟩ := bind_eq_ok h
    cases final with
    | none => cases h
    | some s =>
      obtain ⟨vars, hvars, h⟩ := bind_eq_ok h
      obtain ⟨arrays, harrays, h⟩ := bind_eq_ok h
      cases h
      have hle' : (⟨g, fs.table, l⟩ : Program).limits ≤ l' := hle
      have hsteps' : steps ⟨g, fs.table, l'⟩ fuel (.initial start fs.failures) = .ok (some s) :=
        steps_raised hle' hsteps fun f hf => hr f (by simpa using hf)
      simp only [hfs, hsteps', hvars, harrays, bind, Except.bind]
      rfl

/-- Ceilings that no failure was recorded for may be raised: the run ends after as many steps and
with the same result, for every graph and for every list of records. -/
theorem raised_ceilings_are_invisible (l l' : Limits) (hle : l ≤ l') (fuel : Nat) (r : Result)
    (hr : ∀ f ∈ r.failures, f.kind ≠ .iterationLimit ∧ f.kind ≠ .recursion) :
    (∀ g, (⟨l, fuel⟩ : Interpreter).runGraph g = .ok (some r) →
      (⟨l', fuel⟩ : Interpreter).runGraph g = .ok (some r)) ∧
    ∀ records, (⟨l, fuel⟩ : Interpreter).execute records = .finished r →
      (⟨l', fuel⟩ : Interpreter).execute records = .finished r := by
  have hfree : ∀ f ∈ r.failures, ¬ f.AtCeiling := fun f hf => not_or.mpr (hr f hf)
  refine ⟨fun g h => runGraph_raised hle h hfree, fun records h => ?_⟩
  unfold Interpreter.execute at h ⊢
  cases hb : Graph.build records with
  | error f =>
    rw [hb] at h
    exact h
  | ok g =>
    simp only [hb] at h ⊢
    split at h
    · rename_i r0 hrun
      cases h
      rw [runGraph_raised hle hrun hfree]
    · cases h
    · cases h

/-- A loop calls a function once: one iteration and one call are just enough. -/
def callInLoop : List Record :=
  [{ id := "start", type := "start", next := "x" },
   { id := "x", type := "variable", next := "loop", data := { variableName := "x" } },
   { id := "loop", type := "while", onTrue := "call", data := { condition := "x < 1" } },
   { id := "call", type := "functionCall", data := { functionName := "f" } },
   { id := "f", type := "functionStart", next := "set", data := { functionName := "f" } },
   { id := "set", type := "assignment", next := "end",
     data := { variableName := "x", value := "1" } },
   { id := "end", type := "functionEnd" }]

theorem raised_ceilings_are_invisible_callInLoop :
    ∃ r, (⟨⟨1, 1⟩, 12⟩ : Interpreter).execute callInLoop = .finished r ∧ r.failures = [] ∧
      r.vars = [("x", 1)] ∧
      (⟨.standard, 12⟩ : Interpreter).execute callInLoop = .finished r := by
  obtain ⟨r, hrun, hfailures, hvars⟩ : ∃ r, (⟨⟨1, 1⟩, 12⟩ : Interpreter).execute callInLoop =
    .finished r ∧
      r.failures = [] ∧ r.vars = [("x", 1)] := ⟨_, rfl, rfl, rfl⟩
  have hle : (⟨1, 1⟩ : Limits) ≤ .standard := ⟨by decide, by decide⟩
  have hfree : ∀ f ∈ r.failures, f.kind ≠ .iterationLimit ∧ f.kind ≠ .recursion := by
    simp [hfailures]
  exact ⟨r, hrun, hfailures, hvars,
    (raised_ceilings_are_invisible ⟨1, 1⟩ .standard hle 12 r hfree).2 callInLoop hrun⟩

end Flowchart.Machine
