import Flowchart.Proofs.Graph.Roots
import Flowchart.Proofs.Machine.Termination

/-!
# Runs of valid programs

What validation promises for a run. It ends, unless a path can come back to the block at
which it began: that one cycle validation does not look for. And it reports no error of
the graph; of the errors of linkage it reports only that a function has no end.
-/

namespace Flowchart.Machine

open Attempt Flowchart.Graph Relation

variable {records : List Record} {g : Graph}

/-! ## Ends -/

def Rooted (g : Graph) (h : Handle) : Prop :=
  ∃ root, IsRoot g root ∧ ReflTransGen (ControlLink g) root h

/-- Whatever a run of a valid program comes to lies behind a root. -/
theorem region_of_roots (hv : Valid records) (hb : build records = .ok g) {functions : Functions}
    (hf : functions.Found g) (hroots : ∀ h, IsRoot g h → ¬ TransGen (PlainLink g) h h)
    (limits : Limits) :
    Region ⟨g, functions.table, limits⟩ (Rooted g) where
  links := by
    rintro h h' ⟨root, hroot, hreach⟩ hlink
    exact ⟨root, hroot, hreach.tail hlink⟩
  functions := by
    intro name f hget
    obtain ⟨⟨n, hn, hkind⟩, -⟩ := hf.table name f hget
    exact ⟨f.start, ⟨n, hn, Or.inr hkind⟩, .refl⟩
  acyclic := by
    rintro h ⟨root, hroot, hreach⟩ hcycle
    exact hroots root hroot (cycle_of_reached hv hb hreach hcycle)

/-- A valid program ends within any limits if no path comes back to the block at which it began,
though it may be stopped at an array that is too large. -/
theorem valid_programs_end (records : List Record) (hvalid : problems records = []) :
    ∃ g, build records = .ok g ∧ ((∀ h, IsRoot g h → ¬ TransGen (PlainLink g) h h) →
      ∀ limits, ∃ bound, ∀ fuel, bound ≤ fuel →
        (∃ r, (⟨limits, fuel⟩ : Interpreter).execute records = .finished r) ∨
        (⟨limits, fuel⟩ : Interpreter).execute records = .crashed .allocation ∧
          ∃ h n, g.node h = .ok n ∧ Oversized n) := by
  have hv := valid_of_problems hvalid
  obtain ⟨g, start, hb, hstart⟩ := build_of_valid hv
  refine ⟨g, hb, fun hroots limits => ?_⟩
  have hg := linked_of_build hb
  obtain ⟨functions, hfunctions, hfound⟩ := Functions.ofGraph_found hg
  obtain ⟨m, hm, hkind⟩ := kind_of_start hb hstart
  have hready := ready_of_found hg (permits_all hg) hfound limits
  have hregion := region_of_roots hv hb hfound hroots limits
  have hrooted : Rooted g start := ⟨start, ⟨m, hm, Or.inl hkind⟩, .refl⟩
  obtain ⟨bound, hends⟩ :=
    endsOrOverflows hready hregion hrooted (lt_size_of_node hm) functions.failures
  refine ⟨bound, fun fuel hfuel => ?_⟩
  obtain ⟨k, rfl⟩ := Nat.exists_eq_add_of_le hfuel
  rw [execute_of_steps hb hstart hfunctions]
  rcases hends with ⟨s, hs, -⟩ | ⟨hcrash, s, -, t, rest, n, -, -, hn, hover⟩
  · rw [steps_add (hs.trans_ne (by simp)) k, hs]
    exact Or.inl ⟨_, rfl⟩
  · rw [steps_add (hcrash.trans_ne (by simp)) k, hcrash]
    exact Or.inr ⟨rfl, t.node, n, hn, hover⟩

theorem valid_programs_end_mutualCalls :
    problems mutualCalls = [] ∧ ∃ bound, ∀ fuel, bound ≤ fuel →
      (∃ r, (⟨.standard, fuel⟩ : Interpreter).execute mutualCalls = .finished r) ∨
      (⟨.standard, fuel⟩ : Interpreter).execute mutualCalls = .crashed .allocation := by
  have hvalid : problems mutualCalls = [] := by decide
  obtain ⟨g, hb, hends⟩ := valid_programs_end mutualCalls hvalid
  have hforward : g.forward := by
    cases hb
    decide
  obtain ⟨bound, hbound⟩ := hends (fun h _ => acyclic_of_forward hforward h) .standard
  exact ⟨hvalid, bound, fun fuel hfuel => (hbound fuel hfuel).imp_right And.left⟩

/-- A path that comes back to the start block. -/
def spinning : List Record :=
  [{ id := "start", type := "start", next := "end" },
   { id := "end", type := "functionEnd", next := "start" }]

theorem next_of_marker {p : Program} {x y : Handle} {n : Node} (hn : p.graph.node x = .ok n)
    (hkind : n.kind = .start ∨ n.kind = .functionEnd) (hnext : n.next = some y)
    (failures : List Failure) :
    Next p (.initial x failures) (.initial y failures) := by
  rcases hkind with hkind | hkind
  all_goals
    simp [Next, step, perform, visit, State.initial, State.follow, State.visitNext, State.schedule,
      State.done, hn, hkind, hnext, bind, Except.bind, pure, Except.pure]

/-- The condition on paths is needed: validation finds nothing wrong, and no run ends. -/
theorem spinning_never_ends :
    problems spinning = [] ∧ ∀ i : Interpreter, i.execute spinning = .unfinished := by
  refine ⟨by decide, fun i => ?_⟩
  obtain ⟨g, hb⟩ : ∃ g, build spinning = .ok g := ⟨_, rfl⟩
  obtain ⟨functions, hfunctions, -⟩ := Functions.ofGraph_found (linked_of_build hb)
  have hstart : g.start = some 0 := by
    cases hb
    rfl
  obtain ⟨first, hfirst, hkind, hnext⟩ : ∃ n, g.node 0 = .ok n ∧ n.kind = .start ∧
    n.next = some 1 := by
    cases hb
    exact ⟨_, rfl, rfl, rfl⟩
  obtain ⟨last, hlast, hkind', hnext'⟩ : ∃ n, g.node 1 = .ok n ∧ n.kind = .functionEnd ∧
    n.next = some 0 := by
    cases hb
    exact ⟨_, rfl, rfl, rfl⟩
  -- Two steps lead back to where the run began.
  have hspin (k : Nat) : steps ⟨g, functions.table, i.limits⟩ k (.initial 0 functions.failures) =
      .ok none ∧ steps ⟨g, functions.table, i.limits⟩ k (.initial 1 functions.failures) =
      .ok none := by
    induction k with
    | zero => exact ⟨rfl, rfl⟩
    | succ k ih =>
      rw [steps_of_next (next_of_marker hfirst (Or.inl hkind) hnext _),
        steps_of_next (next_of_marker hlast (Or.inr hkind') hnext' _)]
      exact ih.symm
  rw [execute_of_steps hb hstart hfunctions, (hspin i.fuel).1]

/-! ## Failures -/

theorem kind_ne_unknown {r : Record} (h : (BlockKind.ofTag? r.type).isSome) :
    r.kind ≠ .unknown := by
  obtain ⟨k, hk⟩ := Option.isSome_iff_exists.mp h
  have hmem : k ∈ BlockKind.all.tail := List.mem_of_find?_eq_some hk
  rw [Record.kind, BlockKind.ofTag, hk, Option.getD_some]
  rintro rfl
  simp [BlockKind.all] at hmem

theorem chained_of_valid (hv : Valid records) (hb : build records = .ok g) :
    Chained g Cause.Ordinary fun fuel x =>
      (∃ n, g.node x = .ok n ∧ n.kind.isProducer) ∧ height (InputLink g) g.size x ≤ fuel where
  block := by
    rintro fuel x ⟨⟨n, hn, -⟩, -⟩
    exact lt_size_of_node hn
  cycle := by
    rintro x ⟨⟨n, hn, -⟩, hzero⟩
    have hpos := height_pos (R := InputLink g) (lt_size_of_node hn)
    omega
  value := by
    rintro fuel x n ⟨⟨m, hm, hproducer⟩, -⟩ hn hnone
    obtain rfl : m = n := Except.ok.inj (hm.symm.trans hn)
    simp [hproducer] at hnone
  input := by
    rintro fuel x n slot x' ⟨-, hheight⟩ hn hinput
    have hlink : InputLink g x x' := ⟨n, slot, hn, hinput⟩
    have hlt := height_lt hlink (lt_size_of_node hn) (inputLink_acyclic hv hb x)
    exact ⟨inputLink_producer hv hb hlink, by omega⟩

theorem permits_ordinary (hv : Valid records) (hb : build records = .ok g) :
    Permits g Cause.Ordinary where
  ordinary := fun _ hc => hc
  unknown := by
    intro h n hn hkind
    obtain ⟨r, hr, rfl⟩ := (node_of_build hb).mp hn
    exact absurd hkind (kind_ne_unknown (hv.known r (List.mem_of_getElem? hr)))
  inputs := by
    intro h n slot h' s hn hinput hs
    have hproducer := inputLink_producer hv hb ⟨n, slot, hn, hinput⟩
    exact allows_value (linked_of_build hb) (fun _ hc => hc) _ (chained_of_valid hv hb) hs g.size
      ⟨hproducer, height_le⟩

/-- A failure of the graph or of linkage can only be that a function has no end. -/
structure OnlyMissingEnds (records : List Record) (f : Failure) : Prop where
  graph : f.kind ≠ .graph
  cause : ∀ e, f.cause ≠ .graph e
  linkage : f.kind = .linkage → ∃ name r, f.cause = .run (.functionEndMissing name) ∧ r ∈ records ∧
    r.kind = .functionStart ∧ f.node = r.id

theorem onlyMissingEnds_of_ordinary {f : Failure} (h : f.cause.Ordinary) :
    OnlyMissingEnds records f where
  graph := h.1
  cause := by
    intro e he
    rw [he] at h
    cases e <;> simp [Cause.Ordinary, Cause.kind, Graph.Error.kind] at h
  linkage := fun hkind => absurd hkind h.2

theorem onlyMissingEnds_of_found (hb : build records = .ok g) {functions : Functions}
    (hf : functions.Found g) {f : Failure} (h : f ∈ functions.failures) :
    OnlyMissingEnds records f := by
  obtain ⟨x, n, e, hn, hkind, he, rfl⟩ := hf.failures f h
  obtain ⟨r, hr, rfl⟩ := (node_of_build hb).mp hn
  cases he with
  | functionNameMissing => exact onlyMissingEnds_of_ordinary (ordinary_run (by simp) (by simp))
  | functionExists name => exact onlyMissingEnds_of_ordinary (ordinary_run (by simp) (by simp))
  | functionEndMissing name =>
    refine ⟨by simp [Failure.kind, Cause.kind, Error.kind], by simp, fun _ => ?_⟩
    exact ⟨name, r, rfl, List.mem_of_getElem? hr, hkind, rfl⟩

/-- What validation accepts the run does not complain about: no failure of a valid program is for
the way its blocks are put together, but for functions that have no end. -/
theorem valid_programs_fail_ordinarily (records : List Record) (i : Interpreter) (r : Result)
    (hvalid : problems records = []) (hrun : i.execute records = .finished r) :
    ∀ f ∈ r.failures, OnlyMissingEnds records f := by
  have hv := valid_of_problems hvalid
  obtain ⟨g, start, hb, hstart⟩ := build_of_valid hv
  have hg := linked_of_build hb
  obtain ⟨functions, hfunctions, hfound⟩ := Functions.ofGraph_found hg
  have hready := ready_of_found hg (permits_ordinary hv hb) hfound i.limits
  rw [execute_of_steps hb hstart hfunctions] at hrun
  split at hrun
  · rename_i s hsteps
    cases hrun
    have hs := reaches_sound hready (hg.start start hstart) (reaches_of_steps hsteps).1
    intro f hf
    rcases hs.failures f (by simpa [resultOf] using hf) with hfirst | hordinary
    · exact onlyMissingEnds_of_found hb hfound hfirst
    · exact onlyMissingEnds_of_ordinary hordinary
  · cases hrun
  · cases hrun

/-- A function without an end, and an output that is bound to an element of no array. -/
def unendedFunction : List Record :=
  [{ id := "start", type := "start", next := "out" },
   { id := "out", type := "output", inputs := ⟨"element", "", "", ""⟩ },
   { id := "element", type := "arrayElement" },
   { id := "f", type := "functionStart", data := { functionName := "f" } }]

theorem valid_programs_fail_ordinarily_unendedFunction :
    ∃ r, problems unendedFunction = [] ∧ (⟨.standard, 3⟩ : Interpreter).execute unendedFunction =
      .finished r ∧
      r.failures.map (·.kind) = [.linkage, .declaration] ∧
      ∀ f ∈ r.failures, OnlyMissingEnds unendedFunction f := by
  have hvalid : problems unendedFunction = [] := by decide
  obtain ⟨r, hrun, hkinds⟩ : ∃ r, (⟨.standard, 3⟩ : Interpreter).execute unendedFunction =
    .finished r ∧
      r.failures.map (·.kind) = [.linkage, .declaration] := ⟨_, rfl, rfl⟩
  exact ⟨r, hvalid, hrun, hkinds, valid_programs_fail_ordinarily unendedFunction _ r hvalid hrun⟩

end Flowchart.Machine
