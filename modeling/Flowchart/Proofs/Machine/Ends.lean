import Flowchart.Machine.Functions
import Flowchart.Proofs.Graph.Build
import Flowchart.Proofs.Graph.Chains

/-!
# Ends of functions

The end of a function is the first end block on its chain of next links. The search for it visits
one block after the other and stops at a block that it has visited before. As it never visits a
block twice, it ends on every graph, and it misses no end block.
-/

namespace Flowchart.Machine

open Flowchart.Graph

variable {g : Graph} {h h' start stop stop' : Handle} {i j : Nat} {n : Node}
  {visited : List Handle} {target result : Option Handle}

/-! ## Chains of next links -/

def nextOf (g : Graph) (h : Handle) : Option Handle := (g.node? h).bind (·.next)

def IsEnd (g : Graph) (h : Handle) : Prop := ∃ n, g.node? h = some n ∧ n.kind = .functionEnd

theorem nextOf_eq (hn : g.node h = .ok n) : nextOf g h = n.next := by
  rw [node_eq_ok_iff] at hn
  simp [nextOf, node?, hn]

theorem isEnd_iff (hn : g.node h = .ok n) : IsEnd g h ↔ n.kind = .functionEnd := by
  rw [node_eq_ok_iff] at hn
  simp [IsEnd, node?, hn]

/-- The first end block on the chain from `h` is `stop`, and `i` links away. -/
structure EndsAt (g : Graph) (h : Handle) (i : Nat) (stop : Handle) : Prop where
  reached : chainAt (nextOf g) i h = some stop
  isEnd : IsEnd g stop
  first : ∀ j < i, ∀ x, chainAt (nextOf g) j h = some x → ¬ IsEnd g x

theorem EndsAt.unique (he : EndsAt g h i stop) (he' : EndsAt g h j stop') : stop = stop' := by
  rcases Nat.lt_trichotomy i j with hij | rfl | hij
  · exact absurd he.isEnd (he'.first i hij stop he.reached)
  · exact Option.some.inj (he.reached.symm.trans he'.reached)
  · exact absurd he'.isEnd (he.first j hij stop' he'.reached)

theorem EndsAt.lt_size (he : EndsAt g h i stop) : stop < g.size := by
  obtain ⟨n, hn, -⟩ := he.isEnd
  exact lt_size_of_node (node_eq_ok_iff.mpr hn)

/-! ## Following links without a bound -/

/-- Following next links from `target` on, with the blocks visited before, to the result. -/
inductive Follows (g : Graph) : List Handle → Option Handle → Option Handle → Prop
  | out (visited : List Handle) : Follows g visited none none
  | back {visited : List Handle} {h : Handle} (hv : h ∈ visited) : Follows g visited (some h) none
  | found {visited : List Handle} {h : Handle} {n : Node} (hv : h ∉ visited) (hn : g.node h = .ok n)
      (hkind : n.kind = .functionEnd) : Follows g visited (some h) (some h)
  | onward {visited : List Handle} {h : Handle} {n : Node} {result : Option Handle}
      (hv : h ∉ visited) (hn : g.node h = .ok n) (hkind : n.kind ≠ .functionEnd)
      (rest : Follows g (h :: visited) n.next result) : Follows g visited (some h) result

theorem exists_follows (hg : g.Linked) {visited : List Handle} (hs : Seen g visited)
    {target : Option Handle} (htarget : ∀ x, target = some x → x < g.size) :
    ∃ result, Follows g visited target result := by
  cases target with
  | none => exact ⟨none, .out visited⟩
  | some h =>
    have hh := htarget h rfl
    obtain ⟨n, hn⟩ := exists_node hh
    by_cases hv : h ∈ visited
    · exact ⟨none, .back hv⟩
    by_cases hkind : n.kind = .functionEnd
    · exact ⟨some h, .found hv hn hkind⟩
    -- One block less is left to be visited.
    have hs' := hs.cons hh hv
    have hlen : visited.length + 1 ≤ g.size := hs'.length_le
    obtain ⟨result, hrest⟩ := exists_follows hg hs' (hg.next hn)
    exact ⟨result, .onward hv hn hkind hrest⟩
termination_by g.size - visited.length

theorem Follows.findEnd_eq (h : Follows g visited target result) (hs : Seen g visited) {fuel : Nat}
    (hfuel : g.size < fuel + visited.length) : findEnd g fuel visited target = .ok result := by
  induction h generalizing fuel with
  | out visited => cases fuel <;> rfl
  | back hv =>
    have hle := hs.length_le
    obtain ⟨fuel, rfl⟩ : ∃ k, fuel = k + 1 := ⟨fuel - 1, by omega⟩
    simp [findEnd, hv]
  | found hv hn hkind =>
    have hle := hs.length_le
    obtain ⟨fuel, rfl⟩ : ∃ k, fuel = k + 1 := ⟨fuel - 1, by omega⟩
    simp [findEnd, hv, hn, hkind, bind, Except.bind, pure, Except.pure]
  | @onward visited h n result hv hn hkind _ ih =>
    have hle := hs.length_le
    obtain ⟨fuel, rfl⟩ : ∃ k, fuel = k + 1 := ⟨fuel - 1, by omega⟩
    have hfuel' : g.size < fuel + (h :: visited).length := by
      rw [List.length_cons]
      omega
    have hrest := ih (hs.cons (lt_size_of_node hn) hv) hfuel'
    simpa [findEnd, hv, hn, hkind, bind, Except.bind] using hrest

/-! ## What is found -/

/-- What a search comes to: the first end block, or that no block of the chain is one because the
chain breaks off or runs in a circle. -/
inductive Outcome (g : Graph) (start : Handle) : Option Handle → Prop
  | ended {i : Nat} {stop : Handle} (he : EndsAt g start i stop) : Outcome g start (some stop)
  | unended (hend : ∀ i x, chainAt (nextOf g) i start = some x → ¬ IsEnd g x)
      (hchain : (∃ i, chainAt (nextOf g) i start = none) ∨ Circles (nextOf g) start) :
      Outcome g start none

/-- The blocks visited are those of the chain up to the target, and none of them is an end block. -/
structure Walked (g : Graph) (start : Handle) (visited : List Handle)
    (target : Option Handle) : Prop where
  reached : chainAt (nextOf g) visited.length start = target
  visits : ∀ x ∈ visited, ∃ i < visited.length, chainAt (nextOf g) i start = some x
  passed : ∀ i < visited.length, ∀ x, chainAt (nextOf g) i start = some x → ¬ IsEnd g x

theorem walked_nil (g : Graph) (start : Handle) : Walked g start [] (some start) :=
  ⟨rfl, by simp, by simp⟩

theorem Walked.onward (w : Walked g start visited (some h)) (hn : g.node h = .ok n)
    (hkind : n.kind ≠ .functionEnd) : Walked g start (h :: visited) n.next where
  reached := by
    rw [List.length_cons, chainAt_add, w.reached]
    simpa [chainAt] using nextOf_eq hn
  visits := by
    intro x hx
    rcases List.mem_cons.mp hx with rfl | hx
    · exact ⟨visited.length, Nat.lt_succ_self _, w.reached⟩
    · obtain ⟨i, hi, hat⟩ := w.visits x hx
      exact ⟨i, Nat.lt_succ_of_lt hi, hat⟩
  passed := by
    intro i hi x hx
    rcases Nat.lt_succ_iff_lt_or_eq.mp hi with hi | rfl
    · exact w.passed i hi x hx
    · obtain rfl : h = x := Option.some.inj (w.reached.symm.trans hx)
      exact mt (isEnd_iff hn).mp hkind

theorem Follows.outcome (h : Follows g visited target result) (w : Walked g start visited target) :
    Outcome g start result := by
  induction h with
  | out visited =>
    refine .unended (fun i x hx => ?_) (Or.inl ⟨visited.length, w.reached⟩)
    refine w.passed i (Nat.lt_of_not_le fun hle => ?_) x hx
    have hsome := isSome_chainAt_of_le hle (Option.isSome_iff_exists.mpr ⟨x, hx⟩)
    simp [w.reached] at hsome
  | @back visited h hv =>
    obtain ⟨i, hi, hat⟩ := w.visits h hv
    exact .unended (forall_of_twice hi hat w.reached w.passed)
      (Or.inr ⟨i, visited.length, h, hi, hat, w.reached⟩)
  | found hv hn hkind => exact .ended ⟨w.reached, (isEnd_iff hn).mpr hkind, w.passed⟩
  | onward hv hn hkind _ ih => exact ih (w.onward hn hkind)

/-- The search from a block of a graph ends, and no bound above the number of blocks changes what
it finds. -/
theorem search_ends (hg : g.Linked) (hh : h < g.size) :
    ∃ result, Follows g [] (some h) result ∧ Outcome g h result ∧
      ∀ fuel, g.size < fuel → findEnd g fuel [] (some h) = .ok result := by
  obtain ⟨result, hfollows⟩ := exists_follows hg (seen_nil g) (fun x hx => Option.some.inj hx ▸ hh)
  exact ⟨result, hfollows, hfollows.outcome (walked_nil g h),
    fun fuel hfuel => hfollows.findEnd_eq (seen_nil g) hfuel⟩

theorem endOf_ok (hg : g.Linked) (hh : h < g.size) :
    ∃ result, endOf g h = .ok result ∧ Outcome g h result := by
  obtain ⟨result, -, houtcome, hfind⟩ := search_ends hg hh
  exact ⟨result, hfind (g.size + 1) (Nat.lt_succ_self _), houtcome⟩

theorem outcome_of_endOf (hg : g.Linked) (hh : h < g.size) (hend : endOf g h = .ok result) :
    Outcome g h result := by
  obtain ⟨result', hend', houtcome⟩ := endOf_ok hg hh
  obtain rfl : result = result' := Except.ok.inj (hend.symm.trans hend')
  exact houtcome

end Flowchart.Machine
