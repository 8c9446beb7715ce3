import Flowchart.Graph.Basic
import Mathlib.Data.Finset.Card

/-!
# Chains of blocks

Where one comes to by following the same link again and again. Among more blocks of a chain
than there are in the graph, one occurs twice, and from there on the chain goes in a circle.
-/

namespace Flowchart.Graph

variable {next : Handle → Option Handle} {h x : Handle} {size i j : Nat}

/-- The block that is `i` links away from `h`. -/
def chainAt (next : Handle → Option Handle) : Nat → Handle → Option Handle
  | 0, h => some h
  | i + 1, h => (next h).bind (chainAt next i)

def Endless (next : Handle → Option Handle) (h : Handle) : Prop := ∀ i, (chainAt next i h).isSome

@[simp] theorem chainAt_zero (next : Handle → Option Handle) (h : Handle) :
    chainAt next 0 h = some h := rfl

theorem chainAt_succ {h' : Handle} (hnext : next h = some h') (i : Nat) :
    chainAt next (i + 1) h = chainAt next i h' := by
  simp [chainAt, hnext]

theorem chainAt_add (i j : Nat) (h : Handle) :
    chainAt next (i + j) h = (chainAt next i h).bind (chainAt next j) := by
  induction i generalizing h with
  | zero => simp
  | succ i ih =>
    rw [Nat.succ_add]
    cases hnext : next h with
    | none => simp [chainAt, hnext]
    | some h' => rw [chainAt_succ hnext, chainAt_succ hnext, ih]

theorem isSome_chainAt_of_le (hij : j ≤ i) (hi : (chainAt next i h).isSome) :
    (chainAt next j h).isSome := by
  obtain ⟨k, rfl⟩ := Nat.exists_eq_add_of_le hij
  rw [chainAt_add] at hi
  exact Option.isSome_of_isSome_bind hi

theorem Endless.of_chainAt (hx : chainAt next i h = some x) (he : Endless next x) :
    Endless next h := by
  intro k
  refine isSome_chainAt_of_le (Nat.le_add_left k i) ?_
  rw [chainAt_add, hx]
  exact he k

/-! ## Circles -/

/-- From some block on the chain runs in a circle, which `h` itself need not lie on. -/
def Circles (next : Handle → Option Handle) (h : Handle) : Prop :=
  ∃ i j x, i < j ∧ chainAt next i h = some x ∧ chainAt next j h = some x

theorem chainAt_mul_of_circle {period : Nat} (hx : chainAt next period x = some x) (k : Nat) :
    chainAt next (k * period) x = some x := by
  induction k with
  | zero => simp
  | succ k ih =>
    rw [Nat.succ_mul, chainAt_add, ih]
    exact hx

theorem endless_of_circle {period : Nat} (hpos : 0 < period) (hx : chainAt next period x = some x) :
    Endless next x := by
  intro k
  have hle : k ≤ k * period := Nat.le_mul_of_pos_right k hpos
  exact isSome_chainAt_of_le hle (by simp [chainAt_mul_of_circle hx])

theorem endless_of_twice (hij : i < j) (hi : chainAt next i h = some x)
    (hj : chainAt next j h = some x) :
    Endless next h := by
  obtain ⟨period, rfl⟩ := Nat.exists_eq_add_of_lt hij
  rw [Nat.add_assoc, chainAt_add, hi] at hj
  exact .of_chainAt hi (endless_of_circle (Nat.succ_pos period) hj)

theorem forall_of_twice {P : Handle → Prop} (hij : i < j) (hi : chainAt next i h = some x)
    (hj : chainAt next j h = some x) (hP : ∀ k < j, ∀ y, chainAt next k h = some y → P y) :
    ∀ k y, chainAt next k h = some y → P y := by
  intro k
  induction k using Nat.strong_induction_on with
  | h k ih =>
    intro y hy
    rcases Nat.lt_or_ge k j with hlt | hge
    · exact hP k hlt y hy
    · obtain ⟨m, rfl⟩ := Nat.exists_eq_add_of_le hge
      rw [chainAt_add, hj, ← hi, ← chainAt_add] at hy
      exact ih (i + m) (by omega) y hy

theorem twice_of_long (hlong : ∀ i ≤ size, ∃ x < size, chainAt next i h = some x) :
    ∃ i j x, i < j ∧ j ≤ size ∧ chainAt next i h = some x ∧ chainAt next j h = some x := by
  have hcard : (Finset.range size).card < (Finset.range (size + 1)).card := by simp
  have hmaps : ∀ i ∈ Finset.range (size + 1), (chainAt next i h).getD 0 ∈ Finset.range size := by
    intro i hi
    obtain ⟨x, hx, hat⟩ := hlong i (by simpa [Nat.lt_succ_iff] using hi)
    simpa [hat] using hx
  obtain ⟨i, hi, j, hj, hne, heq⟩ := Finset.exists_ne_map_eq_of_card_lt_of_maps_to hcard hmaps
  rw [Finset.mem_range, Nat.lt_succ_iff] at hi hj
  obtain ⟨x, -, hx⟩ := hlong i hi
  obtain ⟨y, -, hy⟩ := hlong j hj
  obtain rfl : x = y := by simpa [hx, hy] using heq
  rcases Nat.lt_or_gt_of_ne hne with hlt | hlt
  · exact ⟨i, j, x, hlt, hj, hx, hy⟩
  · exact ⟨j, i, x, hlt, hi, hy, hx⟩

theorem lt_size_of_chainAt (hnext : ∀ x y, next x = some y → y < size) (hh : h < size)
    (hx : chainAt next i h = some x) :
    x < size := by
  induction i generalizing h with
  | zero =>
    obtain rfl : h = x := by simpa using hx
    exact hh
  | succ i ih =>
    obtain ⟨h', hlink, hx⟩ := Option.bind_eq_some_iff.mp hx
    exact ih (hnext h h' hlink) hx

theorem inside_of_long (hnext : ∀ x y, next x = some y → y < size) (hh : h < size)
    (hlong : (chainAt next size h).isSome) : ∀ k ≤ size, ∃ x < size, chainAt next k h = some x := by
  intro k hk
  obtain ⟨x, hx⟩ := Option.isSome_iff_exists.mp (isSome_chainAt_of_le hk hlong)
  exact ⟨x, lt_size_of_chainAt hnext hh hx, hx⟩

/-- Whether a chain ends is known after as many links as there are blocks. -/
theorem endless_iff (hnext : ∀ x y, next x = some y → y < size) (hh : h < size) :
    Endless next h ↔ (chainAt next size h).isSome := by
  refine ⟨fun he => he size, fun hlong => ?_⟩
  obtain ⟨i, j, x, hij, -, hi, hj⟩ := twice_of_long (inside_of_long hnext hh hlong)
  exact endless_of_twice hij hi hj

end Flowchart.Graph
