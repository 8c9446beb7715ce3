import Flowchart.Graph.Basic
import Mathlib.Data.Set.Card
import Mathlib.Logic.Relation

/-!
# Links between blocks

Which blocks a block leads to, and how far one can go along links that form no cycle: a
block has a height, and every such link leads to a block of a smaller height.
-/

namespace Flowchart.Graph

open Relation

/-! ## Blocks of handles -/

theorem node_eq_ok_iff {g : Graph} {h : Handle} {n : Node} :
    g.node h = .ok n ↔ g.nodes[h]? = some n := by
  unfold node
  split
  · rename_i n' hn
    simp [hn]
  · rename_i hn
    simp [hn]

theorem lt_size_of_node {g : Graph} {h : Handle} {n : Node} (hn : g.node h = .ok n) :
    h < g.size := by
  rw [node_eq_ok_iff] at hn
  exact (Array.getElem?_eq_some_iff.mp hn).1

theorem exists_node {g : Graph} {h : Handle} (hh : h < g.size) : ∃ n, g.node h = .ok n := by
  unfold size at hh
  exact ⟨g.nodes[h], node_eq_ok_iff.mpr (by simp [hh])⟩

/-! ## Blocks that were visited -/

/-- A record of visits: different blocks of the graph. -/
structure Seen (g : Graph) (visited : List Handle) : Prop where
  distinct : visited.Nodup
  inside : ∀ h ∈ visited, h < g.size

theorem seen_nil (g : Graph) : Seen g [] := ⟨List.nodup_nil, by simp⟩

theorem Seen.cons {g : Graph} {visited : List Handle} (hs : Seen g visited) {h : Handle}
    (hh : h < g.size) (hv : h ∉ visited) : Seen g (h :: visited) :=
  ⟨List.nodup_cons.mpr ⟨hv, hs.distinct⟩, List.forall_mem_cons.mpr ⟨hh, hs.inside⟩⟩

theorem Seen.length_le {g : Graph} {visited : List Handle} (hs : Seen g visited) :
    visited.length ≤ g.size := by
  have hsub : visited ⊆ List.range g.size := fun h hh => List.mem_range.mpr (hs.inside h hh)
  simpa using (List.subperm_of_subset hs.distinct hsub).length_le

/-! ## Control links -/

def ControlLink (g : Graph) (h h' : Handle) : Prop :=
  ∃ n, g.node h = .ok n ∧ (n.next = some h' ∨ n.onTrue = some h' ∨ n.onFalse = some h')

/-- The links that a run follows without counting an iteration. -/
def PlainLink (g : Graph) (h h' : Handle) : Prop :=
  ∃ n, g.node h = .ok n ∧
    (n.next = some h' ∧ n.kind ≠ .branch ∧ n.kind ≠ .whileLoop ∧ n.kind ≠ .forLoop ∧
      n.kind ≠ .stop ∨ n.onTrue = some h' ∧ n.kind = .branch ∨
      n.onFalse = some h' ∧ (n.kind = .branch ∨ n.kind = .whileLoop ∨ n.kind = .forLoop))

theorem PlainLink.control {g : Graph} {h h' : Handle} (hl : PlainLink g h h') :
    ControlLink g h h' := by
  obtain ⟨n, hn, ⟨hnext, _⟩ | ⟨htrue, _⟩ | ⟨hfalse, _⟩⟩ := hl
  · exact ⟨n, hn, Or.inl hnext⟩
  · exact ⟨n, hn, Or.inr (Or.inl htrue)⟩
  · exact ⟨n, hn, Or.inr (Or.inr hfalse)⟩

def plainTargets (n : Node) : List Handle :=
  match n.kind with
  | .branch => n.onTrue.toList ++ n.onFalse.toList
  | .whileLoop | .forLoop => n.onFalse.toList
  | .stop => []
  | _ => n.next.toList

theorem PlainLink.mem_targets {g : Graph} {h h' : Handle} (hl : PlainLink g h h') :
    ∃ n, g.node h = .ok n ∧ h' ∈ plainTargets n := by
  obtain ⟨n, hn, hl⟩ := hl
  refine ⟨n, hn, ?_⟩
  unfold plainTargets
  rcases hl with ⟨hnext, hkind⟩ | ⟨htrue, hkind⟩ | ⟨hfalse, hkind | hkind | hkind⟩
  · split <;> simp_all
  · simp [hkind, htrue]
  · simp [hkind, hfalse]
  · simp [hkind, hfalse]
  · simp [hkind, hfalse]

/-- Do all plain links lead to later blocks? -/
def forward (g : Graph) : Bool :=
  g.nodes.toList.zipIdx.all fun (n, h) => (plainTargets n).all fun h' => h < h'

theorem acyclic_of_forward {g : Graph} (hg : g.forward) (h : Handle) :
    ¬ TransGen (PlainLink g) h h := by
  have hlink : ∀ a b, PlainLink g a b → a < b := by
    intro a b hl
    obtain ⟨n, hn, hmem⟩ := hl.mem_targets
    rw [node_eq_ok_iff] at hn
    simp only [forward, List.all_eq_true, decide_eq_true_eq] at hg
    exact hg (n, a) (List.mem_zipIdx_iff_getElem?.mpr (by simpa using hn)) b hmem
  have hlt : ∀ a b, TransGen (PlainLink g) a b → a < b := by
    intro a b hab
    induction hab with
    | single hl => exact hlink _ _ hl
    | tail _ hl ih => exact Nat.lt_trans ih (hlink _ _ hl)
  exact fun hcycle => Nat.lt_irrefl h (hlt h h hcycle)

/-! ## Heights -/

section Height

variable {R : Handle → Handle → Prop} {size : Nat} {h h' : Handle}

/-- How many of the first `size` blocks can be reached from `h`, itself included. -/
noncomputable def height (R : Handle → Handle → Prop) (size : Nat) (h : Handle) : Nat :=
  {x | x < size ∧ ReflTransGen R h x}.ncard

theorem reached_subset : {x | x < size ∧ ReflTransGen R h x} ⊆ ↑(Finset.range size) := by
  rintro x ⟨hx, -⟩
  simpa using hx

theorem finite_reached : {x | x < size ∧ ReflTransGen R h x}.Finite :=
  (Finset.range size).finite_toSet.subset reached_subset

theorem height_le : height R size h ≤ size := by
  have hsub : {x | x < size ∧ ReflTransGen R h x} ⊆ ↑(Finset.range size) := reached_subset
  have hle := Set.ncard_le_ncard hsub (Finset.finite_toSet _)
  rwa [Set.ncard_coe_finset, Finset.card_range] at hle

theorem height_pos (hh : h < size) : 0 < height R size h := by
  unfold height
  rw [Set.ncard_pos finite_reached]
  exact ⟨h, hh, .refl⟩

theorem height_lt (hl : R h h') (hh : h < size) (hcycle : ¬ TransGen R h h) :
    height R size h' < height R size h := by
  unfold height
  refine Set.ncard_lt_ncard ⟨?_, ?_⟩ finite_reached
  · rintro x ⟨hx, hreach⟩
    exact ⟨hx, .head hl hreach⟩
  · intro hsub
    have hback : ReflTransGen R h' h := (hsub ⟨hh, .refl⟩).2
    exact hcycle (.head' hl hback)

end Height

end Flowchart.Graph
