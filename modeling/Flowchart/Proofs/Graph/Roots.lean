import Flowchart.Proofs.Graph.Build
import Flowchart.Proofs.Graph.Validity

/-!
# Graphs of valid records

Valid records always make a graph. As no block of it has two links that lead to it, a
cycle can only be entered where a path begins: at the start block or at the beginning of
a function. Its inputs lead to data blocks, and never in a cycle.
-/

namespace Flowchart.Graph

open Relation

variable {records : List Record} {g : Graph}

theorem build_of_valid (hv : Valid records) :
    ∃ g start, build records = .ok g ∧ g.start = some start := by
  obtain ⟨g, hb, hlen⟩ := build_ok hv.toBuildable
  rw [hv.countP_start] at hlen
  cases hstart : g.start with
  | none => simp [hstart] at hlen
  | some start => exact ⟨g, start, hb, hstart⟩

/-! ## Control links -/

theorem controlLink_records (h : build records = .ok g) {a c : Handle} (hl : ControlLink g a c) :
    ∃ r r', records[a]? = some r ∧ records[c]? = some r' ∧ r'.id ∈ linkTargets r Port.outgoing := by
  obtain ⟨n, hn, hl⟩ := hl
  obtain ⟨r, hr, rfl⟩ := (node_of_build h).mp hn
  have hport : ∃ p ∈ Port.outgoing, resolve g.index (r.link p) = some c := by
    rcases hl with hl | hl | hl
    · exact ⟨.next, by simp [Port.outgoing], hl⟩
    · exact ⟨.onTrue, by simp [Port.outgoing], hl⟩
    · exact ⟨.onFalse, by simp [Port.outgoing], hl⟩
  obtain ⟨p, hp, hresolve⟩ := hport
  obtain ⟨hne, r', hr', hid⟩ := resolve_eq_some (indexes_of_build h) hresolve
  refine ⟨r, r', hr, hr', ?_⟩
  rw [hid, linkTargets, List.mem_filter]
  exact ⟨List.mem_map_of_mem hp, by simpa using hne⟩

theorem controlLink_unique (hv : Valid records) (h : build records = .ok g) {a b c : Handle}
    (ha : ControlLink g a c) (hb : ControlLink g b c) : a = b := by
  obtain ⟨ra, rc, hra, hrc, hmema⟩ := controlLink_records h ha
  obtain ⟨rb, rc', hrb, hrc', hmemb⟩ := controlLink_records h hb
  obtain rfl : rc = rc' := Option.some.inj (hrc.symm.trans hrc')
  obtain ⟨hlta, rfl⟩ := List.getElem?_eq_some_iff.mp hra
  obtain ⟨hltb, rfl⟩ := List.getElem?_eq_some_iff.mp hrb
  have hdisjoint := List.pairwise_iff_getElem.mp (List.nodup_flatMap.mp hv.incoming).2
  rcases Nat.lt_trichotomy a b with hlt | heq | hgt
  · exact absurd hmemb (hdisjoint a b hlta hltb hlt hmema)
  · exact heq
  · exact absurd hmema (hdisjoint b a hltb hlta hgt hmemb)

/-- A block at which a run, or the body of a function, begins. -/
def IsRoot (g : Graph) (h : Handle) : Prop :=
  ∃ n, g.node h = .ok n ∧ (n.kind = .start ∨ n.kind = .functionStart)

/-- A cycle that is reached was entered where the path began: each block of a cycle has its only
link from the cycle itself. -/
theorem cycle_of_reached (hv : Valid records) (h : build records = .ok g) {root x : Handle}
    (hreach : ReflTransGen (ControlLink g) root x) (hcycle : TransGen (PlainLink g) x x) :
    TransGen (PlainLink g) root root := by
  induction hreach with
  | refl => exact hcycle
  | tail _ hlink ih =>
    -- The block before `x` on the cycle is also the one before it on the path.
    obtain ⟨y, hback, hlast⟩ := TransGen.tail'_iff.mp hcycle
    obtain rfl := controlLink_unique hv h hlink hlast.control
    exact ih (TransGen.head' hlast hback)

/-! ## Inputs -/

def InputLink (g : Graph) (h h' : Handle) : Prop :=
  ∃ n slot, g.node h = .ok n ∧ n.input slot = some h'

theorem inputLink_records (h : build records = .ok g) {a c : Handle} (hl : InputLink g a c) :
    ∃ r r', records[a]? = some r ∧ records[c]? = some r' ∧
      ∃ s ∈ Slot.all, r.input s = r'.id ∧ r'.id ≠ "" := by
  obtain ⟨n, slot, hn, hinput⟩ := hl
  obtain ⟨r, hr, rfl⟩ := (node_of_build h).mp hn
  rw [input_nodeOf] at hinput
  obtain ⟨hne, r', hr', hid⟩ := resolve_eq_some (indexes_of_build h) hinput
  refine ⟨r, r', hr, hr', slot, ?_, hid.symm, hid ▸ hne⟩
  cases slot with
  | unlisted code => exact absurd rfl hne
  | _ => decide

theorem inputLink_acyclic (hv : Valid records) (h : build records = .ok g) (x : Handle) :
    ¬ TransGen (InputLink g) x x := by
  have hfeeds : ∀ a c, InputLink g a c →
      Feeds records ((records[a]?.map Record.id).getD "")
      ((records[c]?.map Record.id).getD "") := by
    intro a c hl
    obtain ⟨r, r', hr, hr', s, hs, hinput, hne⟩ := inputLink_records h hl
    simp only [hr, hr', Option.map_some, Option.getD_some]
    exact ⟨r, List.mem_of_getElem? hr, rfl, s, hs, hinput, hne⟩
  intro hcycle
  exact hv.acyclic _ (TransGen.lift (fun a => (records[a]?.map Record.id).getD "") hfeeds
    x x hcycle)

theorem inputLink_producer (hv : Valid records) (h : build records = .ok g) {a c : Handle}
    (hl : InputLink g a c) :
    ∃ n, g.node c = .ok n ∧ n.kind.isProducer := by
  obtain ⟨r, r', hr, hr', s, hs, hinput, hne⟩ := inputLink_records h hl
  obtain ⟨-, r'', hr'', hid, hproducer⟩ := hv.inputs r (List.mem_of_getElem? hr) s hs (hinput ▸ hne)
  obtain rfl : r'' = r' :=
    List.inj_on_of_nodup_map hv.distinct hr'' (List.mem_of_getElem? hr') (hid.trans hinput)
  exact ⟨nodeOf g.index r'', (node_of_build h).mpr ⟨r'', hr', rfl⟩, hproducer⟩

end Flowchart.Graph
