import Flowchart.Proofs.Graph.Validity
import Flowchart.Proofs.Workspace.Edits

/-!
# Links of a workspace

A link is kept at both of its ends: at a port of the block it leaves and as the way back
of the block it leads to. In a workspace that began empty the two ends always match.
-/

namespace Flowchart.Workspace

/-! ## Matching ends -/

structure Matched (records : List Record) : Prop where
  other : ∀ {a p b}, p ∈ Port.outgoing → Joined records a p b → a ≠ b
  back : ∀ {a b}, Joined records b .top a ↔ ∃ p ∈ Port.outgoing, Joined records a p b
  port : ∀ {a p q b}, p ∈ Port.outgoing → q ∈ Port.outgoing → Joined records a p b →
    Joined records a q b → p = q

section Matched

variable {records records' : List Record} {e : Edit} {r a b : Record} {p q : Port} {x y : String}

theorem top_not_outgoing : Port.top ∉ Port.outgoing := by decide

theorem Matched.congr (h : Matched records)
    (hj : ∀ x q y, Joined records' x q y ↔ Joined records x q y) :
    Matched records' := by
  refine ⟨?_, ?_, ?_⟩
  all_goals simp only [hj]
  · exact h.other
  · exact h.back
  · exact h.port

theorem not_joined_of_free (hdistinct : (records.map (·.id)).Nodup) (hr : r ∈ records)
    (hfree : r.link p = "") :
    ¬ Joined records r.id p y := by
  rintro ⟨r', hr', hid, rfl, hne⟩
  rw [List.inj_on_of_nodup_map hdistinct hr' hr hid] at hne
  exact hne hfree

theorem joined_clear (hp : p = .top ∨ p ∈ Port.outgoing) (id : String) :
    Joined (changeAt id (·.setLink p "") records) x q y ↔ Joined records x q y ∧
      ¬ (x = id ∧ q = p) :=
  joined_clearing (C := fun q _ => q = p) (fun r => r.id_setLink p "") fun r q =>
    r.link_setLink hp "" q

/-! ## Connecting -/

theorem joined_connected (hdistinct : (records.map (·.id)).Nodup)
    (hnamed : ∀ r ∈ records, r.id ≠ "") (ha : a ∈ records) (hb : b ∈ records) (hne : a.id ≠ b.id)
    (hout : p ∈ Port.outgoing) (hfree : a.link p = "") (hprevious : b.previous = "") :
    Joined (changeAt b.id (·.setLink .top a.id) (changeAt a.id (·.setLink p b.id) records)) x q y ↔
      Joined records x q y ∨ (x = a.id ∧ q = p ∧ y = b.id) ∨ x = b.id ∧ q = .top ∧ y = a.id := by
  have hfirst : ∀ x q y, Joined (changeAt a.id (·.setLink p b.id) records) x q y ↔
      Joined records x q y ∨ x = a.id ∧ q = p ∧ y = b.id := fun x q y =>
    joined_setLink ha (fun _ => not_joined_of_free hdistinct ha hfree) (Or.inr hout) (hnamed b hb)
  have hkept : b ∈ changeAt a.id (·.setLink p b.id) records :=
    List.mem_map.mpr ⟨b, hb, if_neg fun h => hne h.symm⟩
  have hback : ∀ y, ¬ Joined (changeAt a.id (·.setLink p b.id) records) b.id .top y := by
    intro y
    rw [hfirst, not_or]
    exact ⟨not_joined_of_free hdistinct hb hprevious, fun h => hne h.1.symm⟩
  rw [joined_setLink hkept hback (Or.inl rfl) (hnamed a ha), hfirst, or_assoc]

theorem Matched.connected (h : Matched records) (hdistinct : (records.map (·.id)).Nodup)
    (hnamed : ∀ r ∈ records, r.id ≠ "") (ha : a ∈ records) (hb : b ∈ records) (hne : a.id ≠ b.id)
    (hout : p ∈ Port.outgoing) (hfree : a.link p = "") (hprevious : b.previous = "")
    (hincoming : ∀ r ∈ records, ∀ q ∈ Port.outgoing, r.link q ≠ b.id) :
    Matched (changeAt b.id (·.setLink .top a.id) (changeAt a.id (·.setLink p b.id) records)) := by
  have hj : ∀ {x q y}, Joined _ x q y ↔ _ := fun {x q y} =>
    joined_connected (x := x) (q := q) (y := y) hdistinct hnamed ha hb hne hout hfree hprevious
  have hnone : ∀ {x q}, q ∈ Port.outgoing → ¬ Joined records x q b.id := by
    rintro x q hq ⟨r, hr, -, hlink, -⟩
    exact hincoming r hr q hq hlink
  refine ⟨?_, ?_, ?_⟩
  · intro x q y hq hold
    rcases hj.mp hold with hold | ⟨rfl, -, rfl⟩ | ⟨-, rfl, -⟩
    · exact h.other hq hold
    · exact hne
    · exact absurd hq top_not_outgoing
  · intro x y
    rw [hj, h.back]
    constructor
    · rintro (⟨q, hq, hold⟩ | ⟨-, rfl, -⟩ | ⟨rfl, -, rfl⟩)
      · exact ⟨q, hq, hj.mpr (Or.inl hold)⟩
      · exact absurd hout top_not_outgoing
      · exact ⟨p, hout, hj.mpr (Or.inr (Or.inl ⟨rfl, rfl, rfl⟩))⟩
    · rintro ⟨q, hq, hnew⟩
      rcases hj.mp hnew with hold | ⟨rfl, rfl, rfl⟩ | ⟨-, rfl, -⟩
      · exact Or.inl ⟨q, hq, hold⟩
      · exact Or.inr (Or.inr ⟨rfl, rfl, rfl⟩)
      · exact absurd hq top_not_outgoing
  · -- Nothing led to `b` before, so an old link and the new one differ in their targets.
    intro x q q' y hq hq' hfirst hsecond
    rcases hj.mp hfirst with hold | ⟨rfl, rfl, rfl⟩ | ⟨-, rfl, -⟩
    · rcases hj.mp hsecond with hold' | ⟨rfl, rfl, rfl⟩ | ⟨-, rfl, -⟩
      · exact h.port hq hq' hold hold'
      · exact absurd hold (hnone hq)
      · exact absurd hq' top_not_outgoing
    · rcases hj.mp hsecond with hold' | ⟨-, rfl, -⟩ | ⟨-, rfl, -⟩
      · exact absurd hold' (hnone hq')
      · rfl
      · exact absurd hq' top_not_outgoing
    · exact absurd hq top_not_outgoing

/-! ## Disconnecting -/

theorem joined_detached :
    Joined (changeAt b.id (·.setLink .top "") (changeAt b.previous (dropLinks b.id) records))
        x q y ↔
      (Joined records x q y ∧ ¬ (x = b.previous ∧ q ∈ Port.outgoing ∧ y = b.id)) ∧
      ¬ (x = b.id ∧ q = .top) := by
  rw [joined_clear (Or.inl rfl),
    joined_clearing (C := fun q y => q ∈ Port.outgoing ∧ y = b.id) (keepsBlock_dropLinks b.id).id
      (link_dropLinks b.id)]

theorem Matched.detached (h : Matched records) (hdistinct : (records.map (·.id)).Nodup)
    (hb : b ∈ records) :
    Matched (changeAt b.id (·.setLink .top "") (changeAt b.previous (dropLinks b.id) records)) := by
  have hback : ∀ {x q}, q ∈ Port.outgoing → Joined records x q b.id → x = b.previous := by
    intro x q hq hj
    obtain ⟨b', hb', hid, rfl, -⟩ := h.back.mpr ⟨q, hq, hj⟩
    rw [List.inj_on_of_nodup_map hdistinct hb' hb hid]
    rfl
  refine ⟨?_, ?_, ?_⟩
  all_goals simp only [joined_detached]
  · intro x q y hq hj
    exact h.other hq hj.1.1
  · intro x y
    constructor
    · rintro ⟨⟨hj, -⟩, hy⟩
      obtain ⟨q, hq, hj⟩ := h.back.mp hj
      refine ⟨q, hq, ⟨hj, ?_⟩, ?_⟩
      · rintro ⟨-, -, rfl⟩
        exact hy ⟨rfl, trivial⟩
      · rintro ⟨-, rfl⟩
        exact top_not_outgoing hq
    · rintro ⟨q, hq, ⟨hj, hkept⟩, -⟩
      refine ⟨⟨h.back.mpr ⟨q, hq, hj⟩, fun hout => top_not_outgoing hout.2.1⟩, ?_⟩
      rintro ⟨rfl, -⟩
      exact hkept ⟨hback hq hj, hq, rfl⟩
  · intro x q q' y hq hq' hj hj'
    exact h.port hq hq' hj.1.1 hj'.1.1

theorem joined_disconnected (hout : p ∈ Port.outgoing) :
    Joined (changeAt a.id (·.setLink p "") (changeAt (a.link p) (release a.id) records)) x q y ↔
      (Joined records x q y ∧ ¬ (x = a.link p ∧ q = .top ∧ y = a.id)) ∧ ¬ (x = a.id ∧ q = p) := by
  rw [joined_clear (Or.inr hout),
    joined_clearing (C := fun q y => q = .top ∧ y = a.id) (keepsBlock_release a.id).id
      (link_release a.id)]

theorem Matched.disconnected (h : Matched records) (hdistinct : (records.map (·.id)).Nodup)
    (ha : a ∈ records) (hout : p ∈ Port.outgoing) (hlink : a.link p ≠ "") :
    Matched (changeAt a.id (·.setLink p "") (changeAt (a.link p) (release a.id) records)) := by
  have hjoined : Joined records a.id p (a.link p) := ⟨a, ha, rfl, rfl, hlink⟩
  refine ⟨?_, ?_, ?_⟩
  all_goals simp only [joined_disconnected hout]
  · intro x q y hq hj
    exact h.other hq hj.1.1
  · intro x y
    constructor
    · rintro ⟨⟨hj, hkept⟩, -⟩
      obtain ⟨q, hq, hj⟩ := h.back.mp hj
      refine ⟨q, hq, ⟨hj, fun htop => top_not_outgoing (htop.2.1 ▸ hq)⟩, ?_⟩
      rintro ⟨rfl, rfl⟩
      exact hkept ⟨joined_unique hdistinct hj hjoined, trivial, rfl⟩
    · rintro ⟨q, hq, ⟨hj, -⟩, hkept⟩
      refine ⟨⟨h.back.mpr ⟨q, hq, hj⟩, ?_⟩, fun htop => top_not_outgoing (htop.2 ▸ hout)⟩
      -- No other port of `a` leads to the same block.
      rintro ⟨rfl, -, rfl⟩
      exact hkept ⟨rfl, h.port hq hout hj hjoined⟩
  · intro x q q' y hq hq' hj hj'
    exact h.port hq hq' hj.1.1 hj'.1.1

theorem Matched.removed (h : Matched records) (id : String) :
    Matched ((records.filter (·.id ≠ id)).map (forget id)) := by
  refine ⟨?_, ?_, ?_⟩
  all_goals simp only [joined_forget]
  · intro x q y hq hj
    exact h.other hq hj.1
  · intro x y
    rw [h.back]
    constructor
    · rintro ⟨⟨q, hq, hj⟩, hx, hy⟩
      exact ⟨q, hq, hj, hy, hx⟩
    · rintro ⟨q, hq, hj, hx, hy⟩
      exact ⟨⟨q, hq, hj⟩, hy, hx⟩
  · intro x q q' y hq hq' hj hj'
    exact h.port hq hq' hj.1 hj'.1

/-! ## All edits -/

def Unlinked (r : Record) : Prop := r.next = "" ∧ r.onTrue = "" ∧ r.onFalse = "" ∧ r.previous = ""

theorem Unlinked.link (h : Unlinked r) (p : Port) : r.link p = "" := by
  obtain ⟨hnext, htrue, hfalse, hprevious⟩ := h
  cases p with
  | next => exact hnext
  | onTrue => exact htrue
  | onFalse => exact hfalse
  | top => exact hprevious
  | unlisted code => rfl

theorem matched_nil : Matched [] := by
  refine ⟨?_, ?_, ?_⟩ <;> simp [Joined]

theorem Edited.matched {w : Workspace} (he : Edited w.records e records') (hw : w.WellFormed)
    (hadd : ∀ r, e = .add r → Unlinked r) (h : Matched w.records) : Matched records' := by
  cases he with
  | unchanged => exact h
  | added r hname hnew => exact h.congr fun _ _ _ => joined_append (hadd r rfl).link
  | removed id => exact h.removed id
  | updated id data =>
    exact h.congr fun _ _ _ => joined_congr (fun _ => rfl) fun r q => by cases q <;> rfl
  | connected a b p ha hb hne hout hport hfree hprevious hincoming =>
    exact h.connected hw.distinct hw.named ha hb hne hout hfree hprevious hincoming
  | detached b hb => exact h.detached hw.distinct hb
  | disconnected a p ha hout hlink => exact h.disconnected hw.distinct ha hout hlink
  | bound producer target s =>
    exact h.congr fun _ _ _ => joined_congr (fun _ => rfl) fun r q => by cases q <;> rfl
  | unbound id s =>
    exact h.congr fun _ _ _ => joined_congr (fun _ => rfl) fun r q => by cases q <;> rfl

theorem editAll_matched {es : List Edit} (hadd : ∀ r, .add r ∈ es → Unlinked r) :
    (empty.editAll es).WellFormed ∧ Matched (empty.editAll es).records := by
  refine editAll_invariant wellFormed_empty matched_nil ?_
  intro w rs e he hw hedited h
  refine hedited.matched hw ?_ h
  rintro r rfl
  exact hadd r he

/-! ## Targets of links -/

theorem linkTargets_nodup (h : Matched records) (hr : r ∈ records) :
    (Graph.linkTargets r Port.outgoing).Nodup := by
  rw [Graph.linkTargets, List.Nodup, List.pairwise_filter, List.pairwise_map]
  have hports : Port.outgoing.Nodup := by decide
  refine hports.imp_of_mem ?_
  intro p q hp hq hpq hlink _ heq
  have hne : r.link p ≠ "" := by simpa using hlink
  exact hpq (h.port hp hq ⟨r, hr, rfl, rfl, hne⟩ ⟨r, hr, rfl, heq.symm, hne⟩)

theorem joined_of_mem_targets (hr : r ∈ records) (hx : x ∈ Graph.linkTargets r Port.outgoing) :
    ∃ p ∈ Port.outgoing, Joined records r.id p x := by
  rw [Graph.linkTargets, List.mem_filter, List.mem_map] at hx
  obtain ⟨⟨p, hp, hlink⟩, hne⟩ := hx
  exact ⟨p, hp, r, hr, rfl, hlink, by simpa using hne⟩

theorem Matched.targets_nodup (h : Matched records) (hdistinct : (records.map (·.id)).Nodup) :
    (records.flatMap (Graph.linkTargets · Port.outgoing)).Nodup := by
  rw [List.nodup_flatMap]
  refine ⟨fun r hr => linkTargets_nodup h hr, ?_⟩
  have hids := hdistinct
  rw [List.Nodup, List.pairwise_map] at hids
  refine hids.imp_of_mem ?_
  -- The way back from a common target would lead to both blocks.
  intro r r' hr hr' hne x hx hx'
  have hback := h.back.mpr (joined_of_mem_targets hr hx)
  have hback' := h.back.mpr (joined_of_mem_targets hr' hx')
  exact hne (joined_unique hdistinct hback hback')

end Matched

/-! ## Consistency -/

structure Consistent (w : Workspace) : Prop where
  found : ∀ id r, w.block? id = some r ↔ r ∈ w.records ∧ r.id = id
  forward : ∀ a ∈ w.records, ∀ p ∈ Port.outgoing, a.link p ≠ "" →
    a.link p ≠ a.id ∧ ∃ b, w.block? (a.link p) = some b ∧ b.previous = a.id
  backward : ∀ b ∈ w.records, b.previous ≠ "" →
    ∃ a, w.block? b.previous = some a ∧ ∃! p, p ∈ Port.outgoing ∧ a.link p = b.id
  single : (w.records.flatMap (Graph.linkTargets · Port.outgoing)).Nodup

theorem consistent_of_matched {w : Workspace} (hw : w.WellFormed) (h : Matched w.records) :
    w.Consistent := by
  refine ⟨fun id r => hw.block?_eq_some, ?_, ?_, h.targets_nodup hw.distinct⟩
  · intro a ha p hp hne
    have hj : Joined w.records a.id p (a.link p) := ⟨a, ha, rfl, rfl, hne⟩
    obtain ⟨b, hb, hid, hprevious, -⟩ := h.back.mpr ⟨p, hp, hj⟩
    exact ⟨fun heq => h.other hp hj heq.symm, b, hw.block?_eq_some.mpr ⟨hb, hid⟩, hprevious⟩
  · intro b hb hne
    have hback : Joined w.records b.id .top b.previous := ⟨b, hb, rfl, rfl, hne⟩
    obtain ⟨p, hp, hj⟩ := h.back.mp hback
    obtain ⟨a, ha, hid, hlink, hb'⟩ := hj
    refine ⟨a, hw.block?_eq_some.mpr ⟨ha, hid⟩, p, ⟨hp, hlink⟩, ?_⟩
    rintro q ⟨hq, hlink'⟩
    exact h.port hq hp ⟨a, ha, rfl, hlink', hb'⟩ ⟨a, ha, rfl, hlink, hb'⟩

/-- Links stay consistent under all edits, the refused ones included, if blocks are added without
links. -/
theorem links_stay_consistent (es : List Edit) (hadd : ∀ r, .add r ∈ es → Unlinked r) :
    (empty.editAll es).Consistent := by
  obtain ⟨hw, hmatched⟩ := editAll_matched hadd
  exact consistent_of_matched hw hmatched

/-- A loop is put in and taken out again: its block is removed while both of its links and its
way back are in use, and comes back as a block of another kind. -/
def rewiring : List Edit :=
  [.add { id := "s", type := "start" }, .add { id := "w", type := "while" },
    .add { id := "o", type := "output" },
   .connect "s" .next "w", .connect "w" .onTrue "o", .connect "w" .onFalse "o",
   .connect "o" .next "w", .disconnect "o" .top, .connect "w" .onFalse "o",
   .disconnect "w" (.unlisted 7), .remove "w", .add { id := "w", type := "end" },
   .connect "s" .next "o", .connect "o" .next "w", .disconnect "o" .onTrue]

theorem links_stay_consistent_rewiring :
    (∀ r, .add r ∈ rewiring → Unlinked r) ∧ (empty.editAll rewiring).Consistent ∧
      (empty.editAll rewiring).records.map (fun r => (r.id, r.next, r.onFalse, r.previous)) =
        [("s", "o", "", ""), ("o", "w", "", "s"), ("w", "", "", "o")] := by
  have hadd : ∀ r, .add r ∈ rewiring → Unlinked r := by simp [rewiring, Unlinked]
  exact ⟨hadd, links_stay_consistent rewiring hadd, by decide⟩

end Flowchart.Workspace
