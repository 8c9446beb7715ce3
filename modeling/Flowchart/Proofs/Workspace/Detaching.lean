import Flowchart.Proofs.Workspace.Links
import Flowchart.Proofs.Workspace.Undoing

/-!
# Detaching a block

The links that lead to a block are removed by way of the block that it names as the one before
it. Links from other blocks stay, so the block is free afterwards exactly if there were none.
Records may come with links that are kept at one end only, and then detaching does not free the
block.
-/

namespace Flowchart.Workspace

/-- No port of any block leads to `id`. -/
def Free (records : List Record) (id : String) : Prop :=
  ∀ r ∈ records, ∀ q ∈ Port.outgoing, r.link q ≠ id

/-- All links to `b` leave the block that its way back names. -/
def Traced (records : List Record) (b : Record) : Prop :=
  ∀ r ∈ records, ∀ q ∈ Port.outgoing, r.link q = b.id → r.id = b.previous

instance (records : List Record) (id : String) : Decidable (Free records id) :=
  inferInstanceAs (Decidable (∀ r ∈ records, ∀ q ∈ Port.outgoing, r.link q ≠ id))

instance (records : List Record) (b : Record) : Decidable (Traced records b) :=
  inferInstanceAs (Decidable (∀ r ∈ records, ∀ q ∈ Port.outgoing, r.link q = b.id →
    r.id = b.previous))

section Links

variable {w w' : Workspace} {b : Record}

theorem free_iff_not_joined {records : List Record} {id : String} (hid : id ≠ "") :
    Free records id ↔ ∀ x, ∀ q ∈ Port.outgoing, ¬ Joined records x q id := by
  constructor
  · rintro hfree x q hq ⟨r, hr, -, hlink, -⟩
    exact hfree r hr q hq hlink
  · intro hnone r hr q hq hlink
    exact hnone r.id q hq ⟨r, hr, rfl, hlink, hid⟩

theorem traced_iff_joined {records : List Record} (hid : b.id ≠ "") :
    Traced records b ↔ ∀ x, ∀ q ∈ Port.outgoing, Joined records x q b.id → x = b.previous := by
  constructor
  · rintro htraced x q hq ⟨r, hr, rfl, hlink, -⟩
    exact htraced r hr q hq hlink
  · intro hall r hr q hq hlink
    exact hall r.id q hq ⟨r, hr, rfl, hlink, hid⟩

variable (h : w.WellFormed) (hb : b ∈ w.records) (hd : w.disconnect b.id .top = .ok w')
include h hb hd

theorem joined_of_detached (x : String) (q : Port) (y : String) :
    Joined w'.records x q y ↔
      (Joined w.records x q y ∧ ¬ (x = b.previous ∧ q ∈ Port.outgoing ∧ y = b.id)) ∧
      ¬ (x = b.id ∧ q = .top) := by
  rw [h.disconnect_top hb] at hd
  cases hd
  split_ifs with hprevious
  · -- No block is named by an empty way back, and there is nothing to clear.
    constructor
    · intro hj
      refine ⟨⟨hj, ?_⟩, ?_⟩
      · rintro ⟨hx, -, -⟩
        obtain ⟨r, hr, hid, -, -⟩ := hj
        exact h.named r hr (hid.trans (hx.trans hprevious))
      · rintro ⟨rfl, rfl⟩
        exact not_joined_of_free (p := .top) h.distinct hb hprevious hj
    · rintro ⟨⟨hj, -⟩, -⟩
      exact hj
  · have hfirst := h.rewire b.previous (keepsBlock_dropLinks b.id)
    rw [hfirst.modify_records, h.modify_records]
    exact joined_detached

theorem free_iff_traced : Free w'.records b.id ↔ Traced w.records b := by
  have hid := h.named b hb
  rw [free_iff_not_joined hid, traced_iff_joined hid]
  refine forall_congr' fun x => forall₂_congr fun q hq => ?_
  have htop : q ≠ .top := fun htop => top_not_outgoing (htop ▸ hq)
  rw [joined_of_detached h hb hd]
  simp only [hq, htop, and_true, and_false, not_false_eq_true, not_and, not_not]

theorem exists_detached : ∃ b' ∈ w'.records, b'.id = b.id ∧ b'.previous = "" := by
  have hw' := (disconnect_top_outcome h hb hd).1
  have hin : w'.index.contains b.id := by
    rw [index_disconnect hd]
    exact h.contains_iff.mpr ⟨b, hb, rfl⟩
  obtain ⟨b', hb', hid⟩ := hw'.contains_iff.mp hin
  refine ⟨b', hb', hid, ?_⟩
  by_contra hne
  have hj : Joined w'.records b.id .top b'.previous := ⟨b', hb', hid, rfl, hne⟩
  exact ((joined_of_detached h hb hd _ _ _).mp hj).2 ⟨rfl, rfl⟩

theorem connect_iff_traced {a : Record} {p : Port} (ha : a ∈ w'.records) (hother : a.id ≠ b.id)
    (hport : checkPort a p = .ok ()) (hfree : a.link p = "") :
    (∃ w'', w'.connect a.id p b.id = .ok w'') ↔ Traced w.records b := by
  have hw' := (disconnect_top_outcome h hb hd).1
  rw [← free_iff_traced h hb hd]
  constructor
  · rintro ⟨w'', hc⟩
    obtain ⟨a', b', -, hid, hl, -⟩ := hw'.connect_eq_ok_iff.mp hc
    intro r hr q hq
    exact hid ▸ hl.incoming r hr q hq
  · intro hnone
    obtain ⟨b', hb', hid, hprevious⟩ := exists_detached h hb hd
    obtain ⟨hout, hport⟩ := checkPort_eq_ok_iff.mp hport
    rw [← hid] at hother hnone ⊢
    exact ⟨_, hw'.connect_eq_ok_iff.mpr ⟨a, b', rfl, rfl,
      ⟨ha, hb', hother, hout, hport, hfree, hprevious, hnone⟩, rfl⟩⟩

end Links

/-- What detaching `b` does: the links to it that leave the block before it go, and its way back.
It is free afterwards, so that any other block may be connected to it, exactly if its links were
traced. -/
structure Detached (w : Workspace) (b : Record) (w' : Workspace) : Prop where
  links : ∀ x q y, Joined w'.records x q y ↔
    (Joined w.records x q y ∧ ¬ (x = b.previous ∧ q ∈ Port.outgoing ∧ y = b.id)) ∧
    ¬ (x = b.id ∧ q = .top)
  free : Free w'.records b.id ↔ Traced w.records b
  connect : ∀ a ∈ w'.records, a.id ≠ b.id → ∀ p, checkPort a p = .ok () → a.link p = "" →
    ((∃ w'', w'.connect a.id p b.id = .ok w'') ↔ Traced w.records b)

/-- Whatever records a workspace was made of and whatever edits it went through, detaching a block
frees it exactly if all links to it leave the block that its way back names. -/
theorem detaching_frees_traced_blocks (records : List Record) (w : Workspace)
    (h : ofRecords records = .ok w) (es : List Edit) (id : String) (w' : Workspace)
    (hd : (w.editAll es).disconnect id .top = .ok w') :
    ∃ b ∈ (w.editAll es).records, b.id = id ∧ Detached (w.editAll es) b w' := by
  have hw := (wellFormed_of_ofRecords h).editAll es
  obtain ⟨b, hb, rfl, -⟩ := find_bind hw hd
  refine ⟨b, hb, rfl, joined_of_detached hw hb hd, free_iff_traced hw hb hd, ?_⟩
  intro a ha hother p
  exact connect_iff_traced hw hb hd ha hother

/-- Two ports of one block lead to another that knows of it, and a third leads nowhere. -/
def doubled : List Record :=
  [{ id := "w", type := "while", next := "gone", onTrue := "o", onFalse := "o" },
   { id := "o", type := "output", previous := "w" }, { id := "t", type := "output" }]

theorem detaching_frees_traced_blocks_doubled :
    ∃ w w', ofRecords doubled = .ok w ∧ w.disconnect "o" .top = .ok w' ∧ ¬ Free w.records "o" ∧
      Free w'.records "o" ∧
      ∃ w'', w'.connect "t" .next "o" = .ok w'' := by
  obtain ⟨w, w', hw, hd, htaken, htraced, ht⟩ : ∃ w w', ofRecords doubled = .ok w ∧
    w.disconnect "o" .top = .ok w' ∧
      ¬ Free w.records "o" ∧ (∀ b ∈ w.records, b.id = "o" → Traced w.records b) ∧
      { id := "t", type := "output" } ∈ w'.records :=
        ⟨_, _, rfl, rfl, by decide, by decide, by decide⟩
  obtain ⟨b, hb, hid, hdetached⟩ := detaching_frees_traced_blocks doubled w hw [] "o" w' hd
  have htraced := htraced b hb hid
  have hconnect := hdetached.connect _ ht (by rw [hid]; decide) .next rfl rfl
  rw [hid] at hconnect
  exact ⟨w, w', hw, hd, htaken, hid ▸ hdetached.free.mpr htraced, hconnect.mpr htraced⟩

/-- A link of which only the end at its source is kept. -/
def oneEnded : List Record :=
  [{ id := "s", type := "start", next := "o" }, { id := "o", type := "output" },
    { id := "t", type := "output" }]

theorem detaching_may_leave_links :
    ∃ w w', ofRecords oneEnded = .ok w ∧ w.disconnect "o" .top = .ok w' ∧ ¬ Free w'.records "o" ∧
      w'.connect "t" .next "o" = .error { cause := .edit .incomingTaken, node := "o" } :=
  ⟨_, _, rfl, rfl, by decide, rfl⟩

end Flowchart.Workspace
