import Flowchart.Proofs.Workspace.Built
import Flowchart.Proofs.Workspace.InPlace

/-!
# Undoing a connection

A link can be taken back at either of its ends, and nothing remains of it. Taken back at its
target, the port to be cleared is found by the name it holds, so this relies on the checks made
before: no port of any block led to the target, and the target had no way back.
-/

namespace Flowchart

/-! ## Ports of a record -/

namespace Record

variable {r : Record} {p : Port} {id : String}

theorem setLink_cleared (hp : p ∈ Port.outgoing) (hfree : r.link p = "") :
    (r.setLink p id).setLink p "" = r := by
  simp only [Port.outgoing, List.mem_cons, List.not_mem_nil, or_false] at hp
  rcases hp with rfl | rfl | rfl <;> simp [setLink, ← hfree, link]

theorem setLink_dropped (hp : p ∈ Port.outgoing) (hfree : r.link p = "")
    (hother : ∀ q ∈ Port.outgoing, r.link q ≠ id) :
    Workspace.dropLinks id (r.setLink p id) = r := by
  simp only [Port.outgoing, List.forall_mem_cons, link] at hother
  obtain ⟨hnext, htrue, hfalse, -⟩ := hother
  simp only [Port.outgoing, List.mem_cons, List.not_mem_nil, or_false] at hp
  rcases hp with rfl | rfl | rfl <;>
    simp [Workspace.dropLinks, Port.outgoing, setLink, link, hnext, htrue, hfalse, ← hfree]

theorem setTop_cleared (hfree : r.previous = "") : (r.setLink .top id).setLink .top "" = r := by
  simp [setLink, ← hfree]

theorem setTop_released (hfree : r.previous = "") :
    Workspace.release id (r.setLink .top id) = r := by
  simp [Workspace.release, setLink, ← hfree]

end Record

namespace Workspace

variable {w : Workspace} {id id' : String} {f g : Record → Record}

/-! ## Changes of two records -/

theorem find_eq_ok_at {r : Record} :
    w.find id = .ok r ↔ ∃ i, w.index.get? id = some i ∧ w.records[i]? = some r := by
  rw [← Option.bind_eq_some_iff]
  unfold find block?
  cases (w.index.get? id).bind (w.records[·]?) with
  | some r' => simp
  | none => simp [refuse]

theorem modify_of_some {i : Nat} (hi : w.index.get? id = some i) :
    w.modify id f = ⟨w.records.modify i f, w.index⟩ := by
  simp [modify, hi]

theorem modify_of_none (hi : w.index.get? id = none) : w.modify id f = w := by
  simp [modify, hi]

theorem modify_undone {r : Record} (hr : w.find id = .ok r) (hfg : g (f r) = r) :
    (w.modify id f).modify id g = w := by
  obtain ⟨i, hi, hri⟩ := find_eq_ok_at.mp hr
  have hsame : w.records.modify i (fun r => g (f r)) = w.records := by
    apply List.ext_getElem?
    intro j
    rw [List.getElem?_modify]
    by_cases hij : i = j
    · subst hij
      simp [hri, hfg]
    · simp [hij]
  rw [InPlace.modify_modify, modify_of_some hi, hsame]

theorem find_modify_self {r : Record} (hr : w.find id = .ok r) :
    (w.modify id f).find id = .ok (f r) := by
  obtain ⟨i, hi, hri⟩ := find_eq_ok_at.mp hr
  rw [modify_of_some hi, find_eq_ok_at]
  exact ⟨i, hi, by simp [hri]⟩

theorem WellFormed.position_ne (h : w.WellFormed) (hne : id ≠ id') {i j : Nat}
    (hi : w.index.get? id = some i) (hj : w.index.get? id' = some j) : i ≠ j := by
  rintro rfl
  obtain ⟨r, hr, hid⟩ := (h.index id i).mp hi
  obtain ⟨r', hr', hid'⟩ := (h.index id' i).mp hj
  obtain rfl : r = r' := Option.some.inj (hr.symm.trans hr')
  exact hne (hid.symm.trans hid')

theorem WellFormed.find_modify_ne {r : Record} (h : w.WellFormed) (hne : id ≠ id')
    (hr : w.find id' = .ok r) :
    (w.modify id f).find id' = .ok r := by
  obtain ⟨j, hj, hrj⟩ := find_eq_ok_at.mp hr
  cases hi : w.index.get? id with
  | none => rwa [modify_of_none hi]
  | some i =>
    have hij := h.position_ne hne hi hj
    rw [modify_of_some hi, find_eq_ok_at]
    exact ⟨j, hj, by simp [hij, hrj]⟩

theorem WellFormed.modify_comm (h : w.WellFormed) (hne : id ≠ id') :
    (w.modify id f).modify id' g = (w.modify id' g).modify id f := by
  cases hi : w.index.get? id with
  | none => cases hj : w.index.get? id' <;> simp [Workspace.modify, hi, hj]
  | some i =>
    cases hj : w.index.get? id' with
    | none => simp [Workspace.modify, hi, hj]
    | some j =>
      have hij := h.position_ne hne hi hj
      simp [Workspace.modify, hi, hj, List.modify_modify_ne f g w.records hij]

/-! ## Taking a link back -/

section Connected

variable {a b : Record} {p : Port} (h : w.WellFormed) (hl : Connects w.records a p b)
include h hl

theorem find_source : (w.connected a p b).find a.id = .ok (a.setLink p b.id) :=
  (h.setLink a.id p b.id).find_modify_ne hl.other.symm (find_modify_self (h.find_mem hl.source))

theorem find_target : (w.connected a p b).find b.id = .ok (b.setLink .top a.id) :=
  find_modify_self (h.find_modify_ne hl.other (h.find_mem hl.target))

theorem disconnect_source : (w.connected a p b).disconnect a.id p = .ok w := by
  have hw : (w.connected a p b).WellFormed := (h.setLink a.id p b.id).setLink b.id .top a.id
  have hd := hw.disconnect_outgoing (hw.find_eq_ok_iff.mp (find_source h hl)).1 hl.outgoing
  have hlink : (a.setLink p b.id).link p = b.id := by simp [a.link_setLink (Or.inr hl.outgoing)]
  rw [a.id_setLink, hlink, if_neg (h.named b hl.target)] at hd
  have hback : (w.connected a p b).modify b.id (release a.id) = w.modify a.id (·.setLink p b.id) :=
    modify_undone (h.find_modify_ne hl.other (h.find_mem hl.target)) (b.setTop_released hl.previous)
  have hport : (w.modify a.id (·.setLink p b.id)).modify a.id (·.setLink p "") = w :=
    modify_undone (h.find_mem hl.source) (a.setLink_cleared hl.outgoing hl.free)
  rw [hd, hback, hport]

theorem disconnect_target : (w.connected a p b).disconnect b.id .top = .ok w := by
  have hfirst := h.setLink a.id p b.id
  have hw : (w.connected a p b).WellFormed := hfirst.setLink b.id .top a.id
  have hd := hw.disconnect_top (hw.find_eq_ok_iff.mp (find_target h hl)).1
  have hprevious : (b.setLink .top a.id).previous = a.id := rfl
  rw [b.id_setLink, hprevious, if_neg (h.named a hl.source)] at hd
  -- Only the new link of `a` is dropped, since no other port led to `b`.
  have hport : (w.modify a.id (·.setLink p b.id)).modify a.id (dropLinks b.id) = w :=
    modify_undone (h.find_mem hl.source)
      (a.setLink_dropped hl.outgoing hl.free (hl.incoming a hl.source))
  have hback : (w.modify b.id (·.setLink .top a.id)).modify b.id (·.setLink .top "") = w :=
    modify_undone (h.find_mem hl.target) (b.setTop_cleared hl.previous)
  rw [hd, connected, hfirst.modify_comm hl.other.symm, hport, hback]

end Connected

/-- Whatever records a workspace was made of and whatever edits it went through, a link that was
put in can be taken back at its source and at its target, and the workspace is as it was before. -/
theorem disconnecting_undoes_connecting (records : List Record) (w : Workspace)
    (h : ofRecords records = .ok w) (es : List Edit) (source : String) (p : Port) (target : String)
    (w' : Workspace) (hc : (w.editAll es).connect source p target = .ok w') :
    w'.disconnect source p = .ok (w.editAll es) ∧ w'.disconnect target .top =
      .ok (w.editAll es) := by
  have hw := (wellFormed_of_ofRecords h).editAll es
  obtain ⟨a, b, rfl, rfl, hl, rfl⟩ := hw.connect_eq_ok_iff.mp hc
  exact ⟨disconnect_source hw hl, disconnect_target hw hl⟩

/-- Links that do not match at their two ends, lead back or lead nowhere. -/
def askew : List Record :=
  [{ id := "w", type := "while", next := "gone", onFalse := "w", previous := "o" },
   { id := "o", type := "output", onTrue := "w" },
   { id := "e", type := "end", previous := "w", next := "o" }]

def straightening : List Edit :=
  [.disconnect "e" .next, .connect "w" .onTrue "e", .update "o" { expression := "1" }]

theorem disconnecting_undoes_connecting_askew :
    ∃ w w', ofRecords askew = .ok w ∧ (w.editAll straightening).connect "w" .onTrue "o" = .ok w' ∧
      w'.records.map (fun r => (r.id, r.onTrue, r.previous)) =
      [("w", "o", "o"), ("o", "w", "w"), ("e", "", "w")] ∧
      w'.disconnect "w" .onTrue = .ok (w.editAll straightening) ∧
      w'.disconnect "o" .top = .ok (w.editAll straightening) := by
  obtain ⟨w, w', hw, hc, hlinks⟩ : ∃ w w', ofRecords askew = .ok w ∧
      (w.editAll straightening).connect "w" .onTrue "o" = .ok w' ∧
      w'.records.map (fun r => (r.id, r.onTrue, r.previous)) =
      [("w", "o", "o"), ("o", "w", "w"), ("e", "", "w")] :=
    ⟨_, _, rfl, rfl, by decide⟩
  exact ⟨w, w', hw, hc, hlinks,
    disconnecting_undoes_connecting askew w hw straightening "w" .onTrue "o" w' hc⟩

end Workspace

end Flowchart
