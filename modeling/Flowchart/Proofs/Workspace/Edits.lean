import Flowchart.Proofs.Workspace.Index

/-!
# What an edit can do

Each edit seen as a change to the list of records, said once for all invariants, and what
the change does to the links between blocks.
-/

namespace Flowchart

/-! ## Ports of a record -/

namespace Record

theorem id_setLink (r : Record) (p : Port) (x : String) : (r.setLink p x).id = r.id := by
  cases p <;> rfl

theorem type_setLink (r : Record) (p : Port) (x : String) : (r.setLink p x).type = r.type := by
  cases p <;> rfl

theorem inputs_setLink (r : Record) (p : Port) (x : String) :
    (r.setLink p x).inputs = r.inputs := by
  cases p <;> rfl

theorem link_setLink (r : Record) {p : Port} (hp : p = .top ∨ p ∈ Port.outgoing) (x : String)
    (q : Port) :
    (r.setLink p x).link q = if q = p then x else r.link q := by
  simp only [Port.outgoing, List.mem_cons, List.not_mem_nil, or_false] at hp
  rcases hp with rfl | rfl | rfl | rfl <;> cases q <;> rfl

end Record

namespace Workspace

theorem link_forget (id : String) (r : Record) (q : Port) :
    (forget id r).link q = if r.link q = id then "" else r.link q := by
  cases q with
  | unlisted code => simp [Record.link]
  | _ => rfl

theorem input_forget (id : String) (r : Record) (s : Slot) :
    (forget id r).input s = if r.input s = id then "" else r.input s := by
  cases s with
  | unlisted code => simp [Record.input, Slots.get?]
  | _ => rfl

/-- Clears the way back to `id`. -/
def release (id : String) (r : Record) : Record :=
  if r.previous = id then { r with previous := "" } else r

theorem link_release (id : String) (r : Record) (q : Port) :
    (release id r).link q = if q = .top ∧ r.link q = id then "" else r.link q := by
  unfold release
  cases q <;> split_ifs <;> simp_all [Record.link]

theorem link_dropLinks (id : String) (r : Record) (q : Port) :
    (dropLinks id r).link q = if q ∈ Port.outgoing ∧ r.link q = id then "" else r.link q := by
  simp only [dropLinks, Port.outgoing, List.foldl_cons, List.foldl_nil]
  split_ifs <;> cases q <;> simp_all [Record.link, Record.setLink]

/-- A change that concerns nothing but the ports of a record. -/
structure KeepsBlock (change : Record → Record) : Prop where
  id : ∀ r, (change r).id = r.id
  type : ∀ r, (change r).type = r.type
  inputs : ∀ r, (change r).inputs = r.inputs

theorem keepsBlock_setLink (p : Port) (x : String) : KeepsBlock (·.setLink p x) :=
  ⟨fun r => r.id_setLink p x, fun r => r.type_setLink p x, fun r => r.inputs_setLink p x⟩

theorem keepsBlock_dropLinks (id : String) : KeepsBlock (dropLinks id) := by
  refine ⟨fun r => ?_, fun r => ?_, fun r => ?_⟩ <;>
    simp only [dropLinks, Port.outgoing, List.foldl_cons, List.foldl_nil] <;> split_ifs <;> rfl

theorem keepsBlock_release (id : String) : KeepsBlock (release id) := by
  refine ⟨fun r => ?_, fun r => ?_, fun r => ?_⟩ <;> unfold release <;> split_ifs <;> rfl

/-! ## Edits as changes of records -/

/-- What an edit may make of the records of a well-formed workspace. -/
inductive Edited (records : List Record) : Edit → List Record → Prop
  /-- The edit was refused, or there was nothing to do. -/
  | unchanged (e : Edit) : Edited records e records
  | added (r : Record) (hname : r.id ≠ "") (hnew : ∀ x ∈ records, x.id ≠ r.id) :
      Edited records (.add r) (records ++ [r])
  | removed (id : String) :
      Edited records (.remove id) ((records.filter (·.id ≠ id)).map (forget id))
  | updated (id : String) (data : Data) :
      Edited records (.update id data) (changeAt id (fun r => { r with data }) records)
  | connected (a b : Record) (p : Port) (ha : a ∈ records) (hb : b ∈ records) (hne : a.id ≠ b.id)
      (hout : p ∈ Port.outgoing) (hport : p = .next ∨ a.kind.isBranching) (hfree : a.link p = "")
      (hprevious : b.previous = "")
      (hincoming : ∀ r ∈ records, ∀ q ∈ Port.outgoing, r.link q ≠ b.id) :
      Edited records (.connect a.id p b.id)
        (changeAt b.id (·.setLink .top a.id) (changeAt a.id (·.setLink p b.id) records))
  | detached (b : Record) (hb : b ∈ records) :
      Edited records (.disconnect b.id .top)
        (changeAt b.id (·.setLink .top "") (changeAt b.previous (dropLinks b.id) records))
  | disconnected (a : Record) (p : Port) (ha : a ∈ records) (hout : p ∈ Port.outgoing)
      (hlink : a.link p ≠ "") :
      Edited records (.disconnect a.id p)
        (changeAt a.id (·.setLink p "") (changeAt (a.link p) (release a.id) records))
  | bound (producer target : Record) (s : Slot) (hp : producer ∈ records) (ht : target ∈ records)
      (hproducer : producer.kind.isProducer) (haccepts : target.kind.accepts s) :
      Edited records (.connectInput producer.id target.id s)
        (changeAt target.id (·.setInput s producer.id) records)
  | unbound (id : String) (s : Slot) :
      Edited records (.disconnectInput id s) (changeAt id (·.setInput s "") records)

section Cases

variable {w w' : Workspace}

theorem find_bind {id : String} {k : Record → Except Failure Workspace} (h : w.WellFormed)
    (hf : w.find id >>= k = .ok w') : ∃ r ∈ w.records, r.id = id ∧ k r = .ok w' := by
  obtain ⟨r, hr, hk⟩ := bind_eq_ok hf
  obtain ⟨hmem, hid⟩ := h.find_eq_ok_iff.mp hr
  exact ⟨r, hmem, hid, hk⟩

theorem checkPort_eq_ok_iff {r : Record} {p : Port} :
    checkPort r p = .ok () ↔ p ∈ Port.outgoing ∧ (p = .next ∨ r.kind.isBranching) := by
  cases p <;> simp [checkPort, refuse, Port.outgoing]

theorem hasIncoming_eq_false_iff {id : String} :
    w.hasIncoming id = false ↔ ∀ r ∈ w.records, ∀ q ∈ Port.outgoing, r.link q ≠ id := by
  simp [hasIncoming, Port.outgoing, Record.link, and_assoc]

/-- The outcome of an edit that was carried out. -/
def Outcome (w : Workspace) (e : Edit) (w' : Workspace) : Prop :=
  w'.WellFormed ∧ Edited w.records e w'.records

theorem add_outcome {r : Record} (h : w.WellFormed) (ha : w.add r = .ok w') :
    Outcome w (.add r) w' := by
  refine ⟨h.add ha, ?_⟩
  obtain ⟨hname, hindex, -, rfl⟩ := add_cases ha
  exact .added r hname fun x hx hid => hindex (h.contains_iff.mpr ⟨x, hx, hid⟩)

theorem remove_outcome {id : String} (h : w.WellFormed) (hr : w.remove id = .ok w') :
    Outcome w (.remove id) w' := by
  refine ⟨h.remove hr, ?_⟩
  rw [(h.remove_cases hr).2.1]
  exact .removed id

theorem update_outcome {id : String} {data : Data} (h : w.WellFormed)
    (hu : w.update id data = .ok w') :
    Outcome w (.update id data) w' := by
  obtain ⟨r, -, -, hk⟩ := find_bind h hu
  cases hk
  refine ⟨h.modify id (fun _ => rfl) (fun _ => rfl), ?_⟩
  rw [h.modify_records]
  exact .updated id data

/-- What is asked of a link from port `p` of `a` to `b`. -/
structure Connects (records : List Record) (a : Record) (p : Port) (b : Record) : Prop where
  source : a ∈ records
  target : b ∈ records
  other : a.id ≠ b.id
  outgoing : p ∈ Port.outgoing
  port : p = .next ∨ a.kind.isBranching
  free : a.link p = ""
  previous : b.previous = ""
  incoming : ∀ r ∈ records, ∀ q ∈ Port.outgoing, r.link q ≠ b.id

/-- The workspace with that link, at both of its ends. -/
def connected (w : Workspace) (a : Record) (p : Port) (b : Record) : Workspace :=
  (w.modify a.id (·.setLink p b.id)).modify b.id (·.setLink .top a.id)

theorem WellFormed.connect_eq_ok_iff {source target : String} {p : Port} (h : w.WellFormed) :
    w.connect source p target = .ok w' ↔
      ∃ a b, a.id = source ∧ b.id = target ∧ Connects w.records a p b ∧ w' = w.connected a p b := by
  constructor
  · intro hc
    unfold connect at hc
    split_ifs at hc with hself
    · cases hc
    · obtain ⟨a, ha, rfl, hc⟩ := find_bind h hc
      obtain ⟨b, hb, rfl, hc⟩ := find_bind h hc
      obtain ⟨⟨⟩, hport, hc⟩ := bind_eq_ok hc
      obtain ⟨hout, hport⟩ := checkPort_eq_ok_iff.mp hport
      split_ifs at hc with hfree hincoming
      · cases hc
      · cases hc
      · cases hc
        obtain ⟨hprevious, hincoming⟩ := not_or.mp hincoming
        refine ⟨a, b, rfl, rfl,
          ⟨ha, hb, hself, hout, hport, by simpa using hfree, by simpa using hprevious, ?_⟩, rfl⟩
        exact hasIncoming_eq_false_iff.mp (by simpa using hincoming)
  · rintro ⟨a, b, rfl, rfl, hl, rfl⟩
    have ha := h.find_mem hl.source
    have hb := h.find_mem hl.target
    have hport : checkPort a p = .ok () := checkPort_eq_ok_iff.mpr ⟨hl.outgoing, hl.port⟩
    have hincoming : w.hasIncoming b.id = false := hasIncoming_eq_false_iff.mpr hl.incoming
    simp only [connect, hl.other, if_false, ha, hb, hport, hl.free, hl.previous, hincoming, bind,
      Except.bind]
    rfl

theorem WellFormed.rewire {change : Record → Record} (h : w.WellFormed) (id : String)
    (hkeeps : KeepsBlock change) :
    (w.modify id change).WellFormed := h.modify id hkeeps.id hkeeps.type

theorem WellFormed.setLink (h : w.WellFormed) (id : String) (p : Port) (x : String) :
    (w.modify id (·.setLink p x)).WellFormed := h.rewire id (keepsBlock_setLink p x)

theorem connect_outcome {source target : String} {p : Port} (h : w.WellFormed)
    (hc : w.connect source p target = .ok w') : Outcome w (.connect source p target) w' := by
  obtain ⟨a, b, rfl, rfl, hl, rfl⟩ := h.connect_eq_ok_iff.mp hc
  have hfirst := h.setLink a.id p b.id
  refine ⟨hfirst.setLink b.id .top a.id, ?_⟩
  rw [connected, hfirst.modify_records, h.modify_records]
  exact .connected a b p hl.source hl.target hl.other hl.outgoing hl.port hl.free hl.previous
    hl.incoming

theorem WellFormed.disconnect_top {b : Record} (h : w.WellFormed) (hb : b ∈ w.records) :
    w.disconnect b.id .top = .ok (if b.previous = "" then w
      else (w.modify b.previous (dropLinks b.id)).modify b.id (·.setLink .top "")) := by
  simp only [disconnect, h.find_mem hb, bind, Except.bind]
  split_ifs <;> rfl

theorem WellFormed.disconnect_outgoing {a : Record} {p : Port} (h : w.WellFormed)
    (ha : a ∈ w.records) (hout : p ∈ Port.outgoing) :
    w.disconnect a.id p = .ok (if a.link p = "" then w
      else (w.modify (a.link p) (release a.id)).modify a.id (·.setLink p "")) := by
  have hfind := h.find_mem ha
  simp only [Port.outgoing, List.mem_cons, List.not_mem_nil, or_false] at hout
  rcases hout with rfl | rfl | rfl
  all_goals
    simp only [disconnect, hfind, bind, Except.bind]
    split_ifs <;> rfl

theorem disconnect_top_outcome {b : Record} (h : w.WellFormed) (hb : b ∈ w.records)
    (hd : w.disconnect b.id .top = .ok w') : Outcome w (.disconnect b.id .top) w' := by
  rw [h.disconnect_top hb] at hd
  cases hd
  split_ifs
  · exact ⟨h, .unchanged _⟩
  · have hfirst := h.rewire b.previous (keepsBlock_dropLinks b.id)
    refine ⟨hfirst.setLink b.id .top "", ?_⟩
    rw [hfirst.modify_records, h.modify_records]
    exact .detached b hb

theorem disconnect_outgoing_outcome {a : Record} {p : Port} (h : w.WellFormed) (ha : a ∈ w.records)
    (hout : p ∈ Port.outgoing) (hd : w.disconnect a.id p = .ok w') :
    Outcome w (.disconnect a.id p) w' := by
  rw [h.disconnect_outgoing ha hout] at hd
  cases hd
  split_ifs with hlink
  · exact ⟨h, .unchanged _⟩
  · have hfirst := h.rewire (a.link p) (keepsBlock_release a.id)
    refine ⟨hfirst.setLink a.id p "", ?_⟩
    rw [hfirst.modify_records, h.modify_records]
    exact .disconnected a p ha hout hlink

theorem disconnect_outcome {id : String} {p : Port} (h : w.WellFormed)
    (hd : w.disconnect id p = .ok w') :
    Outcome w (.disconnect id p) w' := by
  obtain ⟨r, hr, rfl, hk⟩ := find_bind h hd
  cases p with
  | top => exact disconnect_top_outcome h hr hd
  | next | onTrue | onFalse => exact disconnect_outgoing_outcome h hr (by decide) hd
  | unlisted code => cases hk

theorem connectInput_outcome {producer target : String} {s : Slot} (h : w.WellFormed)
    (hc : w.connectInput producer target s = .ok w') :
    Outcome w (.connectInput producer target s) w' := by
  unfold connectInput at hc
  split_ifs at hc with hself
  · cases hc
  · obtain ⟨p, hp, rfl, hc⟩ := find_bind h hc
    obtain ⟨t, ht, rfl, hc⟩ := find_bind h hc
    split_ifs at hc with hproducer haccepts
    · cases hc
    · cases hc
    · cases hc
      refine ⟨h.modify t.id (fun _ => rfl) (fun _ => rfl), ?_⟩
      rw [h.modify_records]
      exact .bound p t s hp ht (by simpa using hproducer) (by simpa using haccepts)

theorem disconnectInput_outcome {id : String} {s : Slot} (h : w.WellFormed)
    (hd : w.disconnectInput id s = .ok w') : Outcome w (.disconnectInput id s) w' := by
  obtain ⟨r, -, -, hk⟩ := find_bind h hd
  cases hk
  refine ⟨h.modify id (fun _ => rfl) (fun _ => rfl), ?_⟩
  rw [h.modify_records]
  exact .unbound id s

theorem edit_outcome (h : w.WellFormed) (e : Edit) : Outcome w e (w.edit e).1 := by
  unfold edit
  split
  · rename_i w' happly
    cases e with
    | add r => exact add_outcome h happly
    | remove id => exact remove_outcome h happly
    | update id data => exact update_outcome h happly
    | connect source p target => exact connect_outcome h happly
    | disconnect id p => exact disconnect_outcome h happly
    | connectInput producer target s => exact connectInput_outcome h happly
    | disconnectInput id s => exact disconnectInput_outcome h happly
  · exact ⟨h, .unchanged e⟩

end Cases

theorem editAll_invariant {P : List Record → Prop} {w : Workspace} {es : List Edit}
    (hw : w.WellFormed) (hP : P w.records)
    (hstep : ∀ w rs e, e ∈ es → WellFormed w → Edited w.records e rs → P w.records → P rs) :
    (w.editAll es).WellFormed ∧ P (w.editAll es).records := by
  induction es generalizing w with
  | nil => exact ⟨hw, hP⟩
  | cons e es ih =>
    obtain ⟨hw', hedited⟩ := edit_outcome hw e
    refine ih hw' (hstep w _ e List.mem_cons_self hw hedited hP) ?_
    intro w rs e' he'
    exact hstep w rs e' (List.mem_cons_of_mem e he')

/-! ## Links -/

/-- Port `p` of block `a` names block `b`. -/
def Joined (records : List Record) (a : String) (p : Port) (b : String) : Prop :=
  ∃ r ∈ records, r.id = a ∧ r.link p = b ∧ b ≠ ""

section Joined

variable {records : List Record} {id a b : String} {p q : Port} {change : Record → Record}

theorem joined_unique (hdistinct : (records.map (·.id)).Nodup) {c : String}
    (hb : Joined records a p b) (hc : Joined records a p c) : b = c := by
  obtain ⟨r, hr, rfl, rfl, -⟩ := hb
  obtain ⟨r', hr', hid, rfl, -⟩ := hc
  rw [List.inj_on_of_nodup_map hdistinct hr hr' hid.symm]

theorem joined_changeAt (hid : ∀ r, (change r).id = r.id) :
    Joined (changeAt id change records) a q b ↔
      ∃ r ∈ records, r.id = a ∧ (if a = id then change r else r).link q = b ∧ b ≠ "" := by
  simp only [Joined, changeAt, List.mem_map, exists_exists_and_eq_and]
  refine exists_congr fun r => and_congr_right fun _ => ?_
  by_cases hat : r.id = id
  · rw [if_pos hat, hid]
    exact and_congr_right fun ha => by rw [if_pos (ha.symm.trans hat)]
  · rw [if_neg hat]
    exact and_congr_right fun ha => by rw [if_neg fun h => hat (ha.trans h)]

theorem joined_congr (hid : ∀ r, (change r).id = r.id)
    (hlink : ∀ r q, (change r).link q = r.link q) :
    Joined (changeAt id change records) a q b ↔ Joined records a q b := by
  rw [joined_changeAt hid]
  split_ifs
  · simp only [hlink]
    rfl
  · rfl

theorem joined_append {r : Record} (hr : ∀ p, r.link p = "") :
    Joined (records ++ [r]) a q b ↔ Joined records a q b := by
  simp only [Joined, List.mem_append, List.mem_singleton]
  constructor
  · rintro ⟨x, hx | rfl, hid, hlink, hne⟩
    · exact ⟨x, hx, hid, hlink, hne⟩
    · exact absurd (hlink.symm.trans (hr q)) hne
  · rintro ⟨x, hx, hrest⟩
    exact ⟨x, Or.inl hx, hrest⟩

theorem joined_clearing {C : Port → String → Prop} [∀ q x, Decidable (C q x)]
    (hid : ∀ r, (change r).id = r.id)
    (hlink : ∀ r q, (change r).link q = if C q (r.link q) then "" else r.link q) :
    Joined (changeAt id change records) a q b ↔ Joined records a q b ∧ ¬ (a = id ∧ C q b) := by
  rw [joined_changeAt hid]
  by_cases hat : a = id
  · simp only [hat, if_true, true_and, hlink]
    constructor
    · rintro ⟨r, hr, hrid, rfl, hne⟩
      split_ifs at hne ⊢ with hC
      · exact absurd rfl hne
      · exact ⟨⟨r, hr, hrid, rfl, hne⟩, hC⟩
    · rintro ⟨⟨r, hr, hrid, rfl, hne⟩, hC⟩
      exact ⟨r, hr, hrid, by rw [if_neg hC], hne⟩
  · simp only [hat, if_false, false_and, not_false_eq_true, and_true]
    rfl

theorem joined_forget :
    Joined ((records.filter (·.id ≠ id)).map (forget id)) a q b ↔ Joined records a q b ∧ a ≠ id ∧
      b ≠ id := by
  simp only [Joined, List.mem_map, List.mem_filter, exists_exists_and_eq_and, link_forget, ne_eq,
    decide_not, Bool.not_eq_true', decide_eq_false_iff_not]
  constructor
  · rintro ⟨r, ⟨hr, hat⟩, rfl, rfl, hne⟩
    split_ifs at hne ⊢ with hlink
    · exact absurd rfl hne
    · exact ⟨⟨r, hr, rfl, rfl, hne⟩, hat, hlink⟩
  · rintro ⟨⟨r, hr, rfl, rfl, hne⟩, hat, hlink⟩
    exact ⟨r, ⟨hr, hat⟩, rfl, by simp [hlink], hne⟩

theorem joined_setLink {r : Record} (hr : r ∈ records) (hfree : ∀ b, ¬ Joined records r.id p b)
    (hp : p = .top ∨ p ∈ Port.outgoing) {x : String} (hx : x ≠ "") :
    Joined (changeAt r.id (·.setLink p x) records) a q b ↔
      Joined records a q b ∨ a = r.id ∧ q = p ∧ b = x := by
  rw [joined_changeAt fun r => r.id_setLink p x]
  by_cases hat : a = r.id
  · subst hat
    simp only [if_true, true_and, Record.link_setLink _ hp]
    by_cases hq : q = p
    · subst hq
      simp only [if_true, hfree, false_or, true_and]
      constructor
      · rintro ⟨r', -, -, rfl, -⟩
        rfl
      · rintro rfl
        exact ⟨r, hr, rfl, rfl, hx⟩
    · simp only [hq, if_false, false_and, or_false]
      rfl
  · simp only [hat, if_false, false_and, or_false]
    rfl

end Joined

end Workspace

end Flowchart
