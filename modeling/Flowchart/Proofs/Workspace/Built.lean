import Flowchart.Proofs.Graph.Renaming
import Flowchart.Proofs.Workspace.Edits

/-!
# Workspaces made of records

A workspace may be made of any records that it accepts one after the other. Its index stays
accurate from then on: positions are taken when a block is added, and taken anew for all blocks
when one is removed. What it holds always forms a graph, since a graph asks no more of records
than a workspace does.
-/

namespace Flowchart.Workspace

variable {w w' : Workspace} {records : List Record}

/-! ## Making a workspace -/

theorem foldlM_add_invariant {P : Workspace → Prop} (hadd : ∀ w w' r, w.add r = .ok w' → P w → P w')
    (h : records.foldlM add w = .ok w') (hw : P w) : P w' := by
  induction records generalizing w with
  | nil =>
    cases h
    exact hw
  | cons r rest ih =>
    obtain ⟨w₁, hr, hrest⟩ := foldlM_cons_eq_ok h
    exact ih hrest (hadd w w₁ r hr hw)

theorem wellFormed_of_ofRecords (h : ofRecords records = .ok w) : w.WellFormed :=
  foldlM_add_invariant (fun _ _ _ ha hw => hw.add ha) h wellFormed_empty

theorem WellFormed.editAll (h : w.WellFormed) (es : List Edit) : (w.editAll es).WellFormed :=
  editAll_induction (P := WellFormed) (fun _ e hw => (edit_outcome hw e).1) w es h

/-! ## Entries of the index -/

theorem index_modify (w : Workspace) (id : String) (change : Record → Record) :
    (w.modify id change).index = w.index := by
  unfold modify
  split <;> rfl

theorem distinct_positionsFrom {index : Table Nat} (h : index.Distinct) (i : Nat)
    (records : List Record) :
    (positionsFrom i index records).Distinct := by
  induction records generalizing i index with
  | nil => exact h
  | cons r rest ih => exact ih (h.put r.id i) (i + 1)

theorem index_connect {source target : String} {p : Port} (h : w.connect source p target = .ok w') :
    w'.index = w.index := by
  unfold connect at h
  split_ifs at h
  · cases h
  · obtain ⟨src, -, h⟩ := bind_eq_ok h
    obtain ⟨dest, -, h⟩ := bind_eq_ok h
    obtain ⟨-, -, h⟩ := bind_eq_ok h
    split_ifs at h
    · cases h
    · cases h
    · cases h
      rw [index_modify, index_modify]

theorem index_disconnect {id : String} {p : Port} (h : w.disconnect id p = .ok w') :
    w'.index = w.index := by
  obtain ⟨r, -, h⟩ := bind_eq_ok h
  cases p <;> simp only at h
  case unlisted => cases h
  all_goals
    split_ifs at h
    · cases h
      rfl
    · cases h
      rw [index_modify, index_modify]

theorem index_connectInput {producer target : String} {s : Slot}
    (h : w.connectInput producer target s = .ok w') :
    w'.index = w.index := by
  unfold connectInput at h
  split_ifs at h
  · cases h
  · obtain ⟨p, -, h⟩ := bind_eq_ok h
    obtain ⟨t, -, h⟩ := bind_eq_ok h
    split_ifs at h
    · cases h
    · cases h
    · cases h
      exact index_modify w target _

theorem distinct_apply {e : Edit} (hw : w.index.Distinct) (h : w.apply e = .ok w') :
    w'.index.Distinct := by
  cases e with
  | add r =>
    obtain ⟨-, -, -, rfl⟩ := add_cases h
    exact hw.put r.id _
  | remove id =>
    unfold apply remove at h
    simp only at h
    split at h
    · cases h
    · cases h
      exact distinct_positionsFrom (hw.erase id) 0 _
  -- The other edits leave the index alone.
  | update id data =>
    obtain ⟨r, -, h⟩ := bind_eq_ok h
    cases h
    rwa [index_modify]
  | connect source p target => rwa [index_connect h]
  | disconnect id p => rwa [index_disconnect h]
  | connectInput producer target s => rwa [index_connectInput h]
  | disconnectInput id s =>
    obtain ⟨r, -, h⟩ := bind_eq_ok h
    cases h
    rwa [index_modify]

theorem distinct_of_ofRecords (h : ofRecords records = .ok w) : w.index.Distinct :=
  foldlM_add_invariant (P := fun w => w.index.Distinct)
    (fun _ _ r ha hw => distinct_apply (e := .add r) hw ha) h Table.distinct_empty

theorem distinct_editAll (h : w.index.Distinct) (es : List Edit) :
    (w.editAll es).index.Distinct := by
  refine editAll_induction (P := fun w => w.index.Distinct) (fun w e hw => ?_) w es h
  unfold edit
  split
  · rename_i w' happly
    exact distinct_apply hw happly
  · exact hw

/-! ## Accuracy -/

/-- A workspace whose index describes its records, and whose records form a graph. -/
structure Accurate (w : Workspace) : Prop where
  position : ∀ id i, w.index.get? id = some i ↔ ∃ r, w.records[i]? = some r ∧ r.id = id
  ids : w.index.keys.Perm (w.records.map (·.id))
  named : ∀ r ∈ w.records, r.id ≠ ""
  distinct : (w.records.map (·.id)).Nodup
  start : w.records.countP (·.isStart) ≤ 1
  block : ∀ id r, w.block? id = some r ↔ r ∈ w.records ∧ r.id = id
  size : w.size = w.index.size
  graph : ∃ g, Graph.build w.records = .ok g ∧ g.size = w.size ∧ ∀ id, g.lookup id = w.index.get? id

theorem WellFormed.keys_perm (h : w.WellFormed) (hindex : w.index.Distinct) :
    w.index.keys.Perm (w.records.map (·.id)) := by
  rw [List.perm_ext_iff_of_nodup hindex h.distinct]
  intro id
  rw [← Table.contains_iff, h.contains_iff, List.mem_map]

theorem WellFormed.build (h : w.WellFormed) :
    ∃ g, Graph.build w.records = .ok g ∧ g.size = w.size ∧ ∀ id, g.lookup id = w.index.get? id := by
  obtain ⟨g, hg, -⟩ := Graph.build_ok ⟨h.named, h.distinct, h.start⟩
  refine ⟨g, hg, Graph.size_of_build hg, fun id => Option.ext fun x => ?_⟩
  rw [Graph.lookup, Graph.lookup_iff_of_build hg, h.index]

theorem WellFormed.accurate (h : w.WellFormed) (hindex : w.index.Distinct) : w.Accurate where
  position := h.index
  ids := h.keys_perm hindex
  named := h.named
  distinct := h.distinct
  start := h.start
  block _ _ := h.block?_eq_some
  size := by
    rw [Table.size_eq_length_keys, (h.keys_perm hindex).length_eq, List.length_map]
    rfl
  graph := h.build

/-- Whatever records a workspace is made of and whatever edits follow, the refused ones included,
its index is accurate and its records form a graph. -/
theorem index_stays_accurate (records : List Record) (w : Workspace) (h : ofRecords records = .ok w)
    (es : List Edit) :
    (w.editAll es).Accurate :=
  ((wellFormed_of_ofRecords h).editAll es).accurate (distinct_editAll (distinct_of_ofRecords h) es)

/-- Records whose links lead nowhere or back. -/
def scattered : List Record :=
  [{ id := "a", type := "start", next := "nowhere" }, { id := "b", type := "while", onTrue := "b" },
   { id := "c", type := "output", previous := "c" }, { id := "d", type := "if", onFalse := "c" }]

/-- Blocks are removed from the middle and from the front, and the ones behind them are changed
afterwards. -/
def reshuffling : List Edit :=
  [.remove "b", .update "c" { expression := "1" }, .add { id := "a", type := "end" }, .remove "b",
   .connect "a" .next "c", .add { id := "b", type := "end" }, .remove "a",
   .update "b" { expression := "2" }, .add { id := "e", type := "start" },
   .disconnect "d" (.unlisted 7)]

theorem index_stays_accurate_reshuffled :
    ∃ w, ofRecords scattered = .ok w ∧ (w.editAll reshuffling).Accurate ∧
      (w.editAll reshuffling).records.map (fun r => (r.id, r.data.expression)) =
        [("c", "1"), ("d", ""), ("b", "2"), ("e", "")] ∧
      (w.editAll reshuffling).index.get? "b" = some 2 := by
  obtain ⟨w, hw, hrecords, hposition⟩ : ∃ w, ofRecords scattered = .ok w ∧
      (w.editAll reshuffling).records.map (fun r => (r.id, r.data.expression)) =
        [("c", "1"), ("d", ""), ("b", "2"), ("e", "")] ∧
      (w.editAll reshuffling).index.get? "b" = some 2 := ⟨_, rfl, by decide, by decide⟩
  exact ⟨w, hw, index_stays_accurate scattered w hw reshuffling, hrecords, hposition⟩

end Flowchart.Workspace
