import Flowchart.Proofs.Except
import Flowchart.Proofs.Table
import Flowchart.Workspace.Edit

/-!
# The index of a workspace

Every block is found under its id, whatever edits were made. Positions are only needed to
prove this: seen from outside, an edit changes the records of some ids.
-/

namespace Flowchart.Workspace

/-! ## Well-formed workspaces -/

structure WellFormed (w : Workspace) : Prop where
  named : ∀ r ∈ w.records, r.id ≠ ""
  index : ∀ id i, w.index.get? id = some i ↔ ∃ r, w.records[i]? = some r ∧ r.id = id
  start : w.records.countP (·.isStart) ≤ 1

section WellFormed

variable {w w' : Workspace} {id : String} {r : Record}

theorem WellFormed.distinct (h : w.WellFormed) : (w.records.map (·.id)).Nodup := by
  rw [List.Nodup, List.pairwise_map, List.pairwise_iff_getElem]
  intro i j hi hj hlt hid
  have hat : w.index.get? w.records[i].id = some i :=
    (h.index _ i).mpr ⟨_, List.getElem?_eq_getElem hi, rfl⟩
  have hat' : w.index.get? w.records[i].id = some j :=
    (h.index _ j).mpr ⟨_, List.getElem?_eq_getElem hj, hid.symm⟩
  have : i = j := Option.some.inj (hat.symm.trans hat')
  omega

theorem WellFormed.block?_eq_some (h : w.WellFormed) :
    w.block? id = some r ↔ r ∈ w.records ∧ r.id = id := by
  unfold block?
  constructor
  · intro hb
    obtain ⟨i, hi, hr⟩ := Option.bind_eq_some_iff.mp hb
    obtain ⟨r', hr', hid⟩ := (h.index id i).mp hi
    obtain rfl : r' = r := Option.some.inj (hr'.symm.trans hr)
    exact ⟨List.mem_of_getElem? hr, hid⟩
  · rintro ⟨hmem, hid⟩
    obtain ⟨i, hi⟩ := List.mem_iff_getElem?.mp hmem
    rw [(h.index id i).mpr ⟨r, hi, hid⟩]
    exact hi

theorem WellFormed.find_eq_ok_iff (h : w.WellFormed) :
    w.find id = .ok r ↔ r ∈ w.records ∧ r.id = id := by
  rw [← h.block?_eq_some]
  unfold find
  cases w.block? id with
  | some r' => simp
  | none => simp [refuse]

theorem WellFormed.find_mem (h : w.WellFormed) (hr : r ∈ w.records) : w.find r.id = .ok r :=
  h.find_eq_ok_iff.mpr ⟨hr, rfl⟩

theorem WellFormed.contains_iff (h : w.WellFormed) :
    w.index.contains id ↔ ∃ r ∈ w.records, r.id = id := by
  rw [Table.contains, Option.isSome_iff_exists]
  constructor
  · rintro ⟨i, hi⟩
    obtain ⟨r, hr, hid⟩ := (h.index id i).mp hi
    exact ⟨r, List.mem_of_getElem? hr, hid⟩
  · rintro ⟨r, hr, hid⟩
    obtain ⟨i, hi⟩ := List.mem_iff_getElem?.mp hr
    exact ⟨i, (h.index id i).mpr ⟨r, hi, hid⟩⟩

theorem wellFormed_empty : empty.WellFormed := ⟨by simp [empty], by simp [empty], by simp [empty]⟩

end WellFormed

/-! ## Adding -/

theorem add_cases {w w' : Workspace} {r : Record} (h : w.add r = .ok w') :
    r.id ≠ "" ∧ ¬ w.index.contains r.id ∧ (r.isStart → ∀ x ∈ w.records, ¬ x.isStart) ∧
      w' = ⟨w.records ++ [r], w.index.put r.id w.records.length⟩ := by
  unfold add at h
  split_ifs at h with hname hindex hstart
  · cases h
  · cases h
  · cases h
  · cases h
    exact ⟨hname, hindex, by simpa using hstart, rfl⟩

theorem WellFormed.add {w w' : Workspace} {r : Record} (h : w.WellFormed) (ha : w.add r = .ok w') :
    w'.WellFormed := by
  obtain ⟨hname, hindex, hstart, rfl⟩ := add_cases ha
  refine ⟨?_, ?_, ?_⟩
  · intro x hx
    rcases List.mem_append.mp hx with hx | hx
    · exact h.named x hx
    · rwa [List.mem_singleton.mp hx]
  · intro id i
    rw [Table.get?_put]
    split_ifs with hid
    · subst hid
      have hfree : ∀ x ∈ w.records, x.id ≠ r.id :=
        fun x hx hid => hindex (h.contains_iff.mpr ⟨x, hx, hid⟩)
      constructor
      · intro hi
        exact ⟨r, by simp [← Option.some.inj hi], rfl⟩
      · rintro ⟨x, hx, hid⟩
        rw [List.getElem?_append] at hx
        split_ifs at hx with hlt
        · exact absurd hid (hfree x (List.mem_of_getElem? hx))
        · have hone : i - w.records.length < 1 := (List.getElem?_eq_some_iff.mp hx).1
          rw [Option.some.injEq]
          omega
    · rw [h.index]
      constructor
      · rintro ⟨x, hx, hxid⟩
        have hlt := (List.getElem?_eq_some_iff.mp hx).1
        exact ⟨x, by rwa [List.getElem?_append_left hlt], hxid⟩
      · rintro ⟨x, hx, hxid⟩
        rw [List.getElem?_append] at hx
        split_ifs at hx with hlt
        · exact ⟨x, hx, hxid⟩
        · have hmem := List.mem_of_getElem? hx
          rw [List.mem_singleton] at hmem
          exact absurd (hmem ▸ hxid) hid
  · have hle := h.start
    rw [List.countP_append, List.countP_singleton]
    split_ifs with hr
    · have hnone : w.records.countP (·.isStart) = 0 := List.countP_eq_zero.mpr (hstart hr)
      omega
    · omega

/-! ## Changing records -/

/-- Changes the records of an id. -/
def changeAt (id : String) (change : Record → Record) (records : List Record) : List Record :=
  records.map fun r => if r.id = id then change r else r

section Change

variable {w : Workspace} {id : String} {change : Record → Record}

theorem WellFormed.modify_records (h : w.WellFormed) (id : String) (change : Record → Record) :
    (w.modify id change).records = changeAt id change w.records := by
  unfold modify changeAt
  split
  · rename_i i hi
    obtain ⟨r, hr, hid⟩ := (h.index id i).mp hi
    apply List.ext_getElem?
    intro j
    rw [List.getElem?_modify, List.getElem?_map]
    by_cases hij : i = j
    · subst hij
      simp [hr, hid]
    · cases hx : w.records[j]? with
      | none => simp
      | some x =>
        have hne : x.id ≠ id := by
          intro hxid
          have hat := (h.index id j).mpr ⟨x, hx, hxid⟩
          exact hij (Option.some.inj (hi.symm.trans hat))
        simp [hij, hne]
  · rename_i hnone
    have hne : ∀ r ∈ w.records, r.id ≠ id := by
      intro r hr hid
      have hin := h.contains_iff.mpr ⟨r, hr, hid⟩
      simp [Table.contains, hnone] at hin
    rw [List.map_congr_left (g := fun r => r) fun r hr => by simp [hne r hr], List.map_id']

theorem WellFormed.modify (h : w.WellFormed) (id : String) (hid : ∀ r, (change r).id = r.id)
    (htype : ∀ r, (change r).type = r.type) : (w.modify id change).WellFormed := by
  have hids : ∀ r, (if r.id = id then change r else r).id = r.id := by
    intro r
    split_ifs
    · exact hid r
    · rfl
  have hindex : (w.modify id change).index = w.index := by
    unfold Workspace.modify
    split <;> rfl
  refine ⟨?_, ?_, ?_⟩
  · rw [h.modify_records, changeAt, List.forall_mem_map]
    intro r hr
    rw [hids]
    exact h.named r hr
  · intro id' i
    rw [hindex, h.index, h.modify_records, changeAt, List.getElem?_map]
    constructor
    · rintro ⟨r, hr, hrid⟩
      exact ⟨_, by rw [hr]; rfl, (hids r).trans hrid⟩
    · rintro ⟨r', hr', hrid⟩
      obtain ⟨r, hr, rfl⟩ := Option.map_eq_some_iff.mp hr'
      exact ⟨r, hr, (hids r).symm.trans hrid⟩
  · have hstart : (fun r : Record => (if r.id = id then change r else r).isStart) =
        Record.isStart := by
      funext r
      split_ifs
      · simp [Record.isStart, htype]
      · rfl
    rw [h.modify_records, changeAt, List.countP_map, Function.comp_def, hstart]
    exact h.start

end Change

/-! ## Removing -/

section Remove

variable {w w' : Workspace} {id : String}

theorem get?_positionsFrom {records : List Record} (hdistinct : (records.map (·.id)).Nodup)
    (i : Nat) (index : Table Nat) (j : Nat) :
    (positionsFrom i index records).get? id = some j ↔
      (∃ k r, records[k]? = some r ∧ r.id = id ∧ j = i + k) ∨
        id ∉ records.map (·.id) ∧ index.get? id = some j := by
  induction records generalizing i index with
  | nil => simp [positionsFrom]
  | cons r rest ih =>
    rw [List.map_cons, List.nodup_cons] at hdistinct
    rw [positionsFrom, ih hdistinct.2, Table.get?_put, List.map_cons, List.mem_cons, not_or]
    constructor
    · rintro (⟨k, x, hx, hid, rfl⟩ | ⟨hrest, hget⟩)
      · exact Or.inl ⟨k + 1, x, by simpa using hx, hid, by omega⟩
      · split_ifs at hget with hr
        · exact Or.inl ⟨0, r, rfl, hr, by simpa using hget.symm⟩
        · exact Or.inr ⟨⟨fun h => hr h.symm, hrest⟩, hget⟩
    · rintro (⟨k, x, hx, hid, rfl⟩ | ⟨⟨hr, hrest⟩, hget⟩)
      · cases k with
        | zero =>
          obtain rfl : r = x := by simpa using hx
          exact Or.inr ⟨hid ▸ hdistinct.1, by simp [hid]⟩
        | succ k => exact Or.inl ⟨k, x, by simpa using hx, hid, by omega⟩
      · exact Or.inr ⟨hrest, by rw [if_neg fun h => hr h.symm]; exact hget⟩

theorem wellFormed_positions {records : List Record} {index : Table Nat}
    (hnamed : ∀ r ∈ records, r.id ≠ "") (hdistinct : (records.map (·.id)).Nodup)
    (hstart : records.countP (·.isStart) ≤ 1)
    (hindex : ∀ id ∉ records.map (·.id), index.get? id = none) :
    WellFormed ⟨records, positionsFrom 0 index records⟩ := by
  refine ⟨hnamed, fun id i => ?_, hstart⟩
  rw [get?_positionsFrom hdistinct]
  constructor
  · rintro (⟨k, r, hr, hid, rfl⟩ | ⟨hnot, hget⟩)
    · exact ⟨r, by simpa using hr, hid⟩
    · simp [hindex id hnot] at hget
  · rintro ⟨r, hr, hid⟩
    exact Or.inl ⟨i, r, hr, hid, by omega⟩

theorem eraseIdx_eq_filter {records : List Record} (hdistinct : (records.map (·.id)).Nodup)
    {i : Nat} {r : Record} (hr : records[i]? = some r) :
    records.eraseIdx i = records.filter (·.id ≠ r.id) := by
  induction records generalizing i with
  | nil => simp at hr
  | cons x rest ih =>
    rw [List.map_cons, List.nodup_cons] at hdistinct
    cases i with
    | zero =>
      obtain rfl : x = r := by simpa using hr
      have hne : ∀ y ∈ rest, y.id ≠ x.id :=
        fun y hy hid => hdistinct.1 (hid ▸ List.mem_map_of_mem hy)
      rw [List.eraseIdx_cons_zero, List.filter_cons_of_neg (by simp), List.filter_eq_self.mpr]
      simpa using hne
    | succ i =>
      rw [List.getElem?_cons_succ] at hr
      have hne : x.id ≠ r.id :=
        fun hid => hdistinct.1 (hid ▸ List.mem_map_of_mem (List.mem_of_getElem? hr))
      rw [List.eraseIdx_cons_succ, ih hdistinct.2 hr, List.filter_cons_of_pos (by simpa using hne)]

theorem WellFormed.remove_cases (h : w.WellFormed) (hr : w.remove id = .ok w') :
    (∃ r ∈ w.records, r.id = id) ∧ w'.records = (w.records.filter (·.id ≠ id)).map (forget id) ∧
      w'.index = positionsFrom 0 (w.index.erase id) w'.records := by
  unfold remove at hr
  split at hr
  · cases hr
  · rename_i i hi
    cases hr
    obtain ⟨r, hri, rfl⟩ := (h.index id i).mp hi
    refine ⟨⟨r, List.mem_of_getElem? hri, rfl⟩, ?_, rfl⟩
    rw [eraseIdx_eq_filter h.distinct hri]

theorem WellFormed.remove (h : w.WellFormed) (hr : w.remove id = .ok w') : w'.WellFormed := by
  obtain ⟨-, hrecords, hindex⟩ := h.remove_cases hr
  obtain ⟨records, index⟩ := w'
  simp only at hrecords hindex
  have hids : records.map (·.id) = (w.records.filter (·.id ≠ id)).map (·.id) := by
    rw [hrecords, List.map_map]
    rfl
  rw [hindex]
  refine wellFormed_positions ?_ ?_ ?_ ?_
  · rw [hrecords, List.forall_mem_map]
    intro r hr
    exact h.named r (List.mem_of_mem_filter hr)
  · rw [hids]
    exact (List.filter_sublist.map _).nodup h.distinct
  · rw [hrecords, List.countP_map]
    exact Nat.le_trans (List.filter_sublist.countP_le (p := Record.isStart)) h.start
  · intro id' hid'
    rw [Table.get?_erase]
    split_ifs with heq
    · rfl
    · rw [Option.eq_none_iff_forall_ne_some]
      intro i hi
      obtain ⟨r, hr, hrid⟩ := (h.index id' i).mp hi
      refine hid' ?_
      rw [hids, List.mem_map]
      refine ⟨r, List.mem_filter.mpr ⟨List.mem_of_getElem? hr, ?_⟩, hrid⟩
      simpa [hrid] using fun h => heq h.symm

end Remove

end Flowchart.Workspace
