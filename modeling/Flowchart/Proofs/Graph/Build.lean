import Flowchart.Proofs.Except
import Flowchart.Proofs.Graph.Links
import Flowchart.Proofs.Table

/-!
# Graphs that were built

What a run relies on without checking it: every link and every input of a built graph
leads to a block, and every block has the fields that belong to its kind.
-/

namespace Flowchart.Graph

/-! ## The index -/

/-- Every entry of the index is the position of a record with that id. -/
def Indexes (index : Table Handle) (records : List Record) : Prop :=
  ∀ id h, index.get? id = some h → ∃ r, records[h]? = some r ∧ r.id = id

theorem Indexes.put {index : Table Handle} {before : List Record} (hi : Indexes index before)
    (r : Record) :
    Indexes (index.put r.id before.length) (before ++ [r]) := by
  intro id h hget
  rw [Table.get?_put] at hget
  split_ifs at hget with hid
  · cases hget
    exact ⟨r, by simp, hid⟩
  · obtain ⟨r', hr', hid'⟩ := hi id h hget
    have hlt : h < before.length := (List.getElem?_eq_some_iff.mp hr').1
    exact ⟨r', by rw [List.getElem?_append_left hlt, hr'], hid'⟩

theorem indexes_of_indexFrom {index index' : Table Handle} (before : List Record)
    {rest : List Record} (h : indexFrom before.length index rest = .ok index')
    (hi : Indexes index before) :
    Indexes index' (before ++ rest) := by
  induction rest generalizing before index with
  | nil =>
    simp only [indexFrom, Except.ok.injEq] at h
    rwa [List.append_nil, ← h]
  | cons r rest ih =>
    unfold indexFrom at h
    split_ifs at h
    have hlen : before.length + 1 = (before ++ [r]).length := by simp
    rw [hlen] at h
    have hrest := ih (before ++ [r]) h (hi.put r)
    rwa [List.append_assoc] at hrest

theorem indexFrom_ok {records : List Record} (i : Nat) (index : Table Handle)
    (hid : ∀ r ∈ records, r.id ≠ "") (hnew : ∀ r ∈ records, r.id ∉ index.keys)
    (hdistinct : (records.map (·.id)).Nodup) :
    ∃ index', indexFrom i index records = .ok index' := by
  induction records generalizing i index with
  | nil => exact ⟨index, rfl⟩
  | cons r rest ih =>
    simp only [List.forall_mem_cons, List.map_cons, List.nodup_cons] at hid hnew hdistinct
    have hcontains : ¬ index.contains r.id := by
      rw [Table.contains_iff]
      exact hnew.1
    have hnew' : ∀ r' ∈ rest, r'.id ∉ (index.put r.id i).keys := by
      intro r' hr' hmem
      rw [Table.keys_put, if_neg hcontains, List.mem_append, List.mem_singleton] at hmem
      rcases hmem with hmem | hmem
      · exact hnew.2 r' hr' hmem
      · exact hdistinct.1 (hmem ▸ List.mem_map_of_mem hr')
    obtain ⟨index', hindex⟩ := ih (i + 1) (index.put r.id i) hid.2 hnew' hdistinct.2
    exact ⟨index', by simp [indexFrom, hid.1, hcontains, hindex]⟩

/-! ## The start block -/

theorem kind_eq_start_iff (r : Record) : r.kind = .start ↔ r.isStart := by
  unfold Record.kind Record.isStart
  rw [BlockKind.ofTag_eq_iff (by decide), beq_iff_eq, eq_comm]

theorem startFrom_ok {records : List Record} (i : Nat) (found : Option Handle)
    (h : found.toList.length + records.countP (·.isStart) ≤ 1) :
    ∃ start, startFrom i found records = .ok start ∧
      start.toList.length = found.toList.length + records.countP (·.isStart) := by
  induction records generalizing i found with
  | nil => exact ⟨found, rfl, by simp⟩
  | cons r rest ih =>
    rw [List.countP_cons] at h ⊢
    by_cases hr : r.isStart
    · simp only [hr, if_true] at h ⊢
      obtain rfl : found = none := by
        cases found with
        | none => rfl
        | some _ =>
          simp only [Option.toList_some, List.length_singleton] at h
          omega
      simp only [Option.toList_none, List.length_nil, Nat.zero_add] at h ⊢
      have hrest : (some i).toList.length + rest.countP (·.isStart) ≤ 1 := by
        rw [Option.toList_some, List.length_singleton]
        omega
      obtain ⟨start, hstart, hlen⟩ := ih (i + 1) (some i) hrest
      refine ⟨start, ?_, ?_⟩
      · simp [startFrom, (kind_eq_start_iff r).mpr hr, hstart]
      · rw [hlen, Option.toList_some, List.length_singleton, Nat.add_comm]
    · have hkind : r.kind ≠ .start := fun hk => hr ((kind_eq_start_iff r).mp hk)
      simp only [hr] at h ⊢
      obtain ⟨start, hstart, hlen⟩ := ih (i + 1) found (by simpa using h)
      refine ⟨start, ?_, by simpa using hlen⟩
      simp [startFrom, hkind, hstart]

theorem start_of_startFrom {found : Option Handle} {h : Handle} (before : List Record)
    {rest : List Record} (hs : startFrom before.length found rest = .ok (some h))
    (hf : ∀ x, found = some x → ∃ r, before[x]? = some r ∧ r.kind = .start) :
    ∃ r, (before ++ rest)[h]? = some r ∧ r.kind = .start := by
  induction rest generalizing before found with
  | nil =>
    simp only [startFrom, Except.ok.injEq] at hs
    rw [List.append_nil]
    exact hf h hs
  | cons r rest ih =>
    unfold startFrom at hs
    have hlen : before.length + 1 = (before ++ [r]).length := by simp
    have hkeep : ∀ x, found = some x → ∃ r', (before ++ [r])[x]? = some r' ∧ r'.kind = .start := by
      intro x hx
      obtain ⟨r', hr', hkind⟩ := hf x hx
      have hlt : x < before.length := (List.getElem?_eq_some_iff.mp hr').1
      exact ⟨r', by rw [List.getElem?_append_left hlt, hr'], hkind⟩
    rw [hlen] at hs
    rw [List.append_cons]
    split_ifs at hs with hstart hfound
    · refine ih (before ++ [r]) hs ?_
      intro x hx
      cases hx
      exact ⟨r, by simp, hstart⟩
    · exact ih (before ++ [r]) hs hkeep

/-! ## Blocks and records -/

theorem build_parts {records : List Record} {g : Graph} (h : build records = .ok g) :
    indexFrom 0 .empty records = .ok g.index ∧ startFrom 0 none records = .ok g.start ∧
      g.nodes = (records.map (nodeOf g.index)).toArray := by
  obtain ⟨index, hindex, h⟩ := bind_eq_ok h
  obtain ⟨start, hstart, h⟩ := bind_eq_ok h
  cases h
  exact ⟨hindex, hstart, rfl⟩

/-- The records that make a graph. -/
structure Buildable (records : List Record) : Prop where
  named : ∀ r ∈ records, r.id ≠ ""
  distinct : (records.map (·.id)).Nodup
  start : records.countP (·.isStart) ≤ 1

theorem build_ok {records : List Record} (h : Buildable records) :
    ∃ g, build records = .ok g ∧ g.start.toList.length = records.countP (·.isStart) := by
  obtain ⟨index, hindex⟩ :=
    indexFrom_ok 0 .empty h.named (by simp [Table.keys, Table.empty]) h.distinct
  obtain ⟨start, hfound, hlen⟩ := startFrom_ok 0 none (by simpa using h.start)
  refine ⟨{ nodes := (records.map (nodeOf index)).toArray, index, start }, ?_, by simpa using hlen⟩
  simp [build, hindex, hfound, bind, Except.bind, pure, Except.pure]

theorem indexes_of_build {records : List Record} {g : Graph} (h : build records = .ok g) :
    Indexes g.index records :=
  indexes_of_indexFrom [] (build_parts h).1 (by simp [Indexes])

theorem node_of_build {records : List Record} {g : Graph} (h : build records = .ok g) {x : Handle}
    {n : Node} :
    g.node x = .ok n ↔ ∃ r, records[x]? = some r ∧ nodeOf g.index r = n := by
  rw [node_eq_ok_iff, (build_parts h).2.2]
  simp

theorem size_of_build {records : List Record} {g : Graph} (h : build records = .ok g) :
    g.size = records.length := by
  rw [size, (build_parts h).2.2]
  simp

theorem resolve_eq_some {index : Table Handle} {records : List Record} {id : String} {h : Handle}
    (hi : Indexes index records) (hr : resolve index id = some h) :
    id ≠ "" ∧ ∃ r, records[h]? = some r ∧ r.id = id := by
  unfold resolve at hr
  split_ifs at hr with hid
  exact ⟨hid, hi id h hr⟩

theorem input_nodeOf (index : Table Handle) (r : Record) (s : Slot) :
    (nodeOf index r).input s = resolve index (r.input s) := by
  cases s with
  | unlisted code => simp [Node.input, Record.input, Slots.get?, resolve]
  | _ => rfl

theorem kind_of_start {records : List Record} {g : Graph} (h : build records = .ok g) {x : Handle}
    (hx : g.start = some x) : ∃ n, g.node x = .ok n ∧ n.kind = .start := by
  have hs := (build_parts h).2.1
  rw [hx] at hs
  obtain ⟨r, hr, hkind⟩ := start_of_startFrom [] hs (by simp)
  exact ⟨nodeOf g.index r, (node_of_build h).mpr ⟨r, hr, rfl⟩, hkind⟩

/-! ## What a run relies on -/

structure Linked (g : Graph) : Prop where
  control : ∀ h h', ControlLink g h h' → h' < g.size
  inputs : ∀ h n slot h', g.node h = .ok n → n.input slot = some h' → h' < g.size
  fields : ∀ h n, g.node h = .ok n → ∃ data, n.fields = Fields.of n.kind data
  start : ∀ h, g.start = some h → h < g.size

section Linked

variable {g : Graph} {h : Handle} {n : Node}

theorem Linked.next (hg : g.Linked) (hn : g.node h = .ok n) (x : Handle) (hx : n.next = some x) :
    x < g.size :=
  hg.control h x ⟨n, hn, Or.inl hx⟩

theorem Linked.onTrue (hg : g.Linked) (hn : g.node h = .ok n) (x : Handle)
    (hx : n.onTrue = some x) : x < g.size :=
  hg.control h x ⟨n, hn, Or.inr (Or.inl hx)⟩

theorem Linked.onFalse (hg : g.Linked) (hn : g.node h = .ok n) (x : Handle)
    (hx : n.onFalse = some x) : x < g.size :=
  hg.control h x ⟨n, hn, Or.inr (Or.inr hx)⟩

end Linked

theorem linked_of_build {records : List Record} {g : Graph} (h : build records = .ok g) :
    g.Linked := by
  have hresolve : ∀ id x, resolve g.index id = some x → x < g.size := by
    intro id x hx
    obtain ⟨-, r, hr, -⟩ := resolve_eq_some (indexes_of_build h) hx
    rw [size_of_build h]
    exact (List.getElem?_eq_some_iff.mp hr).1
  constructor
  · rintro x x' ⟨n, hn, hl⟩
    obtain ⟨r, -, rfl⟩ := (node_of_build h).mp hn
    rcases hl with hl | hl | hl <;> exact hresolve _ x' hl
  · intro x n slot x' hn hinput
    obtain ⟨r, -, rfl⟩ := (node_of_build h).mp hn
    rw [input_nodeOf] at hinput
    exact hresolve _ x' hinput
  · intro x n hn
    obtain ⟨r, -, rfl⟩ := (node_of_build h).mp hn
    exact ⟨r.data, rfl⟩
  · intro x hx
    obtain ⟨n, hn, -⟩ := kind_of_start h hx
    exact lt_size_of_node hn

end Flowchart.Graph
