import Flowchart.Proofs.Graph.Build

/-!
# Graphs that differ in their handles

A handle is the position of a record. Records in another order give a graph with the same
blocks and links under other handles, and texts that no link or field is made from do not
matter.
-/

namespace Flowchart

/-! ## Blocks and graphs -/

/-- The same block when a handle `h` is written `σ h`, up to its title and its link back. -/
structure Node.Renamed (σ : Handle → Handle) (n n' : Node) : Prop where
  id : n'.id = n.id
  kind : n'.kind = n.kind
  type : n'.type = n.type
  fields : n'.fields = n.fields
  next : n'.next = n.next.map σ
  onTrue : n'.onTrue = n.onTrue.map σ
  onFalse : n'.onFalse = n.onFalse.map σ
  input : ∀ slot, n'.input slot = (n.input slot).map σ

namespace Graph

/-- The same graph when a handle `h` is written `σ h`. -/
structure Renamed (σ : Handle → Handle) (g g' : Graph) : Prop where
  injective : Function.Injective σ
  size : g'.size = g.size
  node : ∀ h, Option.Rel (Node.Renamed σ) (g.node? h) (g'.node? (σ h))
  start : g'.start = g.start.map σ

theorem renamed_refl (g : Graph) : Renamed id g g where
  injective := Function.injective_id
  size := rfl
  node := by
    intro h
    cases hn : g.node? h with
    | none => simp [hn]
    | some n =>
      rw [id, hn]
      exact .some ⟨rfl, rfl, rfl, rfl, by simp, by simp, by simp, by simp⟩
  start := by simp

section Renamed

variable {σ : Handle → Handle} {g g' : Graph}

theorem Renamed.node?_cases (hg : Renamed σ g g') (h : Handle) :
    (g.node? h = none ∧ g'.node? (σ h) = none) ∨
      ∃ n n', g.node? h = some n ∧ g'.node? (σ h) = some n' ∧ n.Renamed σ n' := by
  have hrel := hg.node h
  cases hn : g.node? h with
  | none =>
    rw [hn] at hrel
    cases hn' : g'.node? (σ h) with
    | none => exact Or.inl ⟨rfl, rfl⟩
    | some n' => rw [hn'] at hrel; cases hrel
  | some n =>
    rw [hn] at hrel
    cases hn' : g'.node? (σ h) with
    | none => rw [hn'] at hrel; cases hrel
    | some n' =>
      rw [hn'] at hrel
      cases hrel with
      | some hrenamed => exact Or.inr ⟨n, n', rfl, rfl, hrenamed⟩

theorem Renamed.node_cases (hg : Renamed σ g g') (h : Handle) :
    (g.node h = .error .noBlock ∧ g'.node (σ h) = .error .noBlock) ∨
      ∃ n n', g.node h = .ok n ∧ g'.node (σ h) = .ok n' ∧ n.Renamed σ n' := by
  unfold Graph.node
  rcases hg.node?_cases h with ⟨hn, hn'⟩ | ⟨n, n', hn, hn', hrenamed⟩
  · rw [node?] at hn hn'
    exact Or.inl ⟨by rw [hn], by rw [hn']⟩
  · rw [node?] at hn hn'
    exact Or.inr ⟨n, n', by rw [hn], by rw [hn'], hrenamed⟩

theorem Renamed.bind_node {α β : Type} {m : α → β} (hg : Renamed σ g g') (h : Handle)
    {next : Node → Except Crash α} {next' : Node → Except Crash β}
    (hnext : ∀ n n', n.Renamed σ n' → next' n' = (next n).map m) :
    (g'.node (σ h) >>= next') = (g.node h >>= next).map m := by
  rcases hg.node_cases h with ⟨hn, hn'⟩ | ⟨n, n', hn, hn', hrenamed⟩
  · rw [hn, hn']
    rfl
  · rw [hn, hn']
    exact hnext n n' hrenamed

end Renamed

/-! ## Records that build a graph -/

theorem get?_of_indexFrom {index index' : Table Handle} {i : Nat} {records : List Record}
    (h : indexFrom i index records = .ok index') :
    (∀ id x, index.get? id = some x → index'.get? id = some x) ∧
      ∀ k r, records[k]? = some r → r.id ≠ "" ∧ index'.get? r.id = some (i + k) := by
  induction records generalizing i index with
  | nil =>
    cases h
    exact ⟨fun id x hx => hx, by simp⟩
  | cons r rest ih =>
    unfold indexFrom at h
    split_ifs at h with hid hnew
    obtain ⟨hold, hrest⟩ := ih h
    constructor
    · intro id x hx
      apply hold
      have hne : r.id ≠ id := by
        rintro rfl
        simp [Table.contains, hx] at hnew
      rw [Table.get?_put, if_neg hne, hx]
    · intro k r' hr'
      cases k with
      | zero =>
        cases hr'
        exact ⟨hid, hold _ _ (by simp)⟩
      | succ k =>
        obtain ⟨hid', hget⟩ := hrest k r' hr'
        exact ⟨hid', by rw [hget]; congr 1; omega⟩

theorem startFrom_of_kind {i : Nat} {found start : Option Handle} {records : List Record}
    (h : startFrom i found records = .ok start) :
    found.toList.length + records.countP (·.isStart) ≤ 1 ∧ (∀ x, found = some x → start = some x) ∧
      ∀ k r, records[k]? = some r → r.kind = .start → start = some (i + k) := by
  induction records generalizing i found with
  | nil =>
    simp only [startFrom, Except.ok.injEq] at h
    refine ⟨?_, fun x hx => h ▸ hx, by simp⟩
    cases found <;> simp
  | cons r rest ih =>
    unfold startFrom at h
    split_ifs at h with hkind hfound
    · obtain ⟨hcount, hstart, hrest⟩ := ih h
      obtain rfl : found = none := by simpa using hfound
      refine ⟨?_, by simp, ?_⟩
      · simp only [List.countP_cons, (kind_eq_start_iff r).mp hkind, if_true, Option.toList_some,
          List.length_singleton, Option.toList_none, List.length_nil] at hcount ⊢
        omega
      · intro k r' hr' hkind'
        cases k with
        | zero => exact hstart i rfl
        | succ k => rw [hrest k r' hr' hkind']; congr 1; omega
    · obtain ⟨hcount, hstart, hrest⟩ := ih h
      have hr : ¬ r.isStart := fun hr => hkind ((kind_eq_start_iff r).mpr hr)
      refine ⟨by simpa [List.countP_cons, hr] using hcount, hstart, ?_⟩
      intro k r' hr' hkind'
      cases k with
      | zero =>
        cases hr'
        exact absurd hkind' hkind
      | succ k => rw [hrest k r' hr' hkind']; congr 1; omega

section Built

variable {records : List Record} {g : Graph}

theorem lookup_iff_of_build (h : build records = .ok g) {id : String} {x : Handle} :
    g.index.get? id = some x ↔ ∃ r, records[x]? = some r ∧ r.id = id := by
  constructor
  · exact indexes_of_build h id x
  · rintro ⟨r, hr, rfl⟩
    rw [((get?_of_indexFrom (build_parts h).1).2 x r hr).2, Nat.zero_add]

theorem start_iff_of_build (h : build records = .ok g) {x : Handle} :
    g.start = some x ↔ ∃ r, records[x]? = some r ∧ r.kind = .start := by
  constructor
  · intro hx
    obtain ⟨n, hn, hkind⟩ := kind_of_start h hx
    obtain ⟨r, hr, rfl⟩ := (node_of_build h).mp hn
    exact ⟨r, hr, hkind⟩
  · rintro ⟨r, hr, hkind⟩
    rw [(startFrom_of_kind (build_parts h).2.1).2.2 x r hr hkind, Nat.zero_add]

theorem ids_of_build (h : build records = .ok g) :
    (∀ r ∈ records, r.id ≠ "") ∧ (records.map (·.id)).Nodup := by
  have hget := (get?_of_indexFrom (build_parts h).1).2
  constructor
  · intro r hr
    obtain ⟨k, hk⟩ := List.mem_iff_getElem?.mp hr
    exact (hget k r hk).1
  · rw [List.nodup_iff_getElem?_ne_getElem?]
    intro j k hjk hk heq
    simp only [List.length_map] at hk
    obtain ⟨r, hr⟩ : ∃ r, records[j]? = some r := ⟨records[j], by simp⟩
    obtain ⟨r', hr'⟩ : ∃ r', records[k]? = some r' := ⟨records[k], by simp⟩
    have hid : r.id = r'.id := by simpa [hr, hr'] using heq
    have hj := (hget j r hr).2
    rw [hid, (hget k r' hr').2] at hj
    simp only [Option.some.injEq] at hj
    omega

end Built

end Graph

/-! ## Reordered records -/

/-- What a run can tell of a record: neither its link back nor the texts for a palette. -/
def Record.bare (r : Record) : Record :=
  { r with previous := "", title := "", category := "", template := "" }

/-- Records in any order, with any links back and texts for a palette. -/
def Reordered (records records' : List Record) : Prop :=
  (records.map Record.bare).Perm (records'.map Record.bare)

theorem Record.id_eq_of_bare {r r' : Record} (h : r.bare = r'.bare) :
    r.id = r'.id := congrArg (·.id) h

theorem Record.kind_eq_of_bare {r r' : Record} (h : r.bare = r'.bare) :
    r.kind = r'.kind := congrArg (·.kind) h

section Reordered

variable {records records' : List Record}

theorem Reordered.symm (h : Reordered records records') :
    Reordered records' records := List.Perm.symm h

theorem Reordered.length_eq (h : Reordered records records') :
    records.length = records'.length := by
  simpa using List.Perm.length_eq h

theorem Reordered.map {α : Type} (h : Reordered records records') (view : Record → α)
    (hview : ∀ r, view r.bare = view r) : (records.map view).Perm (records'.map view) := by
  simpa [Function.comp_def, hview] using List.Perm.map view h

theorem Reordered.counterpart (h : Reordered records records') {x : Handle} {r : Record}
    (hr : records[x]? = some r) :
    ∃ (y : Handle) (r' : Record), records'[y]? = some r' ∧ r'.bare = r.bare := by
  have hmem : r.bare ∈ records'.map Record.bare := by
    rw [← List.Perm.mem_iff h]
    exact List.mem_map_of_mem (List.mem_of_getElem? hr)
  obtain ⟨r', hr', hbare⟩ := List.mem_map.mp hmem
  obtain ⟨y, hy⟩ := List.mem_iff_getElem?.mp hr'
  exact ⟨y, r', hy, hbare⟩

theorem Reordered.build (h : Reordered records records') {g : Graph}
    (hb : Graph.build records = .ok g) :
    ∃ g', Graph.build records' = .ok g' := by
  obtain ⟨hids, hdistinct⟩ := Graph.ids_of_build hb
  have hperm : (records.map (·.id)).Perm (records'.map (·.id)) := h.map _ fun _ => rfl
  have hids' : ∀ r' ∈ records', r'.id ≠ "" := by
    intro r' hr'
    have hmem : r'.id ∈ records.map (·.id) := by
      rw [hperm.mem_iff]
      exact List.mem_map_of_mem hr'
    obtain ⟨r, hr, hid⟩ := List.mem_map.mp hmem
    rw [← hid]
    exact hids r hr
  have hstart : records'.countP (·.isStart) ≤ 1 := by
    have hstarts : (records.map (·.isStart)).Perm (records'.map (·.isStart)) := h.map _ fun _ => rfl
    have heq := hstarts.countP_eq id
    simp only [List.countP_map, Function.comp_def, id] at heq
    rw [← heq]
    simpa using (Graph.startFrom_of_kind (Graph.build_parts hb).2.1).1
  obtain ⟨g', hb', -⟩ := Graph.build_ok ⟨hids', hperm.nodup_iff.mp hdistinct, hstart⟩
  exact ⟨g', hb'⟩

end Reordered

namespace Graph

/-- The handle in `g'` of the block that has the handle `h` in `g`. -/
def rename (g g' : Graph) (h : Handle) : Handle :=
  match g.node? h with
  | some n => (g'.index.get? n.id).getD h
  | none => h

section Rename

variable {records records' : List Record} {g g' : Graph}

theorem node?_of_build (hb : build records = .ok g) (x : Handle) :
    g.node? x = (records[x]?).map (nodeOf g.index) := by
  rw [node?, (build_parts hb).2.2]
  simp

theorem rename_of_record (hb : build records = .ok g) (hb' : build records' = .ok g')
    (h : Reordered records records') {x : Handle} {r : Record} (hr : records[x]? = some r) :
    ∃ r', records'[rename g g' x]? = some r' ∧ r'.bare = r.bare := by
  obtain ⟨y, r', hr', hbare⟩ := h.counterpart hr
  have hget : g'.index.get? r.id = some y :=
    (lookup_iff_of_build hb').mpr ⟨r', hr', Record.id_eq_of_bare hbare⟩
  have hrename : rename g g' x = y := by simp [rename, node?_of_build hb, hr, nodeOf, hget]
  exact ⟨r', hrename ▸ hr', hbare⟩

theorem rename_of_none (hb : build records = .ok g) {x : Handle} (hx : records[x]? = none) :
    rename g g' x = x := by
  simp [rename, node?_of_build hb, hx]

theorem rename_injective (hb : build records = .ok g) (hb' : build records' = .ok g')
    (h : Reordered records records') : Function.Injective (rename g g') := by
  have hout : ∀ {x : Handle}, records[x]? = none → records'[x]? = none := by
    intro x hx
    rw [List.getElem?_eq_none_iff] at hx ⊢
    rwa [← h.length_eq]
  intro x y hxy
  cases hx : records[x]? with
  | none =>
    cases hy : records[y]? with
    | none => rwa [rename_of_none hb hx, rename_of_none hb hy] at hxy
    | some r =>
      obtain ⟨r', hr', -⟩ := rename_of_record hb hb' h hy
      rw [← hxy, rename_of_none hb hx, hout hx] at hr'
      cases hr'
  | some r =>
    obtain ⟨r', hr', hbare⟩ := rename_of_record hb hb' h hx
    cases hy : records[y]? with
    | none =>
      rw [hxy, rename_of_none hb hy, hout hy] at hr'
      cases hr'
    | some q =>
      obtain ⟨q', hq', hbare'⟩ := rename_of_record hb hb' h hy
      obtain rfl : r' = q' := by rwa [hxy, hq', Option.some.injEq, eq_comm] at hr'
      have hid : r.id = q.id :=
        (Record.id_eq_of_bare hbare).symm.trans (Record.id_eq_of_bare hbare')
      have hget : g.index.get? r.id = some x := (lookup_iff_of_build hb).mpr ⟨r, hx, rfl⟩
      have hget' : g.index.get? r.id = some y := (lookup_iff_of_build hb).mpr ⟨q, hy, hid.symm⟩
      rwa [hget, Option.some.injEq] at hget'

theorem transfer (hb : build records = .ok g) (hb' : build records' = .ok g')
    (h : Reordered records records') {P : Record → Prop}
    (hP : ∀ {r r' : Record}, r.bare = r'.bare → P r → P r') {a a' : Option Handle}
    (ha : ∀ x, a = some x ↔ ∃ r, records[x]? = some r ∧ P r)
    (ha' : ∀ x, a' = some x ↔ ∃ r, records'[x]? = some r ∧ P r) : a' = a.map (rename g g') := by
  cases hx : a with
  | some x =>
    obtain ⟨r, hr, hPr⟩ := (ha x).mp hx
    obtain ⟨r', hr', hbare⟩ := rename_of_record hb hb' h hr
    exact (ha' _).mpr ⟨r', hr', hP hbare.symm hPr⟩
  | none =>
    cases hy : a' with
    | none => rfl
    | some y =>
      obtain ⟨r', hr', hPr'⟩ := (ha' y).mp hy
      obtain ⟨x, r, hr, hbare⟩ := h.symm.counterpart hr'
      have hsome := (ha x).mpr ⟨r, hr, hP hbare.symm hPr'⟩
      rw [hx] at hsome
      cases hsome

theorem resolve_rename (hb : build records = .ok g) (hb' : build records' = .ok g')
    (h : Reordered records records') (id : String) :
    resolve g'.index id = (resolve g.index id).map (rename g g') := by
  unfold resolve
  split_ifs
  · rfl
  · exact transfer hb hb' h (P := fun r => r.id = id)
      (fun hbare hid => (Record.id_eq_of_bare hbare) ▸ hid) (fun x => lookup_iff_of_build hb)
      (fun x => lookup_iff_of_build hb')

theorem nodeOf_renamed (hb : build records = .ok g) (hb' : build records' = .ok g')
    (h : Reordered records records') {r r' : Record} (hbare : r'.bare = r.bare) :
    (nodeOf g.index r).Renamed (rename g g') (nodeOf g'.index r') := by
  have hresolve := resolve_rename hb hb' h
  have heq : ∀ {α : Type} (view : Record → α), (∀ r, view r.bare = view r) → view r' = view r := by
    intro α view hview
    rw [← hview, hbare, hview]
  have hnext : r'.next = r.next := heq (·.next) fun _ => rfl
  have htrue : r'.onTrue = r.onTrue := heq (·.onTrue) fun _ => rfl
  have hfalse : r'.onFalse = r.onFalse := heq (·.onFalse) fun _ => rfl
  exact
    { id := heq (·.id) fun _ => rfl
      kind := heq (·.kind) fun _ => rfl
      type := heq (·.type) fun _ => rfl
      fields := heq (fun r => Fields.of r.kind r.data) fun _ => rfl
      next := (congrArg (resolve g'.index) hnext).trans (hresolve r.next)
      onTrue := (congrArg (resolve g'.index) htrue).trans (hresolve r.onTrue)
      onFalse := (congrArg (resolve g'.index) hfalse).trans (hresolve r.onFalse)
      input := by
        intro slot
        have hinput : r'.input slot = r.input slot := heq (·.input slot) fun _ => rfl
        rw [input_nodeOf, input_nodeOf, hinput]
        exact hresolve _ }

theorem renamed_of_reordered (hb : build records = .ok g) (hb' : build records' = .ok g')
    (h : Reordered records records') : Renamed (rename g g') g g' where
  injective := rename_injective hb hb' h
  size := by rw [size_of_build hb, size_of_build hb', h.length_eq]
  node := by
    intro x
    rw [node?_of_build hb, node?_of_build hb']
    cases hx : records[x]? with
    | none =>
      have hx' : records'[rename g g' x]? = none := by
        rw [rename_of_none hb hx, List.getElem?_eq_none_iff, ← h.length_eq]
        exact List.getElem?_eq_none_iff.mp hx
      rw [hx']
      exact .none
    | some r =>
      obtain ⟨r', hr', hbare⟩ := rename_of_record hb hb' h hx
      rw [hr']
      exact .some (nodeOf_renamed hb hb' h hbare)
  start := by
    refine transfer hb hb' h (P := fun r => r.kind = .start) ?_ (fun x => start_iff_of_build hb)
      (fun x => start_iff_of_build hb')
    intro r r' hbare hkind
    rwa [← Record.kind_eq_of_bare hbare]

end Rename

end Graph

end Flowchart
