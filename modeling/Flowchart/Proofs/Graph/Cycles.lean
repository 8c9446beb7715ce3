import Flowchart.Graph.Validation
import Mathlib.Data.List.Perm.Subperm
import Mathlib.Logic.Relation

/-!
# Cycles of inputs

The search for cycles, told without a bound on its depth, and what it finds. No path is longer
than the number of blocks, so the bound is never met. Whatever the search reports lies on a
cycle. If it reports nothing there is none: it leaves the blocks in an order in which every
block comes after those that are bound to its inputs.
-/

namespace Flowchart.Graph

open Relation

/-- The block `id` has an input bound to `id'`. -/
def BoundTo (block? : String → Option Record) (id id' : String) : Prop :=
  ∃ r, block? id = some r ∧ ∃ s ∈ Slot.all, r.input s = id' ∧ id' ≠ ""

variable {block? : String → Option Record} {id id' : String}

theorem block_of_bound (h : TransGen (BoundTo block?) id id') : ∃ r, block? id = some r := by
  obtain ⟨-, ⟨r, hr, -⟩, -⟩ := TransGen.head'_iff.mp h
  exact ⟨r, hr⟩

theorem ne_empty_of_bound (h : TransGen (BoundTo block?) id id') : id' ≠ "" := by
  obtain ⟨-, -, ⟨-, -, -, -, -, hne⟩⟩ := TransGen.tail'_iff.mp h
  exact hne

/-! ## Blocks in order -/

/-- Whatever is bound to the inputs of a block stands further down the list, or is no block. -/
def Settled (block? : String → Option Record) : List String → Prop
  | [] => True
  | id :: rest =>
    (∀ id', BoundTo block? id id' → id' ∈ rest ∨ block? id' = none) ∧ Settled block? rest

theorem Settled.acyclic {done : List String} (h : Settled block? done) (hid : id ∈ done) :
    ¬ TransGen (BoundTo block?) id id := by
  induction done generalizing id with
  | nil => simp at hid
  | cons x rest ih =>
    intro hcycle
    rcases List.mem_cons.mp hid with rfl | hrest
    · -- One step along the cycle leads into the rest of the list.
      obtain ⟨y, hbound, hback⟩ := TransGen.head'_iff.mp hcycle
      have hy : TransGen (BoundTo block?) y y := TransGen.tail' hback hbound
      rcases h.1 y hbound with hmem | hnone
      · exact ih h.2 hmem hy
      · obtain ⟨r, hr⟩ := block_of_bound hy
        simp [hnone] at hr
    · exact ih h.2 hrest hcycle

/-! ## The search without a bound -/

/-- Searching the blocks `ids` one after the other, each of them to the end, takes the first
state to the second. -/
inductive Searches (block? : String → Option Record) : List String → Search → Search → Prop
  | nil (st : Search) : Searches block? [] st st
  | unbound {ids : List String} {st st' : Search} (h : Searches block? ids st st') :
      Searches block? ("" :: ids) st st'
  | closed {id : String} {ids : List String} {st st' : Search} (hid : id ≠ "")
      (hpath : id ∈ st.path) (h : Searches block? ids { st with cycles := id :: st.cycles } st') :
      Searches block? (id :: ids) st st'
  | passed {id : String} {ids : List String} {st st' : Search} (hid : id ≠ "")
      (hpath : id ∉ st.path) (hover : id ∈ st.done ∨ block? id = none)
      (h : Searches block? ids st st') : Searches block? (id :: ids) st st'
  | entered {id : String} {ids : List String} {r : Record} {st st₁ st' : Search} (hid : id ≠ "")
      (hpath : id ∉ st.path) (hnew : id ∉ st.done) (hr : block? id = some r)
      (hinputs : Searches block? (Slot.all.map r.input) { st with path := id :: st.path } st₁)
      (h : Searches block? ids
        { st₁ with path := st₁.path.filter (· ≠ id), done := id :: st₁.done } st') :
      Searches block? (id :: ids) st st'

/-- Nothing is left to search from `id`. -/
def Explored (block? : String → Option Record) (st : Search) (id : String) : Prop :=
  id = "" ∨ id ∈ st.done ∨ block? id = none

namespace Searches

variable {ids : List String} {st st' : Search}

theorem append {ids' : List String} {st'' : Search} (h : Searches block? ids st st')
    (h' : Searches block? ids' st' st'') : Searches block? (ids ++ ids') st st'' := by
  induction h with
  | nil st => exact h'
  | unbound _ ih => exact .unbound (ih h')
  | closed hid hpath _ ih => exact .closed hid hpath (ih h')
  | passed hid hpath hover _ ih => exact .passed hid hpath hover (ih h')
  | entered hid hpath hnew hr hinputs _ _ ih => exact .entered hid hpath hnew hr hinputs (ih h')

/-- Every step is determined by the state, so there is one end at most. -/
theorem unique (h : Searches block? ids st st') {st'' : Search} (h' : Searches block? ids st st'') :
    st' = st'' := by
  induction h generalizing st'' with
  | nil st =>
    cases h'
    rfl
  | unbound _ ih =>
    cases h' with
    | unbound h' => exact ih h'
    | closed hid | passed hid | entered hid => exact absurd rfl hid
  | closed hid hpath _ ih =>
    cases h' with
    | unbound => exact absurd rfl hid
    | closed _ _ h' => exact ih h'
    | passed _ hpath' | entered _ hpath' => exact absurd hpath hpath'
  | passed hid hpath hover _ ih =>
    cases h' with
    | unbound => exact absurd rfl hid
    | closed _ hpath' => exact absurd hpath' hpath
    | passed _ _ _ h' => exact ih h'
    | entered _ _ hnew hr =>
      rcases hover with hdone | hnone
      · exact absurd hdone hnew
      · simp [hnone] at hr
  | entered hid hpath hnew hr _ _ ihinputs ih =>
    cases h' with
    | unbound => exact absurd rfl hid
    | closed _ hpath' => exact absurd hpath' hpath
    | passed _ _ hover =>
      rcases hover with hdone | hnone
      · exact absurd hdone hnew
      · simp [hnone] at hr
    | entered _ _ _ hr' hinputs' h' =>
      obtain rfl := Option.some.inj (hr.symm.trans hr')
      obtain rfl := ihinputs hinputs'
      exact ih h'

theorem path (h : Searches block? ids st st') : st'.path = st.path := by
  induction h with
  | nil => rfl
  | unbound _ ih => exact ih
  | closed _ _ _ ih => exact ih
  | passed _ _ _ _ ih => exact ih
  | @entered id _ _ st _ _ _ hpath _ _ _ _ ihinputs ih =>
    rw [ih, ihinputs, List.filter_cons_of_neg (by simp), List.filter_eq_self]
    intro x hx
    simpa using fun heq : x = id => hpath (heq ▸ hx)

theorem cycles (h : Searches block? ids st st') : st.cycles <:+ st'.cycles := by
  induction h with
  | nil => exact List.suffix_rfl
  | unbound _ ih => exact ih
  | closed _ _ _ ih => exact (List.suffix_cons _ _).trans ih
  | passed _ _ _ _ ih => exact ih
  | entered _ _ _ _ _ _ ihinputs ih => exact ihinputs.trans ih

/-! ## What it finds -/

/-- What is reported lies on a cycle, if everything on the path leads to the blocks to search. -/
theorem onCycle (h : Searches block? ids st st')
    (hpath : ∀ x ∈ st.path, ∀ id ∈ ids, id ≠ "" → TransGen (BoundTo block?) x id) :
    ∀ id ∈ st'.cycles, id ∈ st.cycles ∨ TransGen (BoundTo block?) id id := by
  induction h with
  | nil => exact fun id hid => Or.inl hid
  | unbound _ ih => exact ih fun x hx id hid => hpath x hx id (List.mem_cons_of_mem _ hid)
  | @closed id ids st st' hid hmem _ ih =>
    intro c hc
    rcases ih (fun x hx y hy => hpath x hx y (List.mem_cons_of_mem _ hy)) c hc with hold | hcycle
    · rcases List.mem_cons.mp hold with rfl | hold
      · exact Or.inr (hpath c hmem c List.mem_cons_self hid)
      · exact Or.inl hold
    · exact Or.inr hcycle
  | passed _ _ _ _ ih => exact ih fun x hx id hid => hpath x hx id (List.mem_cons_of_mem _ hid)
  | @entered id ids r st st₁ st' hid hnot _ hr hinputs _ ihinputs ih =>
    have hbelow : ∀ x ∈ id :: st.path, ∀ y ∈ Slot.all.map r.input, y ≠ "" →
        TransGen (BoundTo block?) x y := by
      intro x hx y hy hne
      obtain ⟨s, hs, rfl⟩ := List.mem_map.mp hy
      have hbound : BoundTo block? id (r.input s) := ⟨r, hr, s, hs, rfl, hne⟩
      rcases List.mem_cons.mp hx with rfl | hx
      · exact .single hbound
      · exact (hpath x hx id List.mem_cons_self hid).tail hbound
    have hrest : ∀ x ∈ st₁.path.filter (· ≠ id),
        ∀ y ∈ ids, y ≠ "" → TransGen (BoundTo block?) x y := by
      intro x hx y hy
      rw [List.mem_filter, hinputs.path] at hx
      have hmem : x ∈ st.path := (List.mem_cons.mp hx.1).resolve_left (by simpa using hx.2)
      exact hpath x hmem y (List.mem_cons_of_mem _ hy)
    intro c hc
    rcases ih hrest c hc with hold | hcycle
    · exact ihinputs hbelow c hold
    · exact Or.inr hcycle

/-- If nothing is reported, all blocks to search are explored, and those that were searched to
the end are in order. -/
theorem settled (h : Searches block? ids st st') (hclean : st'.cycles = [])
    (hsettled : Settled block? st.done) :
    Settled block? st'.done ∧ st.done ⊆ st'.done ∧ ∀ id ∈ ids, Explored block? st' id := by
  induction h with
  | nil => exact ⟨hsettled, List.Subset.refl _, by simp⟩
  | unbound _ ih =>
    obtain ⟨hdone, hkept, hall⟩ := ih hclean hsettled
    exact ⟨hdone, hkept, List.forall_mem_cons.mpr ⟨Or.inl rfl, hall⟩⟩
  | closed _ _ h =>
    have hmet := h.cycles
    simp [hclean] at hmet
  | passed _ _ hover _ ih =>
    obtain ⟨hdone, hkept, hall⟩ := ih hclean hsettled
    exact ⟨hdone, hkept, List.forall_mem_cons.mpr ⟨Or.inr (hover.imp_left fun hmem => hkept hmem),
      hall⟩⟩
  | @entered id ids r st st₁ st' hid _ _ hr _ h ihinputs ih =>
    have hclean₁ : st₁.cycles = [] := List.suffix_nil.mp (hclean ▸ h.cycles)
    obtain ⟨hdone₁, hkept₁, hall₁⟩ := ihinputs hclean₁ hsettled
    -- All inputs of `r` are explored by now, so its block may be added on top.
    have hnext : Settled block? (id :: st₁.done) := by
      refine ⟨?_, hdone₁⟩
      rintro id' ⟨r', hr', s, hs, rfl, hbound⟩
      obtain rfl := Option.some.inj (hr.symm.trans hr')
      exact (hall₁ _ (List.mem_map_of_mem hs)).resolve_left hbound
    obtain ⟨hdone, hkept, hall⟩ := ih hclean hnext
    refine ⟨hdone, ?_, List.forall_mem_cons.mpr ⟨Or.inr (Or.inl (hkept List.mem_cons_self)), hall⟩⟩
    exact List.Subset.trans hkept₁ (List.Subset.trans (List.subset_cons_self _ _) hkept)

end Searches

/-! ## The search with a bound -/

section Bounded

variable {index : Table Record} {size fuel : Nat} {st : Search}

/-- What the search does for one slot of `r`. -/
def searchSlot (index : Table Record) (fuel : Nat) (r : Record) (st : Search) (s : Slot) : Search :=
  if r.input s = "" then st
  else if st.path.contains (r.input s) then { st with cycles := r.input s :: st.cycles }
  else searchCycles index fuel (r.input s) st

theorem searchCycles_succ (index : Table Record) (fuel : Nat) (id : String) (st : Search) :
    searchCycles index (fuel + 1) id st =
      if st.done.contains id then st
      else match index.get? id with
        | none => st
        | some r =>
          let st' := Slot.all.foldl (searchSlot index fuel r) { st with path := id :: st.path }
          { st' with path := st'.path.filter (· ≠ id), done := id :: st'.done } := rfl

/-- The fuel is enough for what a path of at most `size` blocks still leaves. -/
structure Fuelled (index : Table Record) (size fuel : Nat) (path : List String) : Prop where
  distinct : path.Nodup
  indexed : ∀ x ∈ path, (index.get? x).isSome
  fuel : size < fuel + path.length

theorem foldl_searches {β : Type} {act : Search → β → Search} (target : β → String)
    {path : List String}
    (hact : ∀ st b, st.path = path → Searches index.get? [target b] st (act st b)) (l : List β)
    (hpath : st.path = path) : Searches index.get? (l.map target) st (l.foldl act st) := by
  induction l generalizing st with
  | nil => exact .nil st
  | cons b rest ih =>
    have hfirst := hact st b hpath
    exact hfirst.append (ih (hfirst.path.trans hpath))

theorem searchCycles_searches
    (hsize : ∀ l : List String, l.Nodup → (∀ x ∈ l, (index.get? x).isSome) → l.length ≤ size)
    (hfuel : Fuelled index size fuel st.path) {id : String} (hid : id ≠ "") (hpath : id ∉ st.path) :
    Searches index.get? [id] st (searchCycles index fuel id st) := by
  induction fuel generalizing id st with
  | zero =>
    -- The path would hold more blocks than there are.
    have hle := hsize st.path hfuel.distinct hfuel.indexed
    have hlt := hfuel.fuel
    omega
  | succ fuel ih =>
    rw [searchCycles_succ]
    by_cases hdone : st.done.contains id
    · rw [if_pos hdone]
      exact .passed hid hpath (Or.inl (by simpa using hdone)) (.nil st)
    rw [if_neg hdone]
    cases hr : index.get? id with
    | none => exact .passed hid hpath (Or.inr hr) (.nil st)
    | some r =>
      have hentered : Fuelled index size fuel (id :: st.path) := by
        refine ⟨List.nodup_cons.mpr ⟨hpath, hfuel.distinct⟩,
          List.forall_mem_cons.mpr ⟨by simp [hr], hfuel.indexed⟩, ?_⟩
        have hlt := hfuel.fuel
        simp only [List.length_cons]
        omega
      refine .entered hid hpath (by simpa using hdone) hr
        (foldl_searches r.input (fun st' s hst' => ?_) Slot.all rfl) (.nil _)
      unfold searchSlot
      split_ifs with hempty hmet
      · rw [hempty]
        exact .unbound (.nil st')
      · exact .closed hempty (by simpa using hmet) (.nil _)
      · exact ih (hst' ▸ hentered) hempty (by simpa using hmet)

end Bounded

/-! ## The whole search -/

section Whole

variable {index : Table Record} {records : List Record}

theorem inputCycles_searches (hindex : ∀ id r, index.get? id = some r → r ∈ records ∧ r.id = id) :
    ∃ st, Searches index.get? (records.map (·.id)) ⟨[], [], []⟩ st ∧ inputCycles index records =
      st.cycles.reverse := by
  have hsize : ∀ l : List String, l.Nodup → (∀ x ∈ l, (index.get? x).isSome) →
      l.length ≤ records.length := by
    intro l hl hindexed
    have hsub : l ⊆ records.map (·.id) := by
      intro x hx
      obtain ⟨r, hr⟩ := Option.isSome_iff_exists.mp (hindexed x hx)
      obtain ⟨hmem, rfl⟩ := hindex x r hr
      exact List.mem_map_of_mem hmem
    simpa using (List.subperm_of_subset hl hsub).length_le
  refine ⟨_, foldl_searches Record.id (fun st r hst => ?_) records rfl, rfl⟩
  split_ifs with hempty
  · rw [hempty]
    exact .unbound (.nil st)
  · refine searchCycles_searches hsize ?_ hempty (by simp [hst])
    rw [hst]
    exact ⟨List.nodup_nil, by simp, by simp⟩

theorem cycle_of_inputCycles (hindex : ∀ id r, index.get? id = some r → r ∈ records ∧ r.id = id)
    {id : String} (h : id ∈ inputCycles index records) : TransGen (BoundTo index.get?) id id := by
  obtain ⟨st, hsearch, hcycles⟩ := inputCycles_searches hindex
  rw [hcycles, List.mem_reverse] at h
  simpa using hsearch.onCycle (by simp) id h

theorem acyclic_of_inputCycles (hindex : ∀ id r, index.get? id = some r → r ∈ records ∧ r.id = id)
    (h : inputCycles index records = []) (id : String) : ¬ TransGen (BoundTo index.get?) id id := by
  intro hcycle
  obtain ⟨st, hsearch, hcycles⟩ := inputCycles_searches hindex
  rw [h, eq_comm, List.reverse_eq_nil_iff] at hcycles
  obtain ⟨hsettled, -, hall⟩ := hsearch.settled hcycles trivial
  obtain ⟨r, hr⟩ := block_of_bound hcycle
  obtain ⟨hmem, rfl⟩ := hindex id r hr
  rcases hall r.id (List.mem_map_of_mem hmem) with hempty | hdone | hnone
  · exact ne_empty_of_bound hcycle hempty
  · exact hsettled.acyclic hdone hcycle
  · simp [hnone] at hr

end Whole

end Flowchart.Graph
