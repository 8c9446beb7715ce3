import Flowchart.Proofs.Scope.Snapshots

/-!
# The store of arrays

While an array is there, no other frame holds one of its name, its size is the one that its
declaration said, and it has as many elements. An element can be read and written exactly if the
index lies within the array. Writing changes this one element of all memory. -/

namespace Flowchart.Scope

variable {fs gs : Frames} {o : Operation}

/-! ## Frames and their cells -/

/-- The size of an array, and how many elements it has. -/
def NumberArray.extent (a : NumberArray) : Int × Nat := (a.size, a.elements.size)

/-- A frame without its numbers: its label, its names in order, and the extents of its arrays. -/
def Frame.shape (f : Frame) : (String × Nat) × List String × List (String × Int × Nat) :=
  (f.label, f.vars.keys, f.arrays.entries.map fun e => (e.1, e.2.extent))

/-- The element of an array of this frame. -/
def Frame.cell? (f : Frame) (name : String) (i : Nat) : Option Float :=
  (f.arrays.get? name).bind (·.elements[i]?)

theorem Frame.shape_setVariable {f : Frame} {name : String} (h : f.vars.contains name) (v : Float) :
    (f.setVariable name v).shape = f.shape := by
  simp [Frame.shape, Frame.setVariable, Frame.label, Table.keys_put, h]

theorem NumberArray.extent_set (a : NumberArray) (i : Nat) (v : Float) :
    (a.set i v).extent = a.extent := by
  simp [extent, set]

theorem Frame.shape_setArray {f : Frame} {name : String} {a b : NumberArray}
    (h : f.arrays.get? name = some a) (hextent : b.extent = a.extent) :
    (f.setArray name b).shape = f.shape := by
  simp [Frame.shape, Frame.setArray, Frame.label,
    Table.map_entries_put NumberArray.extent hextent h]

theorem Frame.cell?_setArray (f : Frame) (name : String) (a : NumberArray) (other : String)
    (i : Nat) :
    (f.setArray name a).cell? other i =
      if name = other then a.elements[i]? else f.cell? other i := by
  simp only [Frame.cell?, Frame.setArray, Table.get?_put]
  split_ifs <;> rfl

theorem Frame.cell?_setElement {f : Frame} {name : String} {a : NumberArray}
    (ha : f.arrays.get? name = some a) {i : Nat} (v : Float) {other : String} {j : Nat}
    (hne : (other, j) ≠ (name, i)) :
    (f.setArray name (a.set i v)).cell? other j = f.cell? other j := by
  rw [Frame.cell?_setArray]
  split_ifs with hname
  · subst hname
    have hij : i ≠ j := fun h => hne (by rw [h])
    rw [NumberArray.set, Array.getElem?_setIfInBounds_ne hij, Frame.cell?, ha]
    rfl
  · rfl

theorem Frame.cell?_eq_some {f : Frame} {name : String} {i : Nat} {v : Float}
    (h : f.cell? name i = some v) :
    ∃ a, f.arrays.get? name = some a ∧ i < a.elements.size ∧ a.elements[i]? = some v := by
  obtain ⟨a, ha, hv⟩ := Option.bind_eq_some_iff.mp h
  exact ⟨a, ha, (Array.getElem?_eq_some_iff.mp hv).1, hv⟩

/-- The frame that has `k` frames below it. -/
def frameAt? (fs : Frames) (k : Nat) : Option Frame := fs.reverse[k]?

theorem frameAt?_append (upper lower : Frames) {k : Nat} (hk : k < lower.length) :
    frameAt? (upper ++ lower) k = frameAt? lower k := by
  rw [frameAt?, List.reverse_append, List.getElem?_append_left (by simpa using hk)]
  rfl

theorem frameAt?_drop {n k : Nat} (hk : k < (fs.drop n).length) :
    frameAt? (fs.drop n) k = frameAt? fs k := by
  conv_rhs => rw [← List.take_append_drop n fs]
  exact (frameAt?_append (fs.take n) (fs.drop n) hk).symm

theorem frameAt?_middle (inner : Frames) (f : Frame) (outer : Frames) :
    frameAt? (inner ++ f :: outer) outer.length = some f := by
  simp [frameAt?]

theorem frameAt?_above (inner : Frames) (f : Frame) (outer : Frames) (j : Nat) :
    frameAt? (inner ++ f :: outer) (outer.length + (j + 1)) = inner.reverse[j]? := by
  simp only [frameAt?, List.reverse_append, List.reverse_cons, List.append_assoc,
    List.singleton_append]
  rw [List.getElem?_append_right (by simp)]
  simp

theorem frameAt?_replace (inner : Frames) (f g : Frame) {outer : Frames} {k : Nat}
    (hk : k ≠ outer.length) :
    frameAt? (inner ++ g :: outer) k = frameAt? (inner ++ f :: outer) k := by
  rcases Nat.lt_or_gt_of_ne hk with hlt | hgt
  · simp only [List.append_cons inner _ outer, frameAt?_append _ _ hlt]
  · obtain ⟨j, rfl⟩ : ∃ j, k = outer.length + (j + 1) := ⟨k - outer.length - 1, by omega⟩
    rw [frameAt?_above, frameAt?_above]

/-! ## One array of a name -/

/-- Some frame holds this array under this name. -/
def Holds (fs : Frames) (name : String) (a : NumberArray) : Prop :=
  ∃ f ∈ fs, f.arrays.get? name = some a

variable {f g : Frame} {outer : Frames} {name : String} {a : NumberArray}

theorem holds_replace (inner : Frames) (f : Frame) (h : Holds (inner ++ g :: outer) name a) :
    g.arrays.get? name = some a ∨ Holds (inner ++ f :: outer) name a := by
  obtain ⟨x, hx, ha⟩ := h
  rw [List.mem_append, List.mem_cons] at hx
  rcases hx with hx | rfl | hx
  · exact Or.inr ⟨x, by simp [hx], ha⟩
  · exact Or.inl ha
  · exact Or.inr ⟨x, by simp [hx], ha⟩

theorem holds_of_same (inner : Frames) (h : Holds (inner ++ g :: outer) name a)
    (hsame : g.arrays = f.arrays) :
    Holds (inner ++ f :: outer) name a := by
  rcases holds_replace inner f h with hg | hold
  · exact ⟨f, by simp, hsame ▸ hg⟩
  · exact hold

theorem countP_replace {p : Frame → Bool} {n : Nat} (inner : Frames) {f g : Frame} (outer : Frames)
    (h : (inner ++ f :: outer).countP p ≤ n) (hp : p g = p f) :
    (inner ++ g :: outer).countP p ≤ n := by
  simpa [List.countP_append, List.countP_cons, hp] using h

theorem Operated.countP_arrays (h : Operated fs o gs) {name : String}
    (hfs : fs.countP (·.arrays.contains name) ≤ 1) : gs.countP (·.arrays.contains name) ≤ 1 := by
  cases h with
  | pushed label => simpa [Frames.push, Frame.new, Table.contains] using hfs
  | popped =>
    split_ifs
    · exact hfs
    · exact Nat.le_trans (List.tail_sublist fs).countP_le hfs
  | unwound depth => exact Nat.le_trans (List.drop_sublist _ fs).countP_le hfs
  | declared f rest _ hfs' =>
    subst hfs'
    exact countP_replace [] rest hfs rfl
  | assigned f rest _ _ hfs' =>
    subst hfs'
    exact countP_replace [] rest hfs rfl
  | updated inner f outer _ _ hfs' =>
    subst hfs'
    exact countP_replace inner outer hfs rfl
  | arrayDeclared f rest declared size hfs' _ _ hnew =>
    subst hfs'
    by_cases hname : declared = name
    · -- There was none of this name, so the new one is the first.
      subst hname
      have hzero : rest.countP (·.arrays.contains declared) = 0 := by
        rw [List.countP_eq_zero]
        exact fun g hg => hnew g (List.mem_cons_of_mem f hg)
      rw [List.countP_cons, hzero]
      split_ifs <;> omega
    · refine countP_replace [] rest hfs ?_
      simp [Frame.setArray, Table.contains_put, hname]
  | elementSet inner f outer stored i a v hfs' _ hf =>
    subst hfs'
    refine countP_replace inner outer hfs ?_
    have hstored : f.arrays.contains stored := by simp [Table.contains, hf]
    by_cases hname : stored = name
    · simp [Frame.setArray, Table.contains_put, ← hname, hstored]
    · simp [Frame.setArray, Table.contains_put, hname]

/-- Where an array comes from: it was there with its size, or it has just been declared. -/
theorem Operated.holds (h : Operated fs o gs) {name : String} {a : NumberArray}
    (ha : Holds gs name a) :
    (∃ b, Holds fs name b ∧ b.size = a.size ∧ ∀ size, o ≠ .declareArray name size) ∨
      0 < a.size ∧ o = .declareArray name a.size := by
  cases h with
  | pushed label =>
    obtain ⟨f, hf, ha⟩ := ha
    rcases List.mem_cons.mp hf with rfl | hf
    · cases ha
    · exact Or.inl ⟨a, ⟨f, hf, ha⟩, rfl, by simp⟩
  | popped =>
    obtain ⟨f, hf, ha⟩ := ha
    refine Or.inl ⟨a, ⟨f, ?_, ha⟩, rfl, by simp⟩
    split_ifs at hf
    · exact hf
    · exact List.mem_of_mem_tail hf
  | unwound depth =>
    obtain ⟨f, hf, ha⟩ := ha
    exact Or.inl ⟨a, ⟨f, List.mem_of_mem_drop hf, ha⟩, rfl, by simp⟩
  | declared f rest _ hfs =>
    subst hfs
    exact Or.inl ⟨a, holds_of_same [] ha rfl, rfl, by simp⟩
  | assigned f rest _ _ hfs =>
    subst hfs
    exact Or.inl ⟨a, holds_of_same [] ha rfl, rfl, by simp⟩
  | updated inner f outer _ _ hfs =>
    subst hfs
    exact Or.inl ⟨a, holds_of_same inner ha rfl, rfl, by simp⟩
  | arrayDeclared f rest declared size hfs _ hsize hnew =>
    subst hfs
    by_cases hname : declared = name
    · subst hname
      rcases holds_replace [] f ha with hnew' | ⟨g, hg, hold⟩
      · obtain rfl : NumberArray.zeros size = a := by simpa [Frame.setArray] using hnew'
        exact Or.inr ⟨hsize, rfl⟩
      · exact absurd (by simp [Table.contains, hold]) (hnew g hg)
    · refine Or.inl ⟨a, ?_, rfl, by simpa using fun h => absurd h hname⟩
      rcases holds_replace [] f ha with hnew' | hold
      · exact ⟨f, by simp, by simpa [Frame.setArray, hname] using hnew'⟩
      · exact hold
  | elementSet inner f outer stored i b v hfs _ hf =>
    subst hfs
    rcases holds_replace inner f ha with hnew' | hold
    · by_cases hname : stored = name
      · subst hname
        obtain rfl : b.set i v = a := by simpa [Frame.setArray] using hnew'
        exact Or.inl ⟨b, ⟨f, by simp, hf⟩, rfl, by simp⟩
      · exact Or.inl ⟨a, ⟨f, by simp, by simpa [Frame.setArray, hname] using hnew'⟩, rfl, by simp⟩
    · exact Or.inl ⟨a, hold, rfl, by simp⟩

end Flowchart.Scope

namespace Flowchart.Scopes

open Scope

/-! ## Sizes -/

/-- The operations that succeed, in their order. -/
def successes (s : Scopes) : List Operation → List Operation
  | [] => []
  | o :: os =>
    match s.apply o with
    | .ok s' => o :: s'.successes os
    | .error _ => s.successes os

theorem successes_invariant {P : Scopes → List Operation → Prop}
    (step : ∀ s log o s', P s log → s.apply o = .ok s' → P s' (log ++ [o])) {s : Scopes}
    {log : List Operation} (h : P s log) (os : List Operation) :
    P (s.performAll os) (log ++ s.successes os) := by
  induction os generalizing s log with
  | nil => simpa [successes] using h
  | cons o os ih =>
    rw [performAll_cons]
    unfold successes perform
    cases ho : s.apply o with
    | ok s' => simpa using ih (step s log o s' h ho)
    | error e => exact ih h

/-- The size that the latest declaration of a name gave. -/
def LatestSize (log : List Operation) (name : String) (n : Int) : Prop :=
  ∃ earlier later, log = earlier ++ .declareArray name n :: later ∧
    ∀ size, .declareArray name size ∉ later

theorem LatestSize.concat {log : List Operation} {name : String} {n : Int}
    (h : LatestSize log name n) {o : Operation} (ho : ∀ size, o ≠ .declareArray name size) :
    LatestSize (log ++ [o]) name n := by
  obtain ⟨earlier, later, rfl, hlater⟩ := h
  refine ⟨earlier, later ++ [o], by simp, fun size hmem => ?_⟩
  rw [List.mem_append, List.mem_singleton] at hmem
  exact hmem.elim (hlater size) fun h => ho size h.symm

structure Stored (s : Scopes) (log : List Operation) : Prop where
  wellFormed : s.WellFormed
  single : ∀ name, s.frames.countP (·.arrays.contains name) ≤ 1
  sized : ∀ name a, Holds s.frames name a → 0 < a.size ∧ LatestSize log name a.size

theorem Stored.elements {s : Scopes} {log : List Operation} (h : s.Stored log) {name : String}
    {a : NumberArray} (ha : Holds s.frames name a) : a.Sized := by
  obtain ⟨f, hf, ha⟩ := ha
  exact (h.wellFormed.frames f hf).sized name a ha

theorem Stored.next {s s' : Scopes} {log : List Operation} (h : s.Stored log) {o : Operation}
    (ho : s.apply o = .ok s') :
    s'.Stored (log ++ [o]) := by
  obtain ⟨hwell, hop⟩ := apply_operated h.wellFormed ho
  refine ⟨hwell, fun name => hop.countP_arrays (h.single name), fun name a ha => ?_⟩
  rcases hop.holds ha with ⟨b, hb, hsize, hother⟩ | ⟨hpos, rfl⟩
  · obtain ⟨hpos, hlatest⟩ := h.sized name b hb
    rw [← hsize]
    exact ⟨hpos, hlatest.concat hother⟩
  · exact ⟨hpos, log, [], rfl, by simp⟩

theorem stored_initial : initial.Stored [] where
  wellFormed := wellFormed_initial
  single name := by simp [initial, Frames.push, Frame.new, Table.contains]
  sized name a := by
    rintro ⟨f, hf, ha⟩
    rw [List.mem_singleton.mp hf] at ha
    cases ha

theorem stored_performAll (os : List Operation) :
    (initial.performAll os).Stored (initial.successes os) :=
  successes_invariant (fun _ _ _ _ h ho => h.next ho) stored_initial os

/-! ## Access -/

def Fails {α : Type} (kind : FailureKind) (x : Attempt α) : Prop :=
  ∃ f, x = .error (.failed f) ∧ f.kind = kind

/-- When an attempt to use an element fails, and when it succeeds. -/
structure Accessed {α : Type} (fs : Frames) (name : String) (index : Int)
    (x : Attempt α) : Prop where
  reference : Fails .reference x ↔ ∀ a, ¬ Holds fs name a
  bounds : Fails .bounds x ↔ ∃ a, Holds fs name a ∧ ¬ (0 ≤ index ∧ index < a.size)
  success : (∃ y, x = .ok y) ↔ ∃ a, Holds fs name a ∧ 0 ≤ index ∧ index < a.size

theorem findArrayIn_of_holds {fs : Frames} {name : String}
    (h : fs.countP (·.arrays.contains name) ≤ 1) {a : NumberArray} (ha : Holds fs name a) :
    findArrayIn name fs = some a := by
  obtain ⟨f, hf, ha⟩ := ha
  have hcontains : f.arrays.contains name := by simp [Table.contains, ha]
  induction fs with
  | nil => cases hf
  | cons g rest ih =>
    unfold findArrayIn
    by_cases hg : g.arrays.contains name
    · -- A second frame would hold the name if `f` were not the first one.
      rw [List.countP_cons, if_pos hg] at h
      have hzero : rest.countP (·.arrays.contains name) = 0 := by omega
      rw [List.countP_eq_zero] at hzero
      rcases List.mem_cons.mp hf with rfl | hf
      · rw [ha]
      · exact absurd hcontains (hzero f hf)
    · have hnone : g.arrays.get? name = none := by simpa [Table.contains] using hg
      rw [List.countP_cons, if_neg hg] at h
      rw [hnone]
      rcases List.mem_cons.mp hf with rfl | hf
      · exact absurd hcontains hg
      · exact ih h hf

theorem holds_of_findArray {s : Scopes} {name : String} {a : NumberArray}
    (h : s.findArray name = some a) :
    Holds s.frames name a := by
  obtain ⟨f, inner, outer, hfs, -, hf⟩ := (s.findArray_eq_some_iff name a).mp h
  exact ⟨f, by simp [hfs], hf⟩

theorem Stored.findArray_iff {s : Scopes} {log : List Operation} (h : s.Stored log) (name : String)
    (a : NumberArray) :
    s.findArray name = some a ↔ Holds s.frames name a :=
  ⟨holds_of_findArray, findArrayIn_of_holds (h.single name)⟩

theorem fails_fail {α : Type} (kind : FailureKind) (e : Scope.Error) :
    Fails kind (Attempt.fail (.scope e) : Attempt α) ↔ e.kind = kind := by
  simp [Fails, Attempt.fail, Failure.kind, Cause.kind]

theorem not_fails_ok {α : Type} (kind : FailureKind) (y : α) :
    ¬ Fails kind (.ok y : Attempt α) := by
  simp [Fails]

theorem Stored.accessed {s : Scopes} {log : List Operation} (h : s.Stored log) (name : String)
    (index : Int) {α : Type} {use : NumberArray × Nat → Attempt α}
    (huse : ∀ a i, i < a.elements.size → ∃ y, use (a, i) = .ok y) :
    Accessed s.frames name index (s.checkedArray name index >>= use) := by
  have hfound := h.findArray_iff name
  unfold checkedArray
  cases hname : s.findArray name with
  | none =>
    have hnone (a : NumberArray) : ¬ Holds s.frames name a := by simp [← hfound, hname]
    change Accessed _ _ _ (Attempt.fail (.scope (.arrayUndeclared name)))
    refine ⟨?_, ?_, ?_⟩
    · simp [fails_fail, Error.kind, hnone]
    · simp [fails_fail, Error.kind, hnone]
    · simp [Attempt.fail, hnone]
  | some a =>
    have hheld (b : NumberArray) : Holds s.frames name b ↔ b = a := by
      simp [← hfound, hname, eq_comm]
    by_cases hindex : index < 0 ∨ a.size ≤ index
    · have hout : 0 ≤ index → ¬ index < a.size := by omega
      simp only [hindex, if_true]
      change Accessed _ _ _ (Attempt.fail (.scope (.indexOutOfBounds index name a.size)))
      refine ⟨?_, ?_, ?_⟩
      · simp [fails_fail, Error.kind, hheld]
      · simpa [fails_fail, Error.kind, hheld] using hout
      · simpa [Attempt.fail, hheld] using hout
    · have hsize : a.size = a.elements.size := h.elements ((hheld a).mpr rfl)
      obtain ⟨y, hy⟩ := huse a index.toNat (by omega)
      have hin : 0 ≤ index ∧ index < a.size := by omega
      simp only [hindex, if_false]
      change Accessed _ _ _ (use (a, index.toNat))
      rw [hy]
      refine ⟨?_, ?_, ?_⟩
      · simp [not_fails_ok, hheld]
      · simp [not_fails_ok, hheld, hin]
      · simp [hheld, hin]

/-! ## Reading and writing -/

theorem Stored.element_eq_ok_iff {s : Scopes} {log : List Operation} (h : s.Stored log)
    (name : String) (i : Nat) (v : Float) :
    s.element name i = .ok v ↔ ∃ f ∈ s.frames, f.cell? name i = some v := by
  constructor
  · intro hv
    obtain ⟨⟨a, j⟩, hchecked, hv⟩ := bind_eq_ok hv
    obtain ⟨hfound, hij, -⟩ := checkedArray_eq_ok hchecked
    obtain rfl : i = j := by omega
    obtain ⟨f, hf, ha⟩ := (h.findArray_iff name a).mp hfound
    refine ⟨f, hf, ?_⟩
    simp only at hv
    split at hv
    · rename_i w hw
      cases hv
      simpa [Frame.cell?, ha] using hw
    · cases hv
  · rintro ⟨f, hf, hv⟩
    obtain ⟨a, ha, hi, hv⟩ := Frame.cell?_eq_some hv
    have hfound := (h.findArray_iff name a).mpr ⟨f, hf, ha⟩
    have hsize : a.size = a.elements.size := h.elements ⟨f, hf, ha⟩
    have hin : ¬ ((i : Int) < 0 ∨ a.size ≤ i) := by omega
    have hchecked : s.checkedArray name i = .ok (a, i) := by
      simp only [checkedArray, hfound, hin, if_false, Int.toNat_natCast]
    simp only [element, hchecked, bind, Except.bind, hv]

/-- Nothing differs but the element `i` of the array `name`. -/
structure OnlyCell (fs gs : Frames) (name : String) (i : Nat) : Prop where
  depth : gs.length = fs.length
  frames : ∀ k f, frameAt? fs k = some f →
    ∃ g, frameAt? gs k = some g ∧ g.shape = f.shape ∧ g.vars = f.vars ∧
      ∀ other j, (other, j) ≠ (name, i) → g.cell? other j = f.cell? other j

theorem setElement_onlyCell {s s' : Scopes} {name : String} {index : Int} {v : Float}
    (h : s.setElement name index v = .ok s') :
    OnlyCell s.frames s'.frames name index.toNat ∧
      ∃ f ∈ s'.frames, f.cell? name index.toNat = some v := by
  have hop := setElement_operated h
  generalize s.frames = fs, s'.frames = gs at hop
  cases hop with
  | elementSet inner f outer _ i a _ hfs _ ha hi =>
    subst hfs
    rw [Int.toNat_natCast]
    refine ⟨⟨by simp, fun k g hg => ?_⟩, f.setArray name (a.set i v), by simp, ?_⟩
    · by_cases hk : k = outer.length
      · obtain rfl : f = g := by simpa [hk, frameAt?_middle] using hg
        refine ⟨_, hk ▸ frameAt?_middle inner _ outer, Frame.shape_setArray ha (a.extent_set i v),
          rfl, ?_⟩
        exact fun other j => Frame.cell?_setElement ha v
      · exact ⟨g, (frameAt?_replace inner f _ hk).trans hg, rfl, rfl, fun other j _ => rfl⟩
    · simp [Frame.cell?_setArray, NumberArray.set, hi]

/-- The laws of the store, in every memory that operations lead to. -/
theorem array_store_laws (os : List Operation) :
    let s := initial.performAll os
    (∀ name, s.frames.countP (·.arrays.contains name) ≤ 1) ∧
    (∀ name a, Holds s.frames name a →
      a.size = a.elements.size ∧ 0 < a.size ∧ LatestSize (initial.successes os) name a.size) ∧
    (∀ name index, Accessed s.frames name index (s.element name index)) ∧
    (∀ name index v, Accessed s.frames name index (s.setElement name index v)) ∧
    (∀ name (i : Nat) v, s.element name i = .ok v ↔ ∃ f ∈ s.frames, f.cell? name i = some v) ∧
    (∀ name index v s', s.setElement name index v = .ok s' →
      s'.element name index = .ok v ∧ OnlyCell s.frames s'.frames name index.toNat) ∧
    (∀ name index v e, (s.perform (.setElement name index v)).2 = some e →
      (s.perform (.setElement name index v)).1 = s) := by
  intro s
  have hs : s.Stored (initial.successes os) := stored_performAll os
  refine ⟨hs.single, fun name a ha => ⟨hs.elements ha, hs.sized name a ha⟩, fun name index => ?_,
    fun name index v => ?_, hs.element_eq_ok_iff, ?_, ?_⟩
  · refine hs.accessed name index fun a i hi => ⟨a.elements[i], ?_⟩
    simp [hi]
  · refine hs.accessed name index fun a i hi => ⟨⟨setElementIn name i v s.frames⟩, ?_⟩
    simp [hi]
  · intro name index v s' hset
    obtain ⟨honly, hcell⟩ := setElement_onlyCell hset
    have hs' : s'.Stored _ := hs.next (o := .setElement name index v) hset
    obtain ⟨⟨a, i⟩, hchecked, -⟩ := bind_eq_ok hset
    obtain ⟨-, rfl, -⟩ := checkedArray_eq_ok hchecked
    exact ⟨(hs'.element_eq_ok_iff name i v).mpr hcell, honly⟩
  · intro name index v e he
    unfold perform at he ⊢
    split at he
    · cases he
    · rfl

/-- An array is declared anew after its frame was closed, with another size. -/
def redeclared : List Operation :=
  [.push "loop", .declareArray "a" 3, .pop, .declareArray "a" 2, .push "loop", .declareArray "a" 7]

theorem array_store_laws_redeclared :
    ∃ s', (initial.performAll redeclared).setElement "a" 1 5 = .ok s' ∧ s'.element "a" 1 = .ok 5 ∧
      OnlyCell (initial.performAll redeclared).frames s'.frames "a" 1 ∧
      Holds (initial.performAll redeclared).frames "a" (.zeros 2) ∧
      LatestSize (initial.successes redeclared) "a" 2 := by
  obtain ⟨-, hsized, -, hsuccess, -, hwrite, -⟩ := array_store_laws redeclared
  have hheld : Holds (initial.performAll redeclared).frames "a" (.zeros 2) :=
    ⟨⟨"global", 0, .empty, ⟨[("a", .zeros 2)]⟩⟩, by decide, by decide⟩
  obtain ⟨s', hs'⟩ := (hsuccess "a" 1 5).success.mpr ⟨.zeros 2, hheld, by decide, by decide⟩
  obtain ⟨hread, honly⟩ := hwrite "a" 1 5 s' hs'
  exact ⟨s', hs', hread, honly, hheld, (hsized "a" _ hheld).2.2⟩

end Flowchart.Scopes
