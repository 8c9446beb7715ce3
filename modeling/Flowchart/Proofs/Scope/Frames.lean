import Flowchart.Proofs.Except
import Flowchart.Proofs.Table
import Flowchart.Scope.Scopes

/-!
# Frames of a run

What every operation on memory keeps: frames are numbered from the bottom, no table holds a
name twice, and arrays have as many elements as they were declared with. Operations that neither
open nor close a frame also keep the list of frames itself.
-/

namespace Flowchart.Scope

/-! ## Numbered frames -/

/-- Every frame carries the number of frames below it. -/
def Numbered : Frames → Prop
  | [] => True
  | f :: rest => f.index = rest.length ∧ Numbered rest

theorem depth_of_numbered {fs : Frames} (h : Numbered fs) : fs.depth = fs.length := by
  cases fs with
  | nil => rfl
  | cons f rest => simp [Frames.depth, h.1]

theorem numbered_push {fs : Frames} (h : Numbered fs) (name : String) : Numbered (fs.push name) :=
  ⟨depth_of_numbered h, h⟩

theorem numbered_of_index_eq {fs gs : Frames} (h : gs.map (·.index) = fs.map (·.index))
    (hn : Numbered fs) : Numbered gs := by
  induction fs generalizing gs with
  | nil => simp_all [Numbered]
  | cons f rest ih =>
    cases gs with
    | nil => simp at h
    | cons g rest' =>
      simp only [List.map_cons, List.cons.injEq] at h
      have hlen : rest'.length = rest.length := by simpa using congrArg List.length h.2
      exact ⟨by rw [h.1, hn.1, hlen], ih h.2 hn.2⟩

theorem unwindFrames_eq_drop {fs : Frames} (h : Numbered fs) {d : Nat} (hd : 1 ≤ d) :
    Scopes.unwindFrames d fs = fs.drop (fs.length - d) := by
  induction fs with
  | nil => simp [Scopes.unwindFrames]
  | cons f rest ih =>
    cases rest with
    | nil => simp [Scopes.unwindFrames, show 1 - d = 0 by omega]
    | cons g rest =>
      have hindex : (f.index : Int) = rest.length + 1 := by rw [h.1]; simp
      unfold Scopes.unwindFrames
      by_cases hlt : (d : Int) < f.index + 1
      · rw [if_pos hlt, ih h.2]
        have : (f :: g :: rest).length - d = ((g :: rest).length - d) + 1 := by
          simp only [List.length_cons]; omega
        rw [this, List.drop_succ_cons]
      · rw [if_neg hlt, show (f :: g :: rest).length - d = 0 by simp only [List.length_cons]; omega]
        rfl

theorem numbered_drop {fs : Frames} (h : Numbered fs) (n : Nat) : Numbered (fs.drop n) := by
  induction n generalizing fs with
  | zero => simpa using h
  | succ n ih =>
    cases fs with
    | nil => simpa using h
    | cons f rest => simpa using ih h.2

/-! ## Frames in their places -/

theorem placeAll_eq {fs : Frames} (h : Numbered fs) {places : Array (Option Frame)}
    (rest : List (Option Frame)) (hplaces : places.toList = List.replicate fs.length none ++ rest) :
    Frames.placeAll places fs = .ok (fs.reverse.map some ++ rest).toArray := by
  induction fs generalizing places rest with
  | nil => simpa [Frames.placeAll] using congrArg List.toArray hplaces
  | cons f below ih =>
    have hsize : f.index < places.size := by
      rw [← Array.length_toList, hplaces, h.1]
      simp only [List.length_append, List.length_replicate, List.length_cons]
      omega
    rw [Frames.placeAll, if_pos hsize, ih h.2 (some f :: rest)]
    · simp
    · rw [Array.toList_setIfInBounds, hplaces, h.1, List.length_cons, List.replicate_succ']
      simp

theorem taken_map_some (fs : Frames) : Frames.taken (fs.map some) = .ok fs := by
  induction fs with
  | nil => rfl
  | cons f rest ih => simp [Frames.taken, ih, bind, Except.bind, pure, Except.pure]

theorem each_eq {fs : Frames} (h : Numbered fs) : fs.each = .ok fs.reverse := by
  have hplaced : Frames.placeAll (Array.replicate fs.depth none) fs =
      .ok (fs.reverse.map some).toArray := by
    rw [placeAll_eq h [] (by simp [depth_of_numbered h]), List.append_nil]
  simp only [Frames.each, hplaced, bind, Except.bind]
  exact taken_map_some fs.reverse

/-! ## Arrays and their sizes -/

def NumberArray.Sized (a : NumberArray) : Prop := a.size = a.elements.size

theorem NumberArray.sized_zeros {size : Int} (h : 0 ≤ size) : (zeros size).Sized := by
  simp only [Sized, zeros, Array.size_replicate, Int.toNat_of_nonneg h]

theorem NumberArray.Sized.set {a : NumberArray} (h : a.Sized) (i : Nat) (v : Float) :
    (a.set i v).Sized := by
  simpa [Sized, NumberArray.set] using h

theorem zeroArray_eq_ok {size : Int} {a : NumberArray} (h : zeroArray size = .ok a) :
    0 ≤ size ∧ a = .zeros size := by
  unfold zeroArray at h
  split_ifs at h with hsize
  cases h
  exact ⟨by omega, rfl⟩

/-! ## Operations inside of a frame -/

/-- What is left of a frame without its contents. -/
def Frame.label (f : Frame) : String × Nat := (f.name, f.index)

structure Frame.WellFormed (f : Frame) : Prop where
  vars : f.vars.Distinct
  arrays : f.arrays.Distinct
  sized : ∀ name a, f.arrays.get? name = some a → a.Sized

theorem Frame.wellFormed_new (name : String) (index : Nat) : (Frame.new name index).WellFormed :=
  ⟨Table.distinct_empty, Table.distinct_empty, by simp [Frame.new]⟩

theorem Frame.WellFormed.setVariable {f : Frame} (h : f.WellFormed) (name : String) (v : Float) :
    (f.setVariable name v).WellFormed :=
  ⟨h.vars.put name v, h.arrays, h.sized⟩

theorem Frame.WellFormed.setArray {f : Frame} (h : f.WellFormed) (name : String) {a : NumberArray}
    (ha : a.Sized) :
    (f.setArray name a).WellFormed where
  vars := h.vars
  arrays := h.arrays.put name a
  sized := by
    intro other b hb
    rw [Frame.setArray, Table.get?_put] at hb
    split_ifs at hb
    · cases hb
      exact ha
    · exact h.sized other b hb

/-- `gs` holds the frames of `fs` with other contents. -/
def Refilled (fs gs : Frames) : Prop :=
  gs.map Frame.label = fs.map Frame.label ∧
    ((∀ f ∈ fs, f.WellFormed) → ∀ g ∈ gs, g.WellFormed)

theorem refilled_refl (fs : Frames) : Refilled fs fs := ⟨rfl, fun h => h⟩

theorem Refilled.trans {fs gs hs : Frames} (h : Refilled fs gs) (h' : Refilled gs hs) :
    Refilled fs hs :=
  ⟨h'.1.trans h.1, fun hd => h'.2 (h.2 hd)⟩

theorem refilled_head {f g : Frame} (rest : Frames) (hl : g.label = f.label)
    (hd : f.WellFormed → g.WellFormed) : Refilled (f :: rest) (g :: rest) := by
  refine ⟨by simp [hl], ?_⟩
  intro h x hx
  rcases List.mem_cons.mp hx with rfl | hx
  · exact hd (h f List.mem_cons_self)
  · exact h x (List.mem_cons_of_mem _ hx)

theorem refilled_cons (f : Frame) {fs gs : Frames} (h : Refilled fs gs) :
    Refilled (f :: fs) (f :: gs) := by
  refine ⟨by simp [h.1], ?_⟩
  intro hd x hx
  rcases List.mem_cons.mp hx with rfl | hx
  · exact hd x List.mem_cons_self
  · exact h.2 (fun y hy => hd y (List.mem_cons_of_mem _ hy)) x hx

theorem refilled_updateIn (name : String) (v : Float) {fs gs : Frames}
    (h : Scopes.updateIn name v fs = some gs) : Refilled fs gs := by
  induction fs generalizing gs with
  | nil => simp [Scopes.updateIn] at h
  | cons f rest ih =>
    unfold Scopes.updateIn at h
    split_ifs at h with hc
    · cases h
      exact refilled_head rest rfl fun hd => hd.setVariable name v
    · obtain ⟨us, hus, rfl⟩ := Option.map_eq_some_iff.mp h
      exact refilled_cons f (ih hus)

theorem refilled_setElementIn (name : String) (i : Nat) (v : Float) (fs : Frames) :
    Refilled fs (Scopes.setElementIn name i v fs) := by
  induction fs with
  | nil => exact refilled_refl []
  | cons f rest ih =>
    unfold Scopes.setElementIn
    split
    · rename_i a ha
      exact refilled_head rest rfl fun hd => hd.setArray name ((hd.sized name a ha).set i v)
    · exact refilled_cons f ih

end Flowchart.Scope

namespace Flowchart.Scopes

open Scope

theorem refilled_declare {s s' : Scopes} {name : String} (h : s.declare name = .ok s') :
    Refilled s.frames s'.frames := by
  unfold declare at h
  split_ifs at h with hname
  · cases h
  · split at h
    · cases h
    · rename_i f rest hfs
      split_ifs at h with hc
      · cases h
      · cases h
        rw [hfs]
        exact refilled_head rest rfl fun hd => hd.setVariable name 0

theorem refilled_assignCurrent {s s' : Scopes} {name : String} {v : Float}
    (h : s.assignCurrent name v = .ok s') : Refilled s.frames s'.frames := by
  unfold assignCurrent Frames.modifyCurrent at h
  split at h
  · cases h
  · rename_i f rest hfs
    cases h
    rw [hfs]
    exact refilled_head rest rfl fun hd => hd.setVariable name v

theorem refilled_update {s s' : Scopes} {name : String} {v : Float}
    (h : s.update name v = .ok s') : Refilled s.frames s'.frames := by
  unfold update at h
  split at h
  · rename_i fs hfs
    cases h
    exact refilled_updateIn name v hfs
  · cases h

theorem refilled_declareArray {s s' : Scopes} {name : String} {size : Int}
    (h : s.declareArray name size = .ok s') : Refilled s.frames s'.frames := by
  unfold declareArray at h
  split_ifs at h
  · cases h
  · cases h
  · cases h
  · split at h
    · cases h
    · cases h
    · rename_i f rest a hfs ha
      cases h
      rw [hfs]
      obtain ⟨hsize, rfl⟩ := zeroArray_eq_ok ha
      exact refilled_head rest rfl fun hd => hd.setArray name (NumberArray.sized_zeros hsize)

theorem checkedArray_eq_ok {s : Scopes} {name : String} {index : Int} {a : NumberArray} {i : Nat}
    (h : s.checkedArray name index = .ok (a, i)) :
    s.findArray name = some a ∧ index = i ∧ i < a.size := by
  unfold checkedArray at h
  split at h
  · cases h
  · rename_i b hfound
    split_ifs at h with hbounds
    · cases h
    · cases h
      exact ⟨hfound, by omega, by omega⟩

theorem refilled_setElement {s s' : Scopes} {name : String} {index : Int} {v : Float}
    (h : s.setElement name index v = .ok s') : Refilled s.frames s'.frames := by
  obtain ⟨⟨a, i⟩, -, hset⟩ := bind_eq_ok h
  simp only at hset
  split_ifs at hset
  · cases hset
    exact refilled_setElementIn name i v s.frames
  · cases hset

/-! ## Well-formed memory -/

/-- Every array has as many elements as it was declared with. -/
def Sized (s : Scopes) : Prop := ∀ f ∈ s.frames, ∀ name a, f.arrays.get? name = some a → a.Sized

theorem Sized.findArray {s : Scopes} (h : s.Sized) {name : String} {a : NumberArray}
    (ha : s.findArray name = some a) : a.Sized := by
  have hfind : ∀ fs : Frames, findArrayIn name fs = some a →
      ∃ f ∈ fs, f.arrays.get? name = some a := by
    intro fs hfs
    induction fs with
    | nil => cases hfs
    | cons f rest ih =>
      unfold findArrayIn at hfs
      split at hfs
      · rename_i b hb
        exact ⟨f, List.mem_cons_self, hb.trans hfs⟩
      · obtain ⟨g, hg, hget⟩ := ih hfs
        exact ⟨g, List.mem_cons_of_mem f hg, hget⟩
  obtain ⟨f, hf, hget⟩ := hfind s.frames ha
  exact h f hf name a hget

/-- There is a bottom frame, and all frames are numbered and well-formed. -/
structure WellFormed (s : Scopes) : Prop where
  nonempty : s.frames ≠ []
  numbered : Numbered s.frames
  frames : ∀ f ∈ s.frames, f.WellFormed

theorem WellFormed.sized {s : Scopes} (h : s.WellFormed) :
    s.Sized := fun f hf => (h.frames f hf).sized

theorem WellFormed.snapshot_eq {s : Scopes} (h : s.WellFormed) {α : Type}
    (table : Frame → Table α) :
    s.snapshot table = .ok (Table.layered (s.frames.map table)).entries := by
  simp only [snapshot, each_eq h.numbered, bind, Except.bind, pure, Except.pure]
  rw [List.foldl_reverse, Table.layered, List.foldr_map]

theorem WellFormed.depth_eq {s : Scopes} (h : s.WellFormed) : s.depth = s.frames.length :=
  depth_of_numbered h.numbered

theorem wellFormed_initial : initial.WellFormed where
  nonempty := by simp [initial, Frames.push]
  numbered := ⟨rfl, trivial⟩
  frames := by
    intro f hf
    rw [List.mem_singleton.mp hf]
    exact Frame.wellFormed_new "global" 0

theorem WellFormed.push {s : Scopes} (h : s.WellFormed) (name : String) :
    (s.push name).WellFormed where
  nonempty := by simp [Scopes.push, Frames.push]
  numbered := numbered_push h.numbered name
  frames := by
    intro f hf
    rcases List.mem_cons.mp hf with rfl | hf
    · exact Frame.wellFormed_new name _
    · exact h.frames f hf

theorem WellFormed.unwind_frames {s : Scopes} (h : s.WellFormed) {d : Nat} (hd : 1 ≤ d) :
    (s.unwind d).frames = s.frames.drop (s.frames.length - d) := by
  unfold Scopes.unwind
  rw [show max (d : Int) 1 = d by omega]
  exact unwindFrames_eq_drop h.numbered hd

theorem WellFormed.unwind {s : Scopes} (h : s.WellFormed) {d : Nat} (hd : 1 ≤ d) :
    (s.unwind d).WellFormed where
  nonempty := by
    have := List.length_pos_iff.mpr h.nonempty
    rw [h.unwind_frames hd, ne_eq, List.drop_eq_nil_iff]
    omega
  numbered := by
    rw [h.unwind_frames hd]
    exact numbered_drop h.numbered _
  frames := by
    rw [h.unwind_frames hd]
    exact fun f hf => h.frames f (List.mem_of_mem_drop hf)

theorem WellFormed.depth_pos {s : Scopes} (h : s.WellFormed) : 1 ≤ s.depth := by
  rw [h.depth_eq]
  exact List.length_pos_iff.mpr h.nonempty

theorem WellFormed.unwind_depth {s : Scopes} (h : s.WellFormed) {d : Nat} (hd : 1 ≤ d)
    (hle : d ≤ s.depth) :
    (s.unwind d).depth = d := by
  rw [h.depth_eq] at hle
  rw [(h.unwind hd).depth_eq, h.unwind_frames hd, List.length_drop]
  omega

theorem WellFormed.unwind_push {s : Scopes} (h : s.WellFormed) (name : String) :
    (s.push name).unwind s.depth = s := by
  have hframes := (h.push name).unwind_frames h.depth_pos
  rw [h.depth_eq] at hframes ⊢
  cases s
  simpa [Scopes.push, Frames.push, Scopes.unwind] using hframes

theorem unwindFrames_unwindFrames {c d : Int} (h : c ≤ d) (fs : Frames) :
    unwindFrames c (unwindFrames d fs) = unwindFrames c fs := by
  induction fs with
  | nil => rfl
  | cons f rest ih =>
    cases rest with
    | nil => rfl
    | cons g rest =>
      rw [unwindFrames]
      split_ifs with hd
      · rw [ih, unwindFrames, if_pos (by omega)]
      · rfl

theorem unwind_unwind {c d : Nat} (h : c ≤ d) (s : Scopes) :
    (s.unwind d).unwind c = s.unwind c := by
  simp only [Scopes.unwind, Scopes.mk.injEq]
  exact unwindFrames_unwindFrames (by omega) s.frames

theorem depth_push {s : Scopes} (name : String) : (s.push name).depth = s.depth + 1 := rfl

theorem WellFormed.refilled {s s' : Scopes} (h : s.WellFormed) (hr : Refilled s.frames s'.frames) :
    s'.WellFormed where
  nonempty := by
    have := congrArg List.length hr.1
    have := List.length_pos_iff.mpr h.nonempty
    rw [← List.length_pos_iff]
    simp_all
  numbered := by
    refine numbered_of_index_eq ?_ h.numbered
    simpa [Frame.label, Function.comp_def] using congrArg (List.map Prod.snd) hr.1
  frames := hr.2 h.frames

theorem depth_of_refilled {s s' : Scopes} (hr : Refilled s.frames s'.frames) :
    s'.depth = s.depth := by
  obtain ⟨fs⟩ := s
  obtain ⟨gs⟩ := s'
  cases fs with
  | nil =>
    obtain rfl : gs = [] := by simpa using hr.1
    rfl
  | cons f rest =>
    cases gs with
    | nil => simp [Refilled] at hr
    | cons g rest' =>
      have hlabel := hr.1
      simp only [List.map_cons, List.cons.injEq, Frame.label, Prod.mk.injEq] at hlabel
      simp [depth, Frames.depth, hlabel.1.2]

end Flowchart.Scopes
