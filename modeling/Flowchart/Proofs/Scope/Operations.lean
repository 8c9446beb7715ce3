import Flowchart.Proofs.Scope.Frames
import Flowchart.Scope.Operation

/-!
# What an operation can do

Each operation on memory seen as a change to the stack of frames: it opens or closes
frames, or writes to one name in one frame.
-/

namespace Flowchart.Scope

/-- What an operation that succeeds makes of the frames of well-formed memory. -/
inductive Operated (fs : Frames) : Operation → Frames → Prop
  | pushed (name : String) : Operated fs (.push name) (fs.push name)
  /-- The bottom frame stays. -/
  | popped : Operated fs .pop (if fs.length ≤ 1 then fs else fs.tail)
  | unwound (depth : Int) : Operated fs (.unwind depth) (fs.drop (fs.length - (max depth 1).toNat))
  | declared (f : Frame) (rest : Frames) (name : String) (hfs : fs = f :: rest) (hname : name ≠ "")
      (hnew : ¬ f.vars.contains name) : Operated fs (.declare name) (f.setVariable name 0 :: rest)
  | assigned (f : Frame) (rest : Frames) (name : String) (v : Float) (hfs : fs = f :: rest) :
      Operated fs (.assignCurrent name v) (f.setVariable name v :: rest)
  | updated (inner : Frames) (f : Frame) (outer : Frames) (name : String) (v : Float)
      (hfs : fs = inner ++ f :: outer) (hinner : ∀ g ∈ inner, ¬ g.vars.contains name)
      (hf : f.vars.contains name) :
      Operated fs (.update name v) (inner ++ f.setVariable name v :: outer)
  | arrayDeclared (f : Frame) (rest : Frames) (name : String) (size : Int) (hfs : fs = f :: rest)
      (hname : name ≠ "") (hsize : 0 < size) (hnew : ∀ g ∈ fs, ¬ g.arrays.contains name) :
      Operated fs (.declareArray name size) (f.setArray name (.zeros size) :: rest)
  | elementSet (inner : Frames) (f : Frame) (outer : Frames) (name : String) (i : Nat)
      (a : NumberArray) (v : Float) (hfs : fs = inner ++ f :: outer)
      (hinner : ∀ g ∈ inner, ¬ g.arrays.contains name) (hf : f.arrays.get? name = some a)
      (hi : i < a.elements.size) :
      Operated fs (.setElement name i v) (inner ++ f.setArray name (a.set i v) :: outer)

theorem updateIn_split {name : String} {v : Float} {fs gs : Frames}
    (h : Scopes.updateIn name v fs = some gs) :
    ∃ inner f outer, fs = inner ++ f :: outer ∧ (∀ g ∈ inner, ¬ g.vars.contains name) ∧
      f.vars.contains name ∧
      gs = inner ++ f.setVariable name v :: outer := by
  induction fs generalizing gs with
  | nil => simp [Scopes.updateIn] at h
  | cons f rest ih =>
    unfold Scopes.updateIn at h
    split_ifs at h with hf
    · cases h
      exact ⟨[], f, rest, rfl, by simp, hf, rfl⟩
    · obtain ⟨us, hus, rfl⟩ := Option.map_eq_some_iff.mp h
      obtain ⟨inner, g, outer, rfl, hinner, hg, rfl⟩ := ih hus
      exact ⟨f :: inner, g, outer, rfl, List.forall_mem_cons.mpr ⟨hf, hinner⟩, hg, rfl⟩

theorem setElementIn_split {name : String} {a : NumberArray} (i : Nat) (v : Float) {fs : Frames}
    (h : Scopes.findArrayIn name fs = some a) :
    ∃ inner f outer, fs = inner ++ f :: outer ∧ (∀ g ∈ inner, ¬ g.arrays.contains name) ∧
      f.arrays.get? name = some a ∧
      Scopes.setElementIn name i v fs = inner ++ f.setArray name (a.set i v) :: outer := by
  induction fs with
  | nil => simp [Scopes.findArrayIn] at h
  | cons f rest ih =>
    cases hf : f.arrays.get? name with
    | some b =>
      obtain rfl : b = a := by simpa [Scopes.findArrayIn, hf] using h
      exact ⟨[], f, rest, rfl, by simp, hf, by simp [Scopes.setElementIn, hf]⟩
    | none =>
      obtain ⟨inner, g, outer, rfl, hinner, hg, hset⟩ :=
        ih (by simpa [Scopes.findArrayIn, hf] using h)
      refine ⟨f :: inner, g, outer, rfl, ?_, hg, by simp [Scopes.setElementIn, hf, hset]⟩
      rw [List.forall_mem_cons]
      exact ⟨by simp [Table.contains, hf], hinner⟩

theorem not_contains_of_findArrayIn {name : String} {fs : Frames}
    (h : Scopes.findArrayIn name fs = none) :
    ∀ f ∈ fs, ¬ f.arrays.contains name := by
  induction fs with
  | nil => simp
  | cons f rest ih =>
    unfold Scopes.findArrayIn at h
    split at h
    · cases h
    · rename_i hf
      rw [List.forall_mem_cons]
      exact ⟨by simp [Table.contains, hf], ih h⟩

/-! ## Properties of single frames -/

/-- What an operation makes of the frame it writes to. -/
inductive Wrote : Operation → Frame → Frame → Prop
  | declared (name : String) (f : Frame) : Wrote (.declare name) f (f.setVariable name 0)
  | assigned (name : String) (v : Float) (f : Frame) :
      Wrote (.assignCurrent name v) f (f.setVariable name v)
  | updated (name : String) (v : Float) (f : Frame) (hf : f.vars.contains name) :
      Wrote (.update name v) f (f.setVariable name v)
  | arrayDeclared (name : String) (size : Int) (f : Frame) :
      Wrote (.declareArray name size) f (f.setArray name (.zeros size))
  | elementSet (name : String) (i : Nat) (a : NumberArray) (v : Float) (f : Frame)
      (hf : f.arrays.get? name = some a) :
      Wrote (.setElement name i v) f (f.setArray name (a.set i v))

theorem forall_mem_replace {P : Frame → Prop} (inner : Frames) {outer : Frames} {f g : Frame}
    (hg : P f → P g) (h : ∀ x ∈ inner ++ f :: outer, P x) : ∀ x ∈ inner ++ g :: outer, P x := by
  simp only [List.forall_mem_append, List.forall_mem_cons] at h ⊢
  exact ⟨h.1, hg h.2.1, h.2.2⟩

theorem Operated.forall_mem {P : Frame → Prop} {fs gs : Frames} {o : Operation}
    (h : Operated fs o gs) (hnew : ∀ name i, P (.new name i))
    (hwrite : ∀ f g, Wrote o f g → P f → P g) (hfs : ∀ f ∈ fs, P f) :
    ∀ g ∈ gs, P g := by
  cases h with
  | pushed name => exact List.forall_mem_cons.mpr ⟨hnew name _, hfs⟩
  | popped =>
    split_ifs
    · exact hfs
    · exact fun g hg => hfs g (List.mem_of_mem_tail hg)
  | unwound depth => exact fun g hg => hfs g (List.mem_of_mem_drop hg)
  | declared f rest name hfs' hname hnew' =>
    subst hfs'
    exact forall_mem_replace [] (hwrite _ _ (.declared name f)) hfs
  | assigned f rest name v hfs' =>
    subst hfs'
    exact forall_mem_replace [] (hwrite _ _ (.assigned name v f)) hfs
  | updated inner f outer name v hfs' hinner hf =>
    subst hfs'
    exact forall_mem_replace inner (hwrite _ _ (.updated name v f hf)) hfs
  | arrayDeclared f rest name size hfs' hname hsize hnew' =>
    subst hfs'
    exact forall_mem_replace [] (hwrite _ _ (.arrayDeclared name size f)) hfs
  | elementSet inner f outer name i a v hfs' hinner hf hi =>
    subst hfs'
    exact forall_mem_replace inner (hwrite _ _ (.elementSet name i a v f hf)) hfs

end Flowchart.Scope

namespace Flowchart.Scopes

open Scope

variable {s s' : Scopes}

/-! ## One operation -/

theorem declare_operated {name : String} (h : s.declare name = .ok s') :
    Operated s.frames (.declare name) s'.frames := by
  unfold declare at h
  split_ifs at h with hname
  · cases h
  · split at h
    · cases h
    · rename_i f rest hfs
      split_ifs at h with hnew
      · cases h
      · cases h
        exact .declared f rest name hfs hname hnew

theorem assignCurrent_operated {name : String} {v : Float} (h : s.assignCurrent name v = .ok s') :
    Operated s.frames (.assignCurrent name v) s'.frames := by
  unfold assignCurrent Frames.modifyCurrent at h
  split at h
  · cases h
  · rename_i f rest hfs
    cases h
    exact .assigned f rest name v hfs

theorem update_operated {name : String} {v : Float} (h : s.update name v = .ok s') :
    Operated s.frames (.update name v) s'.frames := by
  unfold update at h
  split at h
  · rename_i gs hgs
    cases h
    obtain ⟨inner, f, outer, hfs, hinner, hf, rfl⟩ := updateIn_split hgs
    exact .updated inner f outer name v hfs hinner hf
  · cases h

theorem declareArray_operated {name : String} {size : Int} (h : s.declareArray name size = .ok s') :
    Operated s.frames (.declareArray name size) s'.frames := by
  unfold declareArray at h
  split_ifs at h with hname hsize hfound
  · cases h
  · cases h
  · cases h
  · split at h
    · cases h
    · cases h
    · rename_i f rest a hfs ha
      cases h
      obtain ⟨-, rfl⟩ := zeroArray_eq_ok ha
      have hnone : findArrayIn name s.frames = none := by simpa [findArray] using hfound
      exact .arrayDeclared f rest name size hfs hname (by omega) (not_contains_of_findArrayIn hnone)

theorem setElement_operated {name : String} {index : Int} {v : Float}
    (h : s.setElement name index v = .ok s') :
    Operated s.frames (.setElement name index v) s'.frames := by
  obtain ⟨⟨a, i⟩, hchecked, hstored⟩ := bind_eq_ok h
  obtain ⟨hfound, rfl, -⟩ := checkedArray_eq_ok hchecked
  obtain ⟨inner, f, outer, hfs, hinner, hf, hset⟩ := setElementIn_split i v hfound
  simp only [hset] at hstored
  split_ifs at hstored with hi
  · cases hstored
    exact .elementSet inner f outer name i a v hfs hinner hf hi
  · cases hstored

theorem WellFormed.unwind_operated (h : s.WellFormed) (depth : Int) :
    (s.unwind depth).WellFormed ∧ Operated s.frames (.unwind depth) (s.unwind depth).frames := by
  have hdepth : s.unwind depth = s.unwind ((max depth 1).toNat : Nat) := by
    have hmax : max (((max depth 1).toNat : Nat) : Int) 1 = max depth 1 := by omega
    rw [Scopes.unwind, Scopes.unwind, hmax]
  have hpos : 1 ≤ (max depth 1).toNat := by omega
  rw [hdepth]
  refine ⟨h.unwind hpos, ?_⟩
  rw [h.unwind_frames hpos]
  exact .unwound depth

theorem WellFormed.pop_operated (h : s.WellFormed) (hp : s.pop = .ok s') :
    s'.WellFormed ∧ Operated s.frames .pop s'.frames := by
  obtain ⟨⟨popped, gs⟩, hpop, rfl⟩ := map_eq_ok hp
  have hgs : gs = if s.frames.length ≤ 1 then s.frames else s.frames.tail := by
    revert hpop
    cases s.frames with
    | nil => simp [Frames.pop]
    | cons f rest => cases rest <;> simp +contextual [Frames.pop, eq_comm]
  refine ⟨?_, hgs ▸ .popped⟩
  simp only [hgs]
  split_ifs with hlen
  · exact h
  · refine ⟨?_, ?_, ?_⟩
    · rw [← List.length_pos_iff, List.length_tail]
      omega
    · rw [← List.drop_one]
      exact numbered_drop h.numbered 1
    · exact fun f hf => h.frames f (List.mem_of_mem_tail hf)

theorem apply_operated (h : s.WellFormed) {o : Operation} (ho : s.apply o = .ok s') :
    s'.WellFormed ∧ Operated s.frames o s'.frames := by
  cases o with
  | push name =>
    cases ho
    exact ⟨h.push name, .pushed name⟩
  | pop => exact h.pop_operated (mapError_eq_ok ho)
  | unwind depth =>
    cases ho
    exact h.unwind_operated depth
  | declare name => exact ⟨h.refilled (refilled_declare ho), declare_operated ho⟩
  | assignCurrent name v =>
    have ha := mapError_eq_ok ho
    exact ⟨h.refilled (refilled_assignCurrent ha), assignCurrent_operated ha⟩
  | update name v => exact ⟨h.refilled (refilled_update ho), update_operated ho⟩
  | declareArray name size =>
    exact ⟨h.refilled (refilled_declareArray ho), declareArray_operated ho⟩
  | setElement name index v => exact ⟨h.refilled (refilled_setElement ho), setElement_operated ho⟩

end Flowchart.Scopes
