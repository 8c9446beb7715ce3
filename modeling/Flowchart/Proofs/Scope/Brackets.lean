import Flowchart.Proofs.Scope.Arrays
import Mathlib.Data.List.Infix

/-!
# Bracketed scopes

Between opening a frame and closing it again, whatever is done in it leaves the frames below
as they are, up to the values that assignments reach from above.
-/

namespace Flowchart.Scope

variable {fs gs : Frames} {o : Operation}

/-! ## One operation -/

/-- What an operation makes of a frame that is not the innermost one; `above` are the frames
on top of it. -/
inductive Touched (above : Frame → Prop) (f : Frame) : Operation → Frame → Prop
  | spared (o : Operation) : Touched above f o f
  | updated (name : String) (v : Float) (hf : f.vars.contains name)
      (habove : ∀ g, above g → ¬ g.vars.contains name) :
      Touched above f (.update name v) (f.setVariable name v)
  | elementSet (name : String) (i : Nat) (a : NumberArray) (v : Float)
      (hf : f.arrays.get? name = some a) (hi : i < a.elements.size)
      (habove : ∀ g, above g → ¬ g.arrays.contains name) :
      Touched above f (.setElement name i v) (f.setArray name (a.set i v))

/-- The frames of a stack that have more than `k` frames below them. -/
def Above (fs : Frames) (k : Nat) (g : Frame) : Prop := ∃ j, k < j ∧ frameAt? fs j = some g

theorem mem_of_above {inner : Frames} {f g : Frame} {outer : Frames}
    (h : Above (inner ++ f :: outer) outer.length g) :
    g ∈ inner := by
  obtain ⟨j, hj, hg⟩ := h
  obtain ⟨i, rfl⟩ : ∃ i, j = outer.length + (i + 1) := ⟨j - outer.length - 1, by omega⟩
  rw [frameAt?_above] at hg
  exact List.mem_reverse.mp (List.mem_of_getElem? hg)

theorem Operated.touched (h : Operated fs o gs) {k : Nat} {f : Frame} (hf : frameAt? fs k = some f)
    (hfs : k + 1 < fs.length) (hgs : k < gs.length) :
    ∃ g, frameAt? gs k = some g ∧ Touched (Above fs k) f o g := by
  have hspared : frameAt? gs k = frameAt? fs k →
      ∃ g, frameAt? gs k = some g ∧ Touched (Above fs k) f o g :=
    fun hsame => ⟨f, hsame.trans hf, .spared o⟩
  cases h with
  | pushed name => exact hspared (frameAt?_append [_] fs (by omega))
  | popped =>
    refine hspared ?_
    split_ifs at hgs ⊢
    · rfl
    · rw [← List.drop_one] at hgs ⊢
      exact frameAt?_drop hgs
  | unwound depth => exact hspared (frameAt?_drop hgs)
  | declared g rest name hfs' =>
    subst hfs'
    exact hspared (frameAt?_replace [] g _ (by simp at hfs; omega))
  | assigned g rest name v hfs' =>
    subst hfs'
    exact hspared (frameAt?_replace [] g _ (by simp at hfs; omega))
  | updated inner g outer name v hfs' hinner hg =>
    subst hfs'
    by_cases hk : k = outer.length
    · subst hk
      obtain rfl : g = f := by simpa [frameAt?_middle] using hf
      exact ⟨_, frameAt?_middle inner _ outer,
        .updated name v hg fun x hx => hinner x (mem_of_above hx)⟩
    · exact hspared (frameAt?_replace inner g _ hk)
  | arrayDeclared g rest name size hfs' =>
    subst hfs'
    exact hspared (frameAt?_replace [] g _ (by simp at hfs; omega))
  | elementSet inner g outer name i a v hfs' hinner hg hi =>
    subst hfs'
    by_cases hk : k = outer.length
    · subst hk
      obtain rfl : g = f := by simpa [frameAt?_middle] using hf
      refine ⟨_, frameAt?_middle inner _ outer, .elementSet name i a v hg hi fun x hx => ?_⟩
      exact hinner x (mem_of_above hx)
    · exact hspared (frameAt?_replace inner g _ hk)

end Flowchart.Scope

namespace Flowchart.Scopes

open Scope

/-! ## Runs -/

/-- One of the operations assigned `v` to the variable while no frame above the one with `k`
frames below it had a variable of this name. -/
def UpdatedFrom (s : Scopes) (os : List Operation) (k : Nat) (name : String) (v : Float) : Prop :=
  ∃ earlier later, os = earlier ++ .update name v :: later ∧
    ∀ g, Above (s.performAll earlier).frames k g → ¬ g.vars.contains name

/-- One of the operations wrote `v` into the element and succeeded, while no frame above the one
with `k` frames below it had an array of this name. -/
def WrittenFrom (s : Scopes) (os : List Operation) (k : Nat) (name : String) (i : Nat)
    (v : Float) : Prop :=
  ∃ earlier later, os = earlier ++ .setElement name i v :: later ∧
    ((s.performAll earlier).perform (.setElement name i v)).2 = none ∧
    ∀ g, Above (s.performAll earlier).frames k g → ¬ g.arrays.contains name

/-- What becomes of a frame while operations run above it. -/
structure Spared (s : Scopes) (os : List Operation) (k : Nat) (f g : Frame) : Prop where
  shape : g.shape = f.shape
  vars : ∀ name, g.vars.get? name ≠ f.vars.get? name →
    ∃ v, g.vars.get? name = some v ∧ s.UpdatedFrom os k name v
  cells : ∀ name i, g.cell? name i ≠ f.cell? name i →
    ∃ v, g.cell? name i = some v ∧ s.WrittenFrom os k name i v

variable {s : Scopes} {os : List Operation} {k : Nat} {f g : Frame}

theorem UpdatedFrom.concat {name : String} {v : Float} (h : s.UpdatedFrom os k name v)
    (o : Operation) :
    s.UpdatedFrom (os ++ [o]) k name v := by
  obtain ⟨earlier, later, rfl, habove⟩ := h
  exact ⟨earlier, later ++ [o], by simp, habove⟩

theorem WrittenFrom.concat {name : String} {i : Nat} {v : Float} (h : s.WrittenFrom os k name i v)
    (o : Operation) :
    s.WrittenFrom (os ++ [o]) k name i v := by
  obtain ⟨earlier, later, rfl, hdone⟩ := h
  exact ⟨earlier, later ++ [o], by simp, hdone⟩

theorem Spared.refl (s : Scopes) (k : Nat) (f : Frame) : Spared s [] k f f :=
  ⟨rfl, fun _ h => absurd rfl h, fun _ _ h => absurd rfl h⟩

theorem Spared.concat (h : Spared s os k f g) (o : Operation) : Spared s (os ++ [o]) k f g where
  shape := h.shape
  vars name hne := by
    obtain ⟨v, hv, hupdated⟩ := h.vars name hne
    exact ⟨v, hv, hupdated.concat o⟩
  cells name i hne := by
    obtain ⟨v, hv, hwritten⟩ := h.cells name i hne
    exact ⟨v, hv, hwritten.concat o⟩

theorem Spared.touched {g' : Frame} {o : Operation} (h : Spared s os k f g)
    (hdone : ((s.performAll os).perform o).2 = none)
    (ht : Touched (Above (s.performAll os).frames k) g o g') : Spared s (os ++ [o]) k f g' := by
  have hold := h.concat o
  cases ht with
  | spared => exact hold
  | updated name v hg habove =>
    refine ⟨(Frame.shape_setVariable hg v).trans h.shape, fun other hne => ?_, hold.cells⟩
    rw [Frame.setVariable, Table.get?_put] at hne ⊢
    split_ifs at hne ⊢ with hname
    · subst hname
      exact ⟨v, rfl, os, [], rfl, habove⟩
    · exact hold.vars other hne
  | elementSet name i a v hg hi habove =>
    refine ⟨(Frame.shape_setArray hg (a.extent_set i v)).trans h.shape, hold.vars,
      fun other j hne => ?_⟩
    by_cases hcell : (other, j) = (name, i)
    · obtain ⟨rfl, rfl⟩ := Prod.mk.inj hcell
      exact ⟨v, by simp [Frame.cell?_setArray, NumberArray.set, hi], os, [], rfl, hdone, habove⟩
    · rw [Frame.cell?_setElement hg v hcell] at hne ⊢
      exact hold.cells other j hne

theorem performAll_concat (s : Scopes) (os : List Operation) (o : Operation) :
    s.performAll (os ++ [o]) = ((s.performAll os).perform o).1 := by
  simp [performAll, List.foldl_append]

/-- As long as more than `d` frames are open, the lowest `d` of them are spared. -/
theorem WellFormed.spared (h : s.WellFormed) {d : Nat} (hk : k < d)
    (hf : frameAt? s.frames k = some f) (os : List Operation)
    (hdepth : ∀ earlier, earlier <+: os → d + 1 ≤ (s.performAll earlier).depth) :
    ∃ g, frameAt? (s.performAll os).frames k = some g ∧ Spared s os k f g := by
  induction os using List.reverseRecOn with
  | nil => exact ⟨f, hf, .refl s k f⟩
  | append_singleton os o ih =>
    obtain ⟨g, hg, hspared⟩ :=
      ih fun earlier hle => hdepth earlier (hle.trans (List.prefix_append os [o]))
    have hwell := h.performAll os
    have hbefore := hdepth os (List.prefix_append os [o])
    have hafter := hdepth (os ++ [o]) List.prefix_rfl
    rw [(h.performAll _).depth_eq] at hbefore hafter
    rw [performAll_concat] at hafter ⊢
    cases ho : (s.performAll os).apply o with
    | error e =>
      have hsame : ((s.performAll os).perform o).1 = s.performAll os := by simp [perform, ho]
      rw [hsame]
      exact ⟨g, hg, hspared.concat o⟩
    | ok s' =>
      have hnext : (s.performAll os).perform o = (s', none) := by simp [perform, ho]
      rw [hnext] at hafter ⊢
      obtain ⟨g', hg', htouched⟩ :=
        (apply_operated hwell ho).2.touched hg (by omega) (by simp only at hafter; omega)
      exact ⟨g', hg', hspared.touched (by rw [hnext]) htouched⟩

/-- Whatever is done between opening a frame and unwinding to the depth before, the frames that
were there before are there again, with their names and sizes. A variable of theirs differs only
by an assignment that no frame above caught, an element only by writing to it. -/
theorem scopes_are_bracketed (before : List Operation) (name : String) (os : List Operation)
    (hdepth : ∀ earlier, earlier <+: os →
      (initial.performAll before).depth + 1 ≤
        (((initial.performAll before).push name).performAll earlier).depth) :
    let s := initial.performAll before
    let t := ((s.push name).performAll os).unwind s.depth
    t.frames.length = s.depth ∧ s.frames.length = s.depth ∧
      ∀ k < s.depth, ∃ f g, frameAt? s.frames k = some f ∧ frameAt? t.frames k = some g ∧
        Spared (s.push name) os k f g := by
  intro s t
  have hs : s.WellFormed := wellFormed_initial.performAll before
  have hinner : ((s.push name).performAll os).WellFormed := (hs.push name).performAll os
  have hopen : s.depth ≤ ((s.push name).performAll os).depth :=
    Nat.le_of_succ_le (hdepth os List.prefix_rfl)
  have hunwound : t.frames.length = s.depth := by
    rw [← (hinner.unwind hs.depth_pos).depth_eq]
    exact hinner.unwind_depth hs.depth_pos hopen
  refine ⟨hunwound, hs.depth_eq.symm, fun k hk => ?_⟩
  have hlt : k < s.frames.length := by rwa [hs.depth_eq] at hk
  obtain ⟨f, hf⟩ : ∃ f, frameAt? s.frames k = some f :=
    ⟨_, List.getElem?_eq_getElem (by simpa using hlt)⟩
  have hpushed : frameAt? (s.push name).frames k = some f :=
    (frameAt?_append [_] s.frames hlt).trans hf
  obtain ⟨g, hg, hspared⟩ := (hs.push name).spared hk hpushed os hdepth
  have hkept : frameAt? t.frames k = frameAt? ((s.push name).performAll os).frames k := by
    have hdrop := hinner.unwind_frames hs.depth_pos
    rw [hdrop]
    exact frameAt?_drop (by rwa [← hdrop, hunwound])
  exact ⟨f, g, hf, hkept.trans hg, hspared⟩

/-- A call with a variable and an array around it. -/
def calling : List Operation := [.declare "x", .declareArray "a" 2, .push "call", .declare "y"]

/-- The body of a loop: it has an `x` of its own, reaches the other names from a further frame,
and leaves that frame by unwinding. -/
def looping : List Operation :=
  [.declare "x", .update "x" 1, .push "call", .update "y" 2, .setElement "a" 1 3,
    .setElement "a" 2 4, .unwind 3]

theorem scopes_are_bracketed_looping :
    (∀ earlier, earlier <+: looping →
      3 ≤ (((initial.performAll calling).push "loop").performAll earlier).depth) ∧
      ∀ k < 2, ∃ f g, frameAt? (initial.performAll calling).frames k = some f ∧
        frameAt? ((((initial.performAll calling).push "loop").performAll looping).unwind 2).frames
          k = some g ∧
        Spared ((initial.performAll calling).push "loop") looping k f g := by
  have hdepth : ∀ earlier ∈ looping.inits,
      3 ≤ (((initial.performAll calling).push "loop").performAll earlier).depth := by decide
  have hopen := fun earlier h => hdepth earlier ((List.mem_inits earlier looping).mpr h)
  exact ⟨hopen, (scopes_are_bracketed calling "loop" looping hopen).2.2⟩

end Flowchart.Scopes
