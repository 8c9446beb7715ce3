import Flowchart.Proofs.Machine.Discipline
import Flowchart.Proofs.Scope.Operations

/-!
# What a run does to memory

Every step changes the memory of a run by operations of a few forms: it opens a frame or closes
frames, declares names read off a block, or stores a value that was worked out before. A property
of memory that these operations keep holds in all states of all runs.
-/

namespace Flowchart

/-- The value that an operation is given to store. -/
def Scope.Operation.stored? : Scope.Operation → Option Float
  | .assignCurrent _ v => some v
  | .update _ v => some v
  | .setElement _ _ v => some v
  | _ => none

namespace Machine

open Scope (Frame Operation Operated Wrote)

variable {p : Program} {g : Graph} {m m' : Scopes} {s s' : State} {n : Node} {t : Task}
  {f : Option Failure}

/-! ## Operations of a run -/

/-- Where the values come from that a run stores. -/
inductive Evaluated (g : Graph) (m : Scopes) (v : Float) : Prop
  | operand (n : Node) (slot : Slot) (text : String) (h : operand g m n slot text = .ok v)
  | expression (text : String) (h : Expr.eval (resolver m) text = .ok v)

/-- The operations that a run carries out on memory `m`. -/
inductive Written (g : Graph) (m : Scopes) : Operation → Prop
  | opened (name : String) : Written g m (.push name)
  | closed (depth : Nat) : Written g m (.unwind depth)
  | declared (names name : String) (h : name ∈ nameList names) : Written g m (.declare name)
  | initialized (statement : String) (a : Expr.Assignment) (v : Float)
      (ha : Expr.Assignment.parse statement = .ok a) (hv : Evaluated g m v) :
      Written g m (.assignCurrent a.name v)
  | updated (name : String) (v : Float) (hv : Evaluated g m v) : Written g m (.update name v)
  | arrayDeclared (name : String) (size : Int) : Written g m (.declareArray name size)
  | elementSet (name : String) (index : Int) (v : Float) (hv : Evaluated g m v) :
      Written g m (.setElement name index v)

theorem Written.evaluated {o : Operation} (h : Written g m o) {v : Float}
    (hv : o.stored? = some v) :
    Evaluated g m v := by
  cases h with
  | opened => cases hv
  | closed => cases hv
  | declared => cases hv
  | initialized _ _ w _ hw =>
    cases hv
    exact hw
  | updated _ w hw =>
    cases hv
    exact hw
  | arrayDeclared => cases hv
  | elementSet _ _ w hw =>
    cases hv
    exact hw

def Change (g : Graph) (m m' : Scopes) : Prop := ∃ o, Written g m o ∧ m.apply o = .ok m'

def Changes (g : Graph) : Scopes → Scopes → Prop := Relation.ReflTransGen (Change g)

theorem Changes.refl (g : Graph) (m : Scopes) : Changes g m m := Relation.ReflTransGen.refl

theorem Changes.trans {m'' : Scopes} (h : Changes g m m') (h' : Changes g m' m'') :
    Changes g m m'' :=
  Relation.ReflTransGen.trans h h'

theorem changes_of_written {o : Operation} (hw : Written g m o) (ho : m.apply o = .ok m') :
    Changes g m m' :=
  Relation.ReflTransGen.single ⟨o, hw, ho⟩

theorem changes_push (g : Graph) (m : Scopes) (name : String) : Changes g m (m.push name) :=
  changes_of_written (.opened name) rfl

theorem changes_unwind (g : Graph) (m : Scopes) (depth : Nat) : Changes g m (m.unwind depth) :=
  changes_of_written (.closed depth) rfl

/-! ## Blocks and statements -/

theorem changes_declareAll (names : String) {found : List String}
    (hfound : ∀ name ∈ found, name ∈ nameList names) (h : declareAll s found = .ok (s', f)) :
    Changes g s.scopes s'.scopes := by
  induction found generalizing s with
  | nil =>
    cases h
    exact .refl g _
  | cons name rest ih =>
    rw [List.forall_mem_cons] at hfound
    rcases after_cases h with ⟨scopes, hd, hrest⟩ | ⟨x, _, rfl, _⟩
    · exact (changes_of_written (.declared names name hfound.1) hd).trans (ih hfound.2 hrest)
    · exact .refl g _

theorem changes_executeBlock (h : executeBlock g s n = .ok (s', f)) :
    Changes g s.scopes s'.scopes := by
  cases executeBlock_cases h with
  | refused x => exact .refl g _
  | declared names _ _ _ hdeclare => exact changes_declareAll names (fun _ hname => hname) hdeclare
  | assigned target text v scopes _ hv hupdate =>
    exact changes_of_written (.updated target v (.operand n _ _ hv)) hupdate
  | putOut text => exact .refl g _
  | arrayDeclared array size count scopes _ hdeclare =>
    exact changes_of_written (.arrayDeclared array count) hdeclare
  | elementSet array index text i v scopes _ _ hv hset =>
    exact changes_of_written (.elementSet array i v (.operand n _ _ hv)) hset

theorem ofExpr_eq_ok {α : Type} {x : Except Expr.Error α} {a : α} (h : Attempt.ofExpr x = .ok a) :
    x = .ok a := by
  cases x with
  | error e => cases h
  | ok b =>
    cases h
    rfl

theorem changes_prepare {statement : String} (h : prepare m statement = .ok m') :
    Changes g m m' := by
  obtain ⟨a, ha, h⟩ := bind_eq_ok h
  obtain ⟨v, hv, h⟩ := bind_eq_ok h
  refine changes_of_written
    (.initialized statement a v (ofExpr_eq_ok ha) (.expression _ (ofExpr_eq_ok hv))) ?_
  cases hm : m.assignCurrent a.name v with
  | error c =>
    rw [hm] at h
    cases h
  | ok m1 =>
    rw [hm] at h
    cases h
    rw [Scopes.apply, hm]
    rfl

theorem changes_advance {statement : String} (h : advance m statement = .ok m') :
    Changes g m m' := by
  obtain ⟨a, -, h⟩ := bind_eq_ok h
  split_ifs at h
  · cases h
  · obtain ⟨v, hv, h⟩ := bind_eq_ok h
    exact changes_of_written (.updated a.name v (.expression _ (ofExpr_eq_ok hv))) h

/-! ## Tasks -/

theorem changes_enterLoop (h : enterLoop s n t = .ok (s', f)) : Changes g s.scopes s'.scopes := by
  unfold enterLoop at h
  split at h
  · have hopened := changes_push g s.scopes s!"for {n.id}"
    rcases after_cases h with ⟨scopes, hprep, h⟩ | ⟨x, _, rfl, _⟩
    · cases h
      split_ifs at hprep
      · cases hprep
        exact hopened
      · exact hopened.trans (changes_prepare (mapFailure_ok hprep))
    · exact hopened.trans (changes_unwind g _ _)
  · cases h

theorem changes_checkLoop (h : checkLoop p s t = .ok (s', f)) :
    Changes p.graph s.scopes s'.scopes := by
  have hclosed := changes_unwind p.graph s.scopes t.depth
  obtain ⟨n, -, h⟩ := bind_eq_ok h
  simp only at h
  split_ifs at h
  · cases h
    exact hclosed
  · split at h
    · rcases after_cases h with ⟨holds, _, h⟩ | ⟨x, _, rfl, _⟩
      · split_ifs at h
        · cases h
          rw [visitNext_eq]
          exact .refl _ _
        · cases h
          rw [follow_eq]
          exact hclosed
      · exact hclosed
    · cases h

theorem changes_stepLoop (h : stepLoop p s t = .ok (s', f)) :
    Changes p.graph s.scopes s'.scopes := by
  obtain ⟨n, -, h⟩ := bind_eq_ok h
  split at h
  · rcases after_cases h with ⟨scopes, hadv, h⟩ | ⟨x, _, rfl, _⟩
    · cases h
      split_ifs at hadv
      · cases hadv
        exact .refl _ _
      · exact changes_advance (mapFailure_ok hadv)
    · exact changes_unwind p.graph s.scopes t.depth
  · cases h

theorem changes_call (h : call p s n t = .ok (s', f)) : Changes p.graph s.scopes s'.scopes := by
  unfold call at h
  split at h
  · rename_i name _
    split_ifs at h
    · cases h; exact .refl _ _
    · cases h; exact .refl _ _
    · cases h; exact .refl _ _
    · split at h
      · cases h; exact .refl _ _
      · obtain ⟨first, -, h⟩ := bind_eq_ok h
        cases h
        rw [visitNext_eq]
        exact changes_push p.graph s.scopes name
  · cases h

theorem changes_leaveCall (h : leaveCall p s t = .ok s') : Changes p.graph s.scopes s'.scopes := by
  obtain ⟨n, -, h⟩ := bind_eq_ok h
  rw [follow_eq] at h
  cases h
  exact changes_unwind p.graph s.scopes t.depth

theorem changes_visit (h : visit p s t = .ok (s', f)) : Changes p.graph s.scopes s'.scopes := by
  obtain ⟨n, -, h⟩ := bind_eq_ok h
  split_ifs at h
  · cases h; exact .refl _ _
  · cases h; exact .refl _ _
  · cases hk : n.kind <;> simp only [hk] at h
    case start | functionStart | functionEnd | arithmetic | arrayElement =>
      rw [follow_eq] at h
      cases h
      exact .refl _ _
    case stop | unknown => cases h; exact .refl _ _
    case declaration | assignment | output | arrayDeclaration | arrayAssignment =>
      obtain ⟨⟨s1, f1⟩, hexec, h⟩ := bind_eq_ok h
      have hchanges := changes_executeBlock hexec
      cases f1 with
      | none =>
        cases h
        rw [follow_eq]
        exact hchanges
      | some x =>
        cases h
        exact hchanges
    case branch =>
      rcases branchOn_cases h with ⟨holds, rfl, -⟩ | ⟨x, rfl, -⟩
      · rw [follow_eq]
        exact .refl _ _
      · exact .refl _ _
    case whileLoop =>
      rcases branchOn_cases h with ⟨holds, rfl, -⟩ | ⟨x, rfl, -⟩
      · rw [follow_eq]
        split_ifs
        · split
          · simp only [visitNext_eq]
            exact .refl _ _
          · exact .refl _ _
        · exact .refl _ _
      · exact .refl _ _
    case forLoop => exact changes_enterLoop h
    case functionCall => exact changes_call h

theorem changes_perform (h : perform p s t = .ok (s', f)) : Changes p.graph s.scopes s'.scopes := by
  unfold perform at h
  cases ht : t.activity <;> simp only [ht] at h
  case visit => exact changes_visit h
  case check => exact changes_checkLoop h
  case step => exact changes_stepLoop h
  case leave =>
    obtain ⟨s1, hl, h⟩ := bind_eq_ok h
    cases h
    exact changes_leaveCall hl

theorem changes_abandon {x : Failure} (h : s.abandon p t x = .ok s') :
    Changes p.graph s.scopes s'.scopes := by
  unfold State.abandon at h
  simp only at h
  split at h
  · have hleft := changes_leaveCall h
    exact hleft
  · cases h
    exact changes_unwind p.graph s.scopes 1

theorem changes_of_next (h : Next p s s') : Changes p.graph s.scopes s'.scopes := by
  obtain ⟨t, rest, s1, f, ht, hperform, hend⟩ := next_cases h
  have hfirst := changes_perform hperform
  cases f with
  | none => exact hend ▸ hfirst
  | some x => exact hfirst.trans (changes_abandon hend)

/-! ## Invariants of memory -/

theorem Changes.invariant {P : Scopes → Prop} (h : Changes g m m') (hm : m.WellFormed)
    (hstep : ∀ m m' o, Written g m o → Operated m.frames o m'.frames → P m → P m') (hP : P m) :
    m'.WellFormed ∧ P m' := by
  induction h with
  | refl => exact ⟨hm, hP⟩
  | tail _ hchange ih =>
    obtain ⟨o, hw, ho⟩ := hchange
    obtain ⟨hwf, hop⟩ := Scopes.apply_operated ih.1 ho
    exact ⟨hwf, hstep _ _ o hw hop ih.2⟩

/-- What holds of empty memory and is kept by the operations of a run holds in every state of
every run. -/
theorem Reaches.memory {P : Scopes → Prop} {start : Handle} {failures : List Failure}
    (h : Reaches p (.initial start failures) s) (hinitial : P .initial)
    (hstep : ∀ m m' o, Written p.graph m o → Operated m.frames o m'.frames → P m → P m') :
    P s.scopes := by
  have hall : s.scopes.WellFormed ∧ P s.scopes :=
    h.invariant (I := fun s => s.scopes.WellFormed ∧ P s.scopes)
      ⟨Scopes.wellFormed_initial, hinitial⟩
      fun s s' hnext ih => (changes_of_next hnext).invariant ih.1 hstep ih.2
  exact hall.2

theorem Reaches.frames {P : Frame → Prop} {start : Handle} {failures : List Failure}
    (h : Reaches p (.initial start failures) s) (hnew : ∀ name i, P (.new name i))
    (hwrite : ∀ m o f f', Written p.graph m o → Wrote o f f' → (∀ f ∈ m.frames, P f) → P f → P f') :
    ∀ f ∈ s.scopes.frames, P f := by
  refine h.memory (P := fun m => ∀ f ∈ m.frames, P f) ?_ fun m m' o hw hop hm => ?_
  · exact List.forall_mem_singleton.mpr (hnew "global" 0)
  · exact hop.forall_mem hnew (fun f f' hwrote => hwrite m o f f' hw hwrote hm) hm

end Machine

end Flowchart
