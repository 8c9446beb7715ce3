import Flowchart.Proofs.Graph.Wired
import Flowchart.Proofs.Workspace.Links

/-!
# Edits and validation

Edits and validation go by rules of their own, and the rules agree: what was edited block
by block has ids, links and inputs that validation accepts. It may still lack a start
block, and edits do not look for cycles of inputs.
-/

namespace Flowchart.Workspace

open Flowchart.Graph (Wired problems startProblem cycleProblem)

/-! ## Records that fit their kinds -/

def Produces (records : List Record) (id : String) : Prop :=
  ∃ r ∈ records, r.id = id ∧ r.kind.isProducer

/-- The ports and inputs in use are there for blocks of this kind. -/
structure Fits (records : List Record) (r : Record) : Prop where
  known : (BlockKind.ofTag? r.type).isSome
  ports : ∀ p ∈ Port.outgoing, r.link p ≠ "" → p = .next ∨ r.kind.isBranching
  inputs : ∀ s, r.input s ≠ "" → r.kind.accepts s ∧ Produces records (r.input s)

section Fits

variable {records records' : List Record} {r r' : Record} {change : Record → Record} {id : String}

theorem kind_eq (htype : r'.type = r.type) : r'.kind = r.kind := by
  rw [Record.kind, Record.kind, htype]

theorem Fits.mono (h : Fits records r) (hp : ∀ id, Produces records id → Produces records' id) :
    Fits records' r where
  known := h.known
  ports := h.ports
  inputs := fun s hs => ⟨(h.inputs s hs).1, hp _ (h.inputs s hs).2⟩

theorem Fits.cleared (h : Fits records r) (htype : r'.type = r.type)
    (hinputs : r'.inputs = r.inputs)
    (hlink : ∀ p ∈ Port.outgoing, r'.link p ≠ "" → r'.link p = r.link p) : Fits records r' := by
  refine ⟨by rw [htype]; exact h.known, ?_, ?_⟩
  · intro p hp hne
    rw [kind_eq htype]
    exact h.ports p hp (hlink p hp hne ▸ hne)
  · intro s hs
    rw [kind_eq htype]
    simp only [Record.input, hinputs] at hs ⊢
    exact h.inputs s hs

theorem Fits.setLink (h : Fits records r) {p : Port} (hout : p ∈ Port.outgoing)
    (hport : p = .next ∨ r.kind.isBranching) (x : String) : Fits records (r.setLink p x) := by
  have hkind := kind_eq (r.type_setLink p x)
  refine ⟨by rw [r.type_setLink]; exact h.known, ?_, ?_⟩
  · intro q hq hne
    rw [r.link_setLink (Or.inr hout)] at hne
    rw [hkind]
    split_ifs at hne with heq
    · rwa [heq]
    · exact h.ports q hq hne
  · intro s hs
    rw [hkind]
    simp only [Record.input, r.inputs_setLink] at hs ⊢
    exact h.inputs s hs

theorem input_setInput (r : Record) (s t : Slot) (x : String)
    (h : (r.setInput s x).input t ≠ r.input t) :
    t = s ∧ (r.setInput s x).input t = x := by
  cases s <;> cases t <;> simp_all [Record.setInput, Record.input, Slots.set, Slots.get?]

theorem Fits.setInput (h : Fits records r) (s : Slot) (x : String)
    (hx : x ≠ "" → r.kind.accepts s ∧ Produces records x) : Fits records (r.setInput s x) := by
  refine ⟨h.known, ?_, ?_⟩
  · intro p hp
    have hlink : (r.setInput s x).link p = r.link p := by cases p <;> rfl
    rw [hlink]
    exact h.ports p hp
  · intro t ht
    by_cases hsame : (r.setInput s x).input t = r.input t
    · rw [hsame] at ht ⊢
      exact h.inputs t ht
    · obtain ⟨rfl, hinput⟩ := input_setInput r s t x hsame
      rw [hinput] at ht ⊢
      exact hx ht

/-! ## What edits keep -/

def AllFit (records : List Record) : Prop := ∀ r ∈ records, Fits records r

theorem produces_changeAt (hid : ∀ r, (change r).id = r.id) (htype : ∀ r, (change r).type = r.type)
    {x : String} (h : Produces records x) : Produces (changeAt id change records) x := by
  obtain ⟨r, hr, rfl, hproducer⟩ := h
  refine ⟨_, List.mem_map_of_mem hr, ?_⟩
  split_ifs
  · exact ⟨hid r, by rwa [kind_eq (htype r)]⟩
  · exact ⟨rfl, hproducer⟩

theorem AllFit.changeAt (h : AllFit records) (hid : ∀ r, (change r).id = r.id)
    (htype : ∀ r, (change r).type = r.type)
    (hchange : ∀ r ∈ records, r.id = id → Fits records r → Fits records (change r)) :
    AllFit (changeAt id change records) := by
  intro r' hr'
  obtain ⟨r, hr, rfl⟩ := List.mem_map.mp hr'
  refine Fits.mono ?_ fun x => produces_changeAt hid htype
  split_ifs with hat
  · exact hchange r hr hat (h r hr)
  · exact h r hr

theorem AllFit.clearing (h : AllFit records) (hkeeps : KeepsBlock change)
    (hlink : ∀ r, ∀ p ∈ Port.outgoing, (change r).link p ≠ "" → (change r).link p = r.link p)
    (id : String) :
    AllFit (Workspace.changeAt id change records) :=
  h.changeAt hkeeps.id hkeeps.type fun r _ _ hr =>
    hr.cleared (hkeeps.type r) (hkeeps.inputs r) (hlink r)

theorem AllFit.setTop (h : AllFit records) (id x : String) :
    AllFit (Workspace.changeAt id (·.setLink .top x) records) := by
  refine h.clearing (keepsBlock_setLink .top x) (fun r p hp _ => ?_) id
  rw [r.link_setLink (Or.inl rfl), if_neg]
  rintro rfl
  exact top_not_outgoing hp

theorem AllFit.clearPort (h : AllFit records) {p : Port} (hout : p ∈ Port.outgoing) (id : String) :
    AllFit (Workspace.changeAt id (·.setLink p "") records) := by
  refine h.clearing (keepsBlock_setLink p "") (fun r q _ hne => ?_) id
  rw [r.link_setLink (Or.inr hout)] at hne ⊢
  split_ifs at hne ⊢
  · exact absurd rfl hne
  · rfl

theorem AllFit.dropLinks (h : AllFit records) (id x : String) :
    AllFit (Workspace.changeAt id (dropLinks x) records) := by
  refine h.clearing (keepsBlock_dropLinks x) (fun r p _ hne => ?_) id
  rw [link_dropLinks] at hne ⊢
  split_ifs at hne ⊢
  · exact absurd rfl hne
  · rfl

theorem AllFit.release (h : AllFit records) (id x : String) :
    AllFit (Workspace.changeAt id (release x) records) := by
  refine h.clearing (keepsBlock_release x) (fun r p _ hne => ?_) id
  rw [link_release] at hne ⊢
  split_ifs at hne ⊢
  · exact absurd rfl hne
  · rfl

theorem AllFit.removed (h : AllFit records) (id : String) :
    AllFit ((records.filter (·.id ≠ id)).map (forget id)) := by
  have hproduces : ∀ x ≠ id, Produces records x →
      Produces ((records.filter (·.id ≠ id)).map (forget id)) x := by
    rintro x hx ⟨r, hr, rfl, hproducer⟩
    exact ⟨forget id r, List.mem_map_of_mem (List.mem_filter.mpr ⟨hr, by simpa using hx⟩), rfl,
      hproducer⟩
  intro r' hr'
  obtain ⟨r, hr, rfl⟩ := List.mem_map.mp hr'
  have hfits := h r (List.mem_of_mem_filter hr)
  refine ⟨hfits.known, ?_, ?_⟩
  · intro p hp hne
    rw [link_forget] at hne
    split_ifs at hne
    · exact absurd rfl hne
    · exact hfits.ports p hp hne
  · intro s hs
    rw [input_forget] at hs ⊢
    split_ifs at hs ⊢ with hgone
    · exact absurd rfl hs
    · exact ⟨(hfits.inputs s hs).1, hproduces _ hgone (hfits.inputs s hs).2⟩

/-- A block as it is put in: of a known type, with no links and no inputs. -/
structure Blank (r : Record) : Prop where
  known : (BlockKind.ofTag? r.type).isSome
  unlinked : Unlinked r
  inputs : r.inputs = Inputs.none

theorem Blank.fits (h : Blank r) (records : List Record) : Fits records r := by
  refine ⟨h.known, ?_, ?_⟩
  · intro p _ hne
    exact absurd (h.unlinked.link p) hne
  · intro s hs
    refine absurd ?_ hs
    rw [Record.input, h.inputs]
    cases s <;> rfl

theorem AllFit.added (h : AllFit records) (hr : Blank r) : AllFit (records ++ [r]) := by
  intro r' hr'
  rcases List.mem_append.mp hr' with hr' | hr'
  · refine (h r' hr').mono ?_
    rintro id ⟨x, hx, hrest⟩
    exact ⟨x, List.mem_append_left _ hx, hrest⟩
  · rw [List.mem_singleton.mp hr']
    exact hr.fits _

theorem Edited.allFit {w : Workspace} {e : Edit} (he : Edited w.records e records')
    (hw : w.WellFormed) (hadd : ∀ r, e = .add r → Blank r) (h : AllFit w.records) :
    AllFit records' := by
  -- The record that a change at the id of `r` concerns is `r` itself.
  have hsame : ∀ r ∈ w.records, ∀ r' ∈ w.records, r'.id = r.id → r' = r := fun r hr r' hr' =>
    List.inj_on_of_nodup_map hw.distinct hr' hr
  cases he with
  | unchanged => exact h
  | added r hname hnew => exact h.added (hadd r rfl)
  | removed id => exact h.removed id
  | updated id data =>
    refine h.changeAt (fun _ => rfl) (fun _ => rfl) fun r _ _ hr =>
      hr.cleared rfl rfl fun p _ _ => ?_
    cases p <;> rfl
  | connected a b p ha hb hne hout hport hfree hprevious hincoming =>
    refine AllFit.setTop (h.changeAt (fun r => r.id_setLink p b.id) (fun r => r.type_setLink p b.id)
      ?_) b.id a.id
    intro r hr hid hfits
    obtain rfl := hsame a ha r hr hid
    exact hfits.setLink hout hport b.id
  | detached b hb => exact (h.dropLinks b.previous b.id).setTop b.id ""
  | disconnected a p ha hout hlink => exact (h.release (a.link p) a.id).clearPort hout a.id
  | bound producer target s hp ht hproducer haccepts =>
    refine h.changeAt (fun _ => rfl) (fun _ => rfl) fun r hr hid hfits => ?_
    obtain rfl := hsame target ht r hr hid
    exact hfits.setInput s producer.id fun _ => ⟨haccepts, producer, hp, rfl, hproducer⟩
  | unbound id s =>
    exact h.changeAt (fun _ => rfl) (fun _ => rfl) fun r _ _ hfits => hfits.setInput s "" fun hne =>
      absurd rfl hne

end Fits

/-! ## The problems that are left -/

theorem wired_of_fits {w : Workspace} (hw : w.WellFormed) (hm : Matched w.records)
    (h : AllFit w.records) :
    Wired w.records := by
  refine ⟨⟨hw.named, hw.distinct, hw.start⟩, fun r hr => (h r hr).known, ?_,
    hm.targets_nodup hw.distinct, ?_⟩
  · intro r hr p hp hne
    have hj : Joined w.records r.id p (r.link p) := ⟨r, hr, rfl, rfl, hne⟩
    obtain ⟨b, hb, hid, -⟩ := hm.back.mpr ⟨p, hp, hj⟩
    exact ⟨fun heq => hm.other hp hj heq.symm, ⟨b, hb, hid⟩, (h r hr).ports p hp hne⟩
  · intro r hr s _ hne
    exact (h r hr).inputs s hne

theorem editAll_wired {es : List Edit} (hadd : ∀ r, .add r ∈ es → Blank r) :
    Wired (empty.editAll es).records := by
  have hinvariant : (empty.editAll es).WellFormed ∧
      Matched (empty.editAll es).records ∧ AllFit (empty.editAll es).records := by
    refine editAll_invariant (P := fun records => Matched records ∧ AllFit records) wellFormed_empty
      ⟨matched_nil, by simp [empty, AllFit]⟩ ?_
    rintro w rs e he hw hedited ⟨hmatched, hfit⟩
    have hblank : ∀ r, e = .add r → Blank r := by
      rintro r rfl
      exact hadd r he
    exact ⟨hedited.matched hw (fun r hr => (hblank r hr).unlinked) hmatched,
      hedited.allFit hw hblank hfit⟩
  exact wired_of_fits hinvariant.1 hinvariant.2.1 hinvariant.2.2

/-- Validation has two problems at most to report of what was edited block by block: no start block,
which is reported exactly if there is none, and cycles of inputs. -/
theorem edits_leave_two_problems (es : List Edit) (hadd : ∀ r, .add r ∈ es → Blank r) :
    (∃ ids : List String, problems (empty.editAll es).records =
      (if (empty.editAll es).records.any (·.isStart) then [] else [startProblem]) ++
      ids.map cycleProblem) ∧
    ∀ f ∈ problems (empty.editAll es).records,
      f.message = "no start block" ∨ f.message = "data inputs form a cycle" := by
  obtain ⟨ids, hproblems⟩ := Graph.problems_of_wired (editAll_wired hadd)
  refine ⟨⟨ids, hproblems⟩, ?_⟩
  intro f hf
  rw [hproblems, List.mem_append, List.mem_map] at hf
  rcases hf with hf | ⟨id, -, rfl⟩
  · split_ifs at hf
    · cases hf
    · rw [List.mem_singleton.mp hf]
      exact Or.inl rfl
  · exact Or.inr rfl

/-- Two elements of arrays index each other. The start block is removed, and a block that was bound
to one of them comes back under its id as one that takes no inputs. -/
def crossing : List Edit :=
  [.add { id := "s", type := "start" }, .add { id := "x", type := "arrayElement" },
   .add { id := "y", type := "arrayElement" }, .add { id := "o", type := "output" },
   .connect "s" .next "o", .connectInput "x" "o" .value, .connectInput "x" "y" .index,
   .connectInput "y" "x" .index, .connectInput "o" "x" .index, .connect "o" .onTrue "x",
   .remove "s", .remove "o", .add { id := "o", type := "end" }, .connectInput "x" "o" .value]

theorem edits_leave_two_problems_crossing :
    (∀ r, .add r ∈ crossing → Blank r) ∧
    problems (empty.editAll crossing).records = [startProblem, cycleProblem "x"] ∧
    ∀ f ∈ problems (empty.editAll crossing).records,
      f.message = "no start block" ∨ f.message = "data inputs form a cycle" := by
  have hadd : ∀ r, .add r ∈ crossing → Blank r := by
    intro r hr
    simp only [crossing, List.mem_cons, Edit.add.injEq, reduceCtorEq, List.not_mem_nil, or_false,
      false_or] at hr
    rcases hr with rfl | rfl | rfl | rfl | rfl
    all_goals exact ⟨by decide, by simp [Unlinked], rfl⟩
  exact ⟨hadd, by decide, (edits_leave_two_problems crossing hadd).2⟩

end Flowchart.Workspace
