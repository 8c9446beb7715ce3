import Flowchart.Proofs.Graph.Build
import Flowchart.Proofs.Graph.Cycles

/-!
# What validation ensures

Records without a problem have ids of their own, one start block, links that lead to
other blocks, at most one link to each block, and inputs that are bound to data blocks
without a cycle.
-/

namespace Flowchart.Graph

open Relation

/-! ## Valid records -/

/-- The ids that the links of a record lead to, one after the other. -/
def linkTargets (r : Record) (ports : List Port) : List String := (ports.map r.link).filter (· ≠ "")

def Feeds (records : List Record) (id id' : String) : Prop :=
  ∃ r ∈ records, r.id = id ∧ ∃ s ∈ Slot.all, r.input s = id' ∧ id' ≠ ""

/-- Records whose ids, links and inputs are in order. -/
structure Wired (records : List Record) : Prop extends Buildable records where
  known : ∀ r ∈ records, (BlockKind.ofTag? r.type).isSome
  links : ∀ r ∈ records, ∀ p ∈ Port.outgoing, r.link p ≠ "" →
    r.link p ≠ r.id ∧ (∃ r' ∈ records, r'.id = r.link p) ∧ (p = .next ∨ r.kind.isBranching)
  incoming : (records.flatMap (linkTargets · Port.outgoing)).Nodup
  inputs : ∀ r ∈ records, ∀ s ∈ Slot.all, r.input s ≠ "" →
    r.kind.accepts s ∧ ∃ r' ∈ records, r'.id = r.input s ∧ r'.kind.isProducer

structure Valid (records : List Record) : Prop extends Wired records where
  started : records.any (·.isStart)
  acyclic : ∀ id, ¬ TransGen (Feeds records) id id

theorem Valid.countP_start {records : List Record} (h : Valid records) :
    records.countP (·.isStart) = 1 := by
  have hpos : 0 < records.countP (·.isStart) :=
    List.countP_pos_iff.mpr (List.any_eq_true.mp h.started)
  exact Nat.le_antisymm h.start hpos

/-! ## Ids and start blocks -/

/-- What a census without problems found among the records, starting from `c`. -/
structure Counted (c : Census) (records : List Record) (c' : Census) : Prop where
  clean : c.problems = []
  named : ∀ r ∈ records, r.id ≠ ""
  fresh : ∀ r ∈ records, r.id ∉ c.index.keys
  distinct : (records.map (·.id)).Nodup
  index : ∀ id r, c'.index.get? id = some r ↔ c.index.get? id = some r ∨ r ∈ records ∧ r.id = id
  starts : c'.starts = c.starts + records.countP (·.isStart)
  single : records.countP (·.isStart) = 0 ∨ c'.starts ≤ 1

theorem Counted.cons {c c' : Census} {r : Record} {rest : List Record} (hname : r.id ≠ "")
    (hfresh : r.id ∉ c.index.keys) {starts : Nat}
    (hstarts : starts = c.starts + if r.isStart then 1 else 0) (hsingle : r.isStart → c.starts = 0)
    (h : Counted ⟨c.index.put r.id r, starts, c.problems⟩ rest c') : Counted c (r :: rest) c' where
  clean := h.clean
  named := List.forall_mem_cons.mpr ⟨hname, h.named⟩
  fresh := by
    rw [List.forall_mem_cons]
    refine ⟨hfresh, fun r' hr' hmem => h.fresh r' hr' ?_⟩
    rw [Table.keys_put]
    split_ifs
    · exact hmem
    · exact List.mem_append_left _ hmem
  distinct := by
    rw [List.map_cons, List.nodup_cons]
    refine ⟨fun hmem => ?_, h.distinct⟩
    obtain ⟨r', hr', hid⟩ := List.mem_map.mp hmem
    refine h.fresh r' hr' ?_
    rw [hid, ← Table.contains_iff, Table.contains, Table.get?_put, if_pos rfl]
    rfl
  index := by
    intro id r'
    have hnone : c.index.get? r.id = none := by
      rw [← Table.contains_iff, Table.contains] at hfresh
      simpa using hfresh
    rw [h.index, Table.get?_put, List.mem_cons]
    split_ifs with hid
    · subst hid
      simp only [hnone, Option.some.injEq, reduceCtorEq, false_or]
      constructor
      · rintro (rfl | ⟨hr', hid'⟩)
        · exact ⟨Or.inl rfl, rfl⟩
        · exact ⟨Or.inr hr', hid'⟩
      · rintro ⟨rfl | hr', hid'⟩
        · exact Or.inl rfl
        · exact Or.inr ⟨hr', hid'⟩
    · constructor
      · rintro (hold | ⟨hr', hid'⟩)
        · exact Or.inl hold
        · exact Or.inr ⟨Or.inr hr', hid'⟩
      · rintro (hold | ⟨rfl | hr', hid'⟩)
        · exact Or.inl hold
        · exact absurd hid' hid
        · exact Or.inr ⟨hr', hid'⟩
  starts := by
    have hcount : c'.starts = starts + rest.countP (·.isStart) := h.starts
    rw [hcount, List.countP_cons, hstarts]
    omega
  single := by
    have hcount : c'.starts = starts + rest.countP (·.isStart) := h.starts
    have hrest := h.single
    rw [hcount, hstarts] at hrest ⊢
    rw [List.countP_cons]
    by_cases hr : r.isStart
    · have hzero := hsingle hr
      simp only [hr, if_true] at hrest ⊢
      omega
    · simpa [hr] using hrest

theorem census_counted {records : List Record} (i : Nat) (c : Census)
    (h : (census i c records).problems = []) :
    Counted c records (census i c records) := by
  induction records generalizing i c with
  | nil => exact ⟨h, by simp, by simp, by simp, by simp [census], by simp [census], by simp⟩
  | cons r rest ih =>
    simp only [census] at h ⊢
    split_ifs at h ⊢ with hname hcontains hstart hsecond
    -- A problem found here would still be among the problems at the end.
    · exact absurd (ih _ _ h).clean (by simp)
    · exact absurd (ih _ _ h).clean (by simp)
    · exact absurd (ih _ _ h).clean (by simp)
    all_goals
      rw [Table.contains_iff] at hcontains
    · refine (ih _ _ h).cons hname hcontains ?_ ?_
      · simp [hstart]
      · omega
    · refine (ih _ _ h).cons hname hcontains ?_ ?_
      · simp [hstart]
      · simp [hstart]

/-! ## Links -/

/-- `incoming` counts one link to each block in `seen` and none to any other. -/
def Marks (incoming : Table Nat) (seen : List String) : Prop :=
  ∀ id, incoming.get? id = if id ∈ seen then some 1 else none

theorem Marks.put {incoming : Table Nat} {seen : List String} (h : Marks incoming seen)
    (id : String) :
    Marks (incoming.put id 1) (seen ++ [id]) := by
  intro id'
  rw [Table.get?_put, h id']
  by_cases hid : id = id'
  · simp [hid]
  · have hne : id' ≠ id := fun heq => hid heq.symm
    simp [hid, hne]

structure GoodLink (index : Table Record) (r : Record) (p : Port) : Prop where
  other : r.link p ≠ r.id
  leads : index.contains (r.link p)
  port : p = .next ∨ r.kind.isBranching

theorem checkLink_clean {index : Table Record} {r : Record} {incoming : Table Nat} {p : Port}
    {seen : List String} (hm : Marks incoming seen) (h : (checkLink index r incoming p).1 = []) :
    r.link p = "" ∧ (checkLink index r incoming p).2 = incoming ∨
      r.link p ≠ "" ∧ GoodLink index r p ∧ r.link p ∉ seen ∧
        Marks (checkLink index r incoming p).2 (seen ++ [r.link p]) := by
  by_cases hempty : r.link p = ""
  · exact Or.inl ⟨hempty, by simp [checkLink, hempty]⟩
  by_cases hself : r.link p = r.id
  · rw [hself] at hempty
    simp [checkLink, hempty, hself] at h
  by_cases hknown : index.contains (r.link p) = false
  · simp [checkLink, hempty, hself, hknown] at h
  simp only [checkLink, hempty, hself, hknown, if_false] at h ⊢
  obtain ⟨hbranch, hsecond⟩ := List.append_eq_nil_iff.mp h
  have hseen : r.link p ∉ seen := by
    intro hmem
    simp [hm (r.link p), hmem] at hsecond
  have hnone : incoming.get? (r.link p) = none := by
    rw [hm, if_neg hseen]
  refine Or.inr ⟨hempty, ⟨hself, by simpa using hknown, ?_⟩, hseen, ?_⟩
  · by_contra hport
    rw [not_or] at hport
    simp [hport.1, hport.2] at hbranch
  · rw [hnone]
    exact hm.put (r.link p)

theorem checkLinks_clean {index : Table Record} {r : Record} {incoming : Table Nat}
    {ports : List Port} {seen : List String} (hm : Marks incoming seen) (hseen : seen.Nodup)
    (h : (checkLinks index r incoming ports).1 = []) :
    (∀ p ∈ ports, r.link p ≠ "" → GoodLink index r p) ∧ (seen ++ linkTargets r ports).Nodup ∧
      Marks (checkLinks index r incoming ports).2 (seen ++ linkTargets r ports) := by
  induction ports generalizing incoming seen with
  | nil => simpa [linkTargets, checkLinks] using ⟨hseen, hm⟩
  | cons p rest ih =>
    simp only [checkLinks, List.append_eq_nil_iff] at h ⊢
    rw [List.forall_mem_cons]
    rcases checkLink_clean hm h.1 with ⟨hempty, hsame⟩ | ⟨hne, hgood, hnew, hmarks⟩
    · rw [hsame] at h ⊢
      have htargets : linkTargets r (p :: rest) = linkTargets r rest := by
        simp [linkTargets, hempty]
      obtain ⟨hlinks, hrest⟩ := ih hm hseen h.2
      rw [htargets]
      exact ⟨⟨fun hne => absurd hempty hne, hlinks⟩, hrest⟩
    · have htargets : seen ++ linkTargets r (p :: rest) =
          seen ++ [r.link p] ++ linkTargets r rest := by
        simp [linkTargets, hne]
      have hseen' : (seen ++ [r.link p]).Nodup := by
        rw [← List.concat_eq_append]
        exact hseen.concat hnew
      obtain ⟨hlinks, hrest⟩ := ih hmarks hseen' h.2
      rw [htargets]
      exact ⟨⟨fun _ => hgood, hlinks⟩, hrest⟩

/-! ## Inputs -/

theorem checkInput_clean {index : Table Record} {r : Record} {s : Slot}
    (h : checkInput index r s = []) (hbound : r.input s ≠ "") :
    r.kind.accepts s ∧ ∃ r', index.get? (r.input s) = some r' ∧ r'.kind.isProducer := by
  unfold checkInput at h
  simp only [hbound, if_false] at h
  split_ifs at h with haccepts
  split at h
  · cases h
  · rename_i r' hr'
    split_ifs at h with hproducer
    exact ⟨by simpa using haccepts, r', hr', hproducer⟩

/-! ## All records -/

structure Checked (index : Table Record) (r : Record) : Prop where
  known : (BlockKind.ofTag? r.type).isSome
  links : ∀ p ∈ Port.outgoing, r.link p ≠ "" → GoodLink index r p
  inputs : ∀ s ∈ Slot.all, r.input s ≠ "" →
    r.kind.accepts s ∧ ∃ r', index.get? (r.input s) = some r' ∧ r'.kind.isProducer

theorem checkRecords_clean {index : Table Record} {incoming : Table Nat} {records : List Record}
    {seen : List String} (hnamed : ∀ r ∈ records, r.id ≠ "") (hm : Marks incoming seen)
    (hseen : seen.Nodup) (h : checkRecords index incoming records = []) :
    (∀ r ∈ records, Checked index r) ∧
      (seen ++ records.flatMap (linkTargets · Port.outgoing)).Nodup := by
  induction records generalizing incoming seen with
  | nil => simpa using hseen
  | cons r rest ih =>
    rw [List.forall_mem_cons] at hnamed ⊢
    simp only [checkRecords, hnamed.1, if_false, List.append_eq_nil_iff,
      List.flatMap_eq_nil_iff] at h
    obtain ⟨⟨⟨htype, hlinks⟩, hinputs⟩, hrest⟩ := h
    obtain ⟨hgood, hseen', hm'⟩ := checkLinks_clean hm hseen hlinks
    obtain ⟨hall, hnodup⟩ := ih hnamed.2 hm' hseen' hrest
    refine ⟨⟨⟨?_, hgood, fun s hs => checkInput_clean (hinputs s hs)⟩, hall⟩, ?_⟩
    · simpa [Option.isSome_iff_ne_none] using htype
    · rwa [List.flatMap_cons, ← List.append_assoc]

theorem valid_of_problems {records : List Record} (h : problems records = []) : Valid records := by
  simp only [problems, List.append_eq_nil_iff, List.reverse_eq_nil_iff, List.map_eq_nil_iff] at h
  obtain ⟨⟨⟨hcensus, hstart⟩, hrecords⟩, hcycles⟩ := h
  have hcounted := census_counted 0 ⟨.empty, 0, []⟩ hcensus
  generalize census 0 ⟨.empty, 0, []⟩ records = c at *
  have hindex (id : String) (r : Record) : c.index.get? id = some r ↔ r ∈ records ∧ r.id = id := by
    simp [hcounted.index]
  have hstarts : c.starts = records.countP (·.isStart) := by simp [hcounted.starts]
  obtain ⟨hchecked, hincoming⟩ :=
    checkRecords_clean hcounted.named (by simp [Marks]) List.nodup_nil hrecords
  have hfeeds : Feeds records = BoundTo c.index.get? := by
    funext id id'
    simp only [Feeds, BoundTo, hindex, and_assoc]
  have hsome : c.starts ≠ 0 := by simpa using hstart
  have hsingle : records.countP (·.isStart) = 1 := by
    have hsingle := hcounted.single
    omega
  have hstarted : records.any (·.isStart) := by
    rw [List.any_eq_true, ← List.countP_pos_iff, hsingle]
    exact Nat.one_pos
  refine ⟨⟨⟨hcounted.named, hcounted.distinct, hsingle.le⟩, fun r hr => (hchecked r hr).known, ?_,
    hincoming, ?_⟩, hstarted, ?_⟩
  · intro r hr p hp hne
    have hgood := (hchecked r hr).links p hp hne
    obtain ⟨r', hr'⟩ := Option.isSome_iff_exists.mp hgood.leads
    exact ⟨hgood.other, ⟨r', (hindex _ r').mp hr'⟩, hgood.port⟩
  · intro r hr s hs hne
    obtain ⟨haccepts, r', hr', hproducer⟩ := (hchecked r hr).inputs s hs hne
    obtain ⟨hmem, hid⟩ := (hindex _ r').mp hr'
    exact ⟨haccepts, r', hmem, hid, hproducer⟩
  · rw [hfeeds]
    exact acyclic_of_inputCycles (fun id r => (hindex id r).mp) hcycles

end Flowchart.Graph
