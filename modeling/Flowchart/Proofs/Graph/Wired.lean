import Flowchart.Proofs.Graph.Validity

/-!
# What passes validation

Records whose ids, links and inputs are in order are reported for two reasons only: there
is no start block, or inputs form a cycle.
-/

namespace Flowchart.Graph

/-! ## Ids and start blocks -/

theorem census_passes {records : List Record} (i : Nat) {c : Census} (hclean : c.problems = [])
    (hnamed : ∀ r ∈ records, r.id ≠ "") (hfresh : ∀ r ∈ records, r.id ∉ c.index.keys)
    (hdistinct : (records.map (·.id)).Nodup) (hstart : c.starts + records.countP (·.isStart) ≤ 1) :
    (census i c records).problems = [] := by
  induction records generalizing i c with
  | nil => exact hclean
  | cons r rest ih =>
    simp only [List.forall_mem_cons, List.map_cons, List.nodup_cons] at hnamed hfresh hdistinct
    have hcontains : ¬ c.index.contains r.id := by
      rw [Table.contains_iff]
      exact hfresh.1
    have hfresh' : ∀ r' ∈ rest, r'.id ∉ (c.index.put r.id r).keys := by
      intro r' hr' hmem
      rw [Table.keys_put, if_neg hcontains, List.mem_append, List.mem_singleton] at hmem
      rcases hmem with hmem | hmem
      · exact hfresh.2 r' hr' hmem
      · exact hdistinct.1 (hmem ▸ List.mem_map_of_mem hr')
    rw [List.countP_cons] at hstart
    simp only [census, hnamed.1, hcontains, if_false]
    by_cases hr : r.isStart
    · simp only [hr, if_true] at hstart ⊢
      have hfirst : ¬ 0 < c.starts := by omega
      simp only [hfirst, if_false]
      exact ih (i + 1) hclean hnamed.2 hfresh' hdistinct.2 (by simp only; omega)
    · simp only [hr] at hstart ⊢
      exact ih (i + 1) hclean hnamed.2 hfresh' hdistinct.2 (by simpa using hstart)

/-! ## Links -/

theorem checkLink_passes {index : Table Record} {r : Record} {incoming : Table Nat} {p : Port}
    {seen : List String} (hm : Marks incoming seen) (hne : r.link p ≠ "")
    (hgood : GoodLink index r p) (hnew : r.link p ∉ seen) :
    (checkLink index r incoming p).1 = [] ∧
      Marks (checkLink index r incoming p).2 (seen ++ [r.link p]) := by
  have hport : ¬ (p ≠ .next ∧ r.kind.isBranching = false) := by
    rintro ⟨hp, hkind⟩
    rcases hgood.port with h | h
    · exact hp h
    · simp [hkind] at h
  have hnone : incoming.get? (r.link p) = none := by
    rw [hm, if_neg hnew]
  have hput := hm.put (r.link p)
  simp [checkLink, hne, hgood.other, hgood.leads, hport, hnone, hput]

theorem checkLinks_passes {index : Table Record} {r : Record} {incoming : Table Nat}
    {ports : List Port} {seen : List String} (hm : Marks incoming seen)
    (hgood : ∀ p ∈ ports, r.link p ≠ "" → GoodLink index r p)
    (hnodup : (seen ++ linkTargets r ports).Nodup) :
    (checkLinks index r incoming ports).1 = [] ∧
      Marks (checkLinks index r incoming ports).2 (seen ++ linkTargets r ports) := by
  induction ports generalizing incoming seen with
  | nil => simpa [checkLinks, linkTargets] using hm
  | cons p rest ih =>
    rw [List.forall_mem_cons] at hgood
    simp only [checkLinks, List.append_eq_nil_iff]
    by_cases hempty : r.link p = ""
    · have htargets : linkTargets r (p :: rest) = linkTargets r rest := by
        simp [linkTargets, hempty]
      have hsame : checkLink index r incoming p = ([], incoming) := by simp [checkLink, hempty]
      rw [htargets] at hnodup ⊢
      rw [hsame]
      exact ⟨⟨rfl, (ih hm hgood.2 hnodup).1⟩, (ih hm hgood.2 hnodup).2⟩
    · have htargets : seen ++ linkTargets r (p :: rest) =
          seen ++ [r.link p] ++ linkTargets r rest := by
        simp [linkTargets, hempty]
      rw [htargets] at hnodup ⊢
      have hnew : r.link p ∉ seen := by
        have hfirst := (List.nodup_append.mp (List.nodup_append.mp hnodup).1).2.2
        exact fun hmem => hfirst _ hmem _ (List.mem_singleton_self _) rfl
      obtain ⟨hclean, hmarks⟩ := checkLink_passes hm hempty (hgood.1 hempty) hnew
      obtain ⟨hrest, hmarks'⟩ := ih hmarks hgood.2 hnodup
      exact ⟨⟨hclean, hrest⟩, hmarks'⟩

/-! ## Records -/

theorem checkInput_passes {index : Table Record} {r r' : Record} {s : Slot}
    (haccepts : r.kind.accepts s) (hbound : index.get? (r.input s) = some r')
    (hproducer : r'.kind.isProducer) : checkInput index r s = [] := by
  simp [checkInput, haccepts, hbound, hproducer]

theorem checkRecords_passes {index : Table Record} {incoming : Table Nat} {records : List Record}
    {seen : List String} (hnamed : ∀ r ∈ records, r.id ≠ "") (hm : Marks incoming seen)
    (hchecked : ∀ r ∈ records, Checked index r)
    (hnodup : (seen ++ records.flatMap (linkTargets · Port.outgoing)).Nodup) :
    checkRecords index incoming records = [] := by
  induction records generalizing incoming seen with
  | nil => rfl
  | cons r rest ih =>
    rw [List.forall_mem_cons] at hnamed hchecked
    rw [List.flatMap_cons, ← List.append_assoc] at hnodup
    have hr := hchecked.1
    obtain ⟨hlinks, hmarks⟩ := checkLinks_passes hm hr.links (List.nodup_append.mp hnodup).1
    have htype : (BlockKind.ofTag? r.type).isNone = false := by
      simpa [Option.isSome_iff_ne_none] using hr.known
    have hinputs : Slot.all.flatMap (checkInput index r) = [] := by
      rw [List.flatMap_eq_nil_iff]
      intro s hs
      by_cases hbound : r.input s = ""
      · simp [checkInput, hbound]
      · obtain ⟨haccepts, r', hr', hproducer⟩ := hr.inputs s hs hbound
        exact checkInput_passes haccepts hr' hproducer
    simp only [checkRecords, hnamed.1, htype, hlinks, hinputs, ih hnamed.2 hmarks hchecked.2 hnodup]
    rfl

/-! ## All problems -/

def startProblem : Failure := { cause := .graph .startMissing }

def cycleProblem (id : String) : Failure := { cause := .graph .inputCycle, node := id }

theorem problems_of_wired {records : List Record} (h : Wired records) :
    ∃ ids : List String,
      problems records = (if records.any (·.isStart) then [] else [startProblem]) ++
      ids.map cycleProblem := by
  have hcensus : (census 0 ⟨.empty, 0, []⟩ records).problems = [] :=
    census_passes 0 rfl h.named (by simp [Table.keys, Table.empty]) h.distinct
      (by simpa using h.start)
  have hcounted := census_counted 0 ⟨.empty, 0, []⟩ hcensus
  unfold problems
  generalize census 0 ⟨.empty, 0, []⟩ records = c at *
  have hindex (id : String) (r : Record) : c.index.get? id = some r ↔ r ∈ records ∧ r.id = id := by
    simp [hcounted.index]
  have hchecked : ∀ r ∈ records, Checked c.index r := by
    intro r hr
    refine ⟨h.known r hr, ?_, ?_⟩
    · intro p hp hne
      obtain ⟨hother, ⟨r', hr', hid⟩, hport⟩ := h.links r hr p hp hne
      refine ⟨hother, ?_, hport⟩
      rw [Table.contains, (hindex _ r').mpr ⟨hr', hid⟩]
      rfl
    · intro s hs hne
      obtain ⟨haccepts, r', hr', hid, hproducer⟩ := h.inputs r hr s hs hne
      exact ⟨haccepts, r', (hindex _ r').mpr ⟨hr', hid⟩, hproducer⟩
  have hunmarked : Marks .empty [] := by simp [Marks]
  have hrecords : checkRecords c.index .empty records = [] :=
    checkRecords_passes h.named hunmarked hchecked h.incoming
  have hstarts : c.starts = records.countP (·.isStart) := by simp [hcounted.starts]
  have hzero : c.starts = 0 ↔ ¬ records.any (·.isStart) := by
    rw [hstarts, List.countP_eq_zero]
    simp
  refine ⟨inputCycles c.index records, ?_⟩
  simp only [hcensus, hrecords]
  by_cases hany : records.any (·.isStart)
  · have hsome : c.starts ≠ 0 := fun hz => hzero.mp hz hany
    simp [hsome, hany, cycleProblem]
  · simp [hzero.mpr hany, hany, startProblem, cycleProblem]

end Flowchart.Graph
