import Flowchart.Proofs.Graph.Wired

/-!
# Validation is exact

Records have no problem exactly if they are valid. Whatever else is wrong with them, a cycle of
inputs is reported exactly if there is one, where an id stands for the first record that
carries it.
-/

namespace Flowchart.Graph

open Relation

/-! ## The first record of an id -/

def first? (records : List Record) (id : String) : Option Record :=
  if id = "" then none else records.find? (·.id = id)

theorem first?_eq_some {records : List Record} {id : String} {r : Record}
    (h : first? records id = some r) :
    r ∈ records ∧ r.id = id := by
  unfold first? at h
  split_ifs at h
  exact ⟨List.mem_of_find?_eq_some h, by simpa using List.find?_some h⟩

theorem first?_cons (r : Record) (records : List Record) (id : String) :
    first? (r :: records) id = if r.id ≠ "" ∧ r.id = id then some r else first? records id := by
  unfold first?
  rw [List.find?_cons]
  by_cases hid : r.id = id
  · by_cases hempty : id = "" <;> simp [hid, hempty]
  · simp [hid]

theorem get?_census (records : List Record) (i : Nat) (c : Census) (id : String) :
    (census i c records).index.get? id = (c.index.get? id).or (first? records id) := by
  induction records generalizing i c with
  | nil => simp [census, first?]
  | cons r rest ih =>
    rw [first?_cons]
    by_cases hempty : r.id = ""
    · rw [census, if_pos hempty, ih]
      simp [hempty]
    by_cases hknown : c.index.contains r.id
    · rw [census, if_neg hempty, if_pos hknown, ih]
      split_ifs with hid
      · -- The record found before it hides this one.
        obtain ⟨x, hx⟩ := Option.isSome_iff_exists.mp hknown
        simp [← hid.2, hx]
      · rfl
    have hput : ((c.index.put r.id r).get? id).or (first? rest id) =
        (c.index.get? id).or (if r.id ≠ "" ∧ r.id = id then some r else first? rest id) := by
      rw [Table.get?_put]
      by_cases hid : r.id = id
      · have hnone : c.index.get? id = none := by simpa [Table.contains, hid] using hknown
        rw [if_pos hid, if_pos ⟨hempty, hid⟩, hnone]
        rfl
      · rw [if_neg hid, if_neg fun h => hid h.2]
    rw [census, if_neg hempty, if_neg hknown, ← hput]
    split_ifs <;> rw [ih]

theorem get?_index (records : List Record) :
    (census 0 ⟨.empty, 0, []⟩ records).index.get? = first? records := by
  funext id
  simp [get?_census]

theorem mem_of_index {records : List Record} (id : String) (r : Record)
    (h : (census 0 ⟨.empty, 0, []⟩ records).index.get? id = some r) : r ∈ records ∧ r.id = id := by
  rw [get?_index] at h
  exact first?_eq_some h

/-! ## Other problems -/

theorem cause_census (records : List Record) (i : Nat) (c : Census) :
    ∀ f ∈ (census i c records).problems, f ∈ c.problems ∨ f.cause ≠ .graph .inputCycle := by
  induction records generalizing i c with
  | nil => exact fun f hf => Or.inl hf
  | cons r rest ih =>
    intro f hf
    unfold census at hf
    split_ifs at hf <;> have hcases := ih _ _ f hf <;> simp only [List.mem_cons] at hcases
    all_goals grind

theorem cause_checkLink (index : Table Record) (r : Record) (incoming : Table Nat) (p : Port) :
    ∀ f ∈ (checkLink index r incoming p).1, f.cause ≠ .graph .inputCycle := by
  intro f hf
  unfold checkLink at hf
  grind

theorem cause_checkLinks (index : Table Record) (r : Record) (incoming : Table Nat)
    (ports : List Port) :
    ∀ f ∈ (checkLinks index r incoming ports).1, f.cause ≠ .graph .inputCycle := by
  induction ports generalizing incoming with
  | nil => simp [checkLinks]
  | cons p rest ih =>
    simp only [checkLinks, List.forall_mem_append]
    exact ⟨cause_checkLink index r incoming p, ih _⟩

theorem cause_checkInput (index : Table Record) (r : Record) (s : Slot) :
    ∀ f ∈ checkInput index r s, f.cause ≠ .graph .inputCycle := by
  intro f hf
  unfold checkInput at hf
  grind

theorem cause_checkRecords (index : Table Record) (incoming : Table Nat) (records : List Record) :
    ∀ f ∈ checkRecords index incoming records, f.cause ≠ .graph .inputCycle := by
  induction records generalizing incoming with
  | nil => simp [checkRecords]
  | cons r rest ih =>
    by_cases hempty : r.id = ""
    · rw [checkRecords, if_pos hempty]
      exact ih incoming
    · simp only [checkRecords, hempty, if_false, List.forall_mem_append, List.forall_mem_flatMap]
      refine ⟨⟨⟨?_, cause_checkLinks index r incoming _⟩, fun s _ => cause_checkInput index r s⟩,
        ih _⟩
      grind

theorem filter_problems (records : List Record) :
    (problems records).filter (·.cause = .graph .inputCycle) =
      (inputCycles (census 0 ⟨.empty, 0, []⟩ records).index records).map cycleProblem := by
  have hcensus := cause_census records 0 ⟨.empty, 0, []⟩
  unfold problems
  generalize census 0 ⟨.empty, 0, []⟩ records = c at *
  have hclean : c.problems.reverse.filter (·.cause = .graph .inputCycle) = [] := by
    rw [List.filter_eq_nil_iff]
    intro f hf
    simpa using hcensus f (List.mem_reverse.mp hf)
  have hchecked : (checkRecords c.index .empty records).filter (·.cause = .graph .inputCycle) =
      [] := by
    rw [List.filter_eq_nil_iff]
    intro f hf
    simpa using cause_checkRecords c.index .empty records f hf
  have hstart :
      (if c.starts = 0 then [startProblem] else []).filter (·.cause = .graph .inputCycle) = [] := by
    split_ifs <;> simp [startProblem]
  have hcycles (ids : List String) :
      (ids.map cycleProblem).filter (·.cause = .graph .inputCycle) = ids.map cycleProblem := by
    simp [List.filter_eq_self, cycleProblem]
  simp only [List.filter_append]
  rw [hclean, hchecked, List.append_nil]
  exact congrArg₂ (· ++ ·) hstart (hcycles _)

/-! ## Both directions -/

theorem cycle_of_problem {records : List Record} {f : Failure} (hf : f ∈ problems records)
    (hcause : f.cause = .graph .inputCycle) :
    TransGen (BoundTo (first? records)) f.node f.node := by
  have hmem : f ∈ (problems records).filter (·.cause = .graph .inputCycle) := by simp [hf, hcause]
  rw [filter_problems] at hmem
  obtain ⟨id, hid, rfl⟩ := List.mem_map.mp hmem
  rw [← get?_index]
  exact cycle_of_inputCycles mem_of_index hid

theorem feeds_of_boundTo {records : List Record} {id id' : String}
    (h : BoundTo (first? records) id id') :
    Feeds records id id' := by
  obtain ⟨r, hr, hbound⟩ := h
  obtain ⟨hmem, hid⟩ := first?_eq_some hr
  exact ⟨r, hmem, hid, hbound⟩

theorem problems_of_valid {records : List Record} (h : Valid records) : problems records = [] := by
  obtain ⟨ids, hproblems⟩ := problems_of_wired h.toWired
  cases ids with
  | nil => simpa [h.started] using hproblems
  | cons id rest =>
    -- A cycle that is reported exists, and valid records have none.
    have hmem : cycleProblem id ∈ problems records := by simp [hproblems]
    have hcycle := cycle_of_problem hmem rfl
    exact absurd (TransGen.mono (fun _ _ => feeds_of_boundTo) _ _ hcycle) (h.acyclic id)

/-- Records have no problem exactly if they are valid. The search for cycles comes to an end on
all records, and reports a cycle exactly if there is one. -/
theorem validation_is_exact (records : List Record) :
    (problems records = [] ↔ Valid records) ∧
    (∃ st, (∀ st', Searches (first? records) (records.map (·.id)) ⟨[], [], []⟩ st' ↔ st' = st) ∧
      (problems records).filter (·.cause = .graph .inputCycle) =
        st.cycles.reverse.map cycleProblem) ∧
    ((∃ f ∈ problems records, f.cause = .graph .inputCycle) ↔
      ∃ id, TransGen (BoundTo (first? records)) id id) ∧
    ∀ f ∈ problems records, f.cause = .graph .inputCycle →
      TransGen (BoundTo (first? records)) f.node f.node := by
  obtain ⟨st, hsearch, hcycles⟩ := inputCycles_searches (@mem_of_index records)
  have hfilter := filter_problems records
  rw [get?_index] at hsearch
  refine ⟨⟨valid_of_problems, problems_of_valid⟩, ⟨st, fun st' => ?_, by rw [hfilter, hcycles]⟩, ?_,
    fun f => cycle_of_problem⟩
  · exact ⟨fun h => h.unique hsearch, fun h => h ▸ hsearch⟩
  · constructor
    · rintro ⟨f, hf, hcause⟩
      exact ⟨f.node, cycle_of_problem hf hcause⟩
    · rintro ⟨id, hcycle⟩
      by_contra hnone
      have hclean : (problems records).filter (·.cause = .graph .inputCycle) = [] := by
        rw [List.filter_eq_nil_iff]
        exact fun f hf hcause => hnone ⟨f, hf, by simpa using hcause⟩
      rw [hfilter, List.map_eq_nil_iff] at hclean
      rw [← get?_index] at hcycle
      exact acyclic_of_inputCycles mem_of_index hclean id hcycle

/-- Two blocks take their values from each other. -/
def mutualInputs : List Record :=
  [{ id := "s", type := "start" },
    { id := "a", type := "arrayElement", inputs := ⟨"", "", "", "b"⟩ },
    { id := "b", type := "arrayElement", inputs := ⟨"", "", "", "a"⟩ }]

theorem validation_is_exact_mutualInputs :
    problems mutualInputs = [cycleProblem "a"] ∧ ¬ Valid mutualInputs ∧
      TransGen (BoundTo (first? mutualInputs)) "a" "a" := by
  have hproblems : problems mutualInputs = [cycleProblem "a"] := by decide +kernel
  obtain ⟨hvalid, -, -, hcycle⟩ := validation_is_exact mutualInputs
  rw [hproblems] at hvalid hcycle
  exact ⟨hproblems, fun h => List.cons_ne_nil _ _ (hvalid.mpr h),
    hcycle (cycleProblem "a") (by simp) rfl⟩

end Flowchart.Graph
