import Flowchart.Proofs.Machine.Ends

/-!
# Functions that were found

Looking for functions never crashes in a graph whose links lead to blocks. A function that
was found starts at a block that begins one, and every failure names such a block.
-/

namespace Flowchart.Machine

open Flowchart.Graph

namespace Functions

variable {g : Graph} {fs fs' : Functions} {h : Handle} {n : Node}

/-! ## One block -/

/-- What taking a block into account comes to. -/
inductive Accounted (g : Graph) (fs : Functions) (h : Handle) (n : Node) : Functions → Prop
  | other (hkind : n.kind ≠ .functionStart) : Accounted g fs h n fs
  | nameless (hkind : n.kind = .functionStart) (hfields : n.fields = .function "") :
      Accounted g fs h n (fs.report n .functionNameMissing)
  | unended {name : String} (hkind : n.kind = .functionStart) (hfields : n.fields = .function name)
      (hname : name ≠ "") (hend : endOf g h = .ok none) :
      Accounted g fs h n (fs.report n (.functionEndMissing name))
  | taken {name : String} {stop : Handle} (hkind : n.kind = .functionStart)
      (hfields : n.fields = .function name) (hname : name ≠ "") (hend : endOf g h = .ok (some stop))
      (htaken : fs.table.contains name) :
      Accounted g fs h n (fs.report n (.functionExists name))
  | registered {name : String} {stop : Handle} (hkind : n.kind = .functionStart)
      (hfields : n.fields = .function name) (hname : name ≠ "") (hend : endOf g h = .ok (some stop))
      (hnew : ¬ fs.table.contains name) :
      Accounted g fs h n { fs with table := fs.table.put name ⟨h, stop⟩ }

theorem accounted_of_discover (hd : fs.discover g h n = .ok fs') : Accounted g fs h n fs' := by
  unfold discover at hd
  by_cases hkind : n.kind = .functionStart
  · simp only [hkind, ne_eq, not_true_eq_false, if_false] at hd
    split at hd
    · rename_i name hfields
      by_cases hname : name = ""
      · rw [if_pos hname] at hd
        cases hd
        exact .nameless hkind (hname ▸ hfields)
      · rw [if_neg hname] at hd
        obtain ⟨stop, hend, hd⟩ := bind_eq_ok hd
        cases stop with
        | none =>
          cases hd
          exact .unended hkind hfields hname hend
        | some stop =>
          simp only at hd
          split_ifs at hd with htaken
          · cases hd
            exact .taken hkind hfields hname hend htaken
          · cases hd
            exact .registered hkind hfields hname hend htaken
    · cases hd
  · simp only [hkind, ne_eq, not_false_eq_true, if_true] at hd
    cases hd
    exact .other hkind

theorem discover_ok (hg : g.Linked) (fs : Functions) (hn : g.node h = .ok n) :
    ∃ fs', fs.discover g h n = .ok fs' := by
  unfold discover
  split_ifs with hkind
  · exact ⟨_, rfl⟩
  · obtain ⟨data, hfields⟩ := hg.fields h n hn
    obtain ⟨stop, hend, -⟩ := endOf_ok hg (lt_size_of_node hn)
    simp only [hfields, not_not.mp hkind, Fields.of, hend, bind, Except.bind]
    by_cases hname : Text.trim data.functionName = ""
    · rw [if_pos hname]
      exact ⟨_, rfl⟩
    · rw [if_neg hname]
      cases stop with
      | none => exact ⟨_, rfl⟩
      | some stop =>
        simp only
        split_ifs <;> exact ⟨_, rfl⟩

end Functions

/-! ## What is found -/

/-- The errors that a block which begins a function may be reported with. -/
inductive Reported : Error → Prop
  | functionNameMissing : Reported .functionNameMissing
  | functionEndMissing (name : String) : Reported (.functionEndMissing name)
  | functionExists (name : String) : Reported (.functionExists name)

structure Functions.Found (g : Graph) (fs : Functions) : Prop where
  table : ∀ name f, fs.table.get? name = some f →
    (∃ n, g.node f.start = .ok n ∧ n.kind = .functionStart) ∧ f.stop < g.size
  failures : ∀ f ∈ fs.failures, ∃ h n e, g.node h = .ok n ∧ n.kind = .functionStart ∧ Reported e ∧
    f = { cause := .run e, node := n.id }

namespace Functions

variable {g : Graph} {fs fs' : Functions} {h : Handle} {n : Node}

theorem Found.report (hfs : fs.Found g) (hn : g.node h = .ok n) (hkind : n.kind = .functionStart)
    {e : Error} (he : Reported e) : (fs.report n e).Found g where
  table := hfs.table
  failures := by
    intro f hf
    rcases List.mem_append.mp hf with hf | hf
    · exact hfs.failures f hf
    · exact ⟨h, n, e, hn, hkind, he, List.mem_singleton.mp hf⟩

theorem Found.put (hfs : fs.Found g) (hn : g.node h = .ok n) (hkind : n.kind = .functionStart)
    (name : String) {stop : Handle} (hstop : stop < g.size) :
    Found g { fs with table := fs.table.put name ⟨h, stop⟩ } where
  table := by
    intro name' f hf
    rw [Table.get?_put] at hf
    split_ifs at hf
    · cases hf
      exact ⟨⟨n, hn, hkind⟩, hstop⟩
    · exact hfs.table name' f hf
  failures := hfs.failures

theorem discover_found (hg : g.Linked) (hfs : fs.Found g) (hn : g.node h = .ok n) :
    ∃ fs', fs.discover g h n = .ok fs' ∧ fs'.Found g := by
  obtain ⟨fs', hd⟩ := discover_ok hg fs hn
  refine ⟨fs', hd, ?_⟩
  cases accounted_of_discover hd with
  | other hkind => exact hfs
  | nameless hkind => exact hfs.report hn hkind .functionNameMissing
  | unended hkind => exact hfs.report hn hkind (.functionEndMissing _)
  | taken hkind => exact hfs.report hn hkind (.functionExists _)
  | @registered name stop hkind _ _ hend =>
    cases outcome_of_endOf hg (lt_size_of_node hn) hend with
    | ended he => exact hfs.put hn hkind name he.lt_size

theorem discoverFrom_found (hg : g.Linked) (hfs : fs.Found g) {nodes : List Node}
    (hnodes : ∀ i n, nodes[i]? = some n → g.node (h + i) = .ok n) :
    ∃ fs', discoverFrom g fs h nodes = .ok fs' ∧ fs'.Found g := by
  induction nodes generalizing fs h with
  | nil => exact ⟨fs, rfl, hfs⟩
  | cons n rest ih =>
    obtain ⟨fs', hdiscover, hfs'⟩ := discover_found hg hfs (hnodes 0 n rfl)
    have hrest : ∀ i m, rest[i]? = some m → g.node (h + 1 + i) = .ok m := by
      intro i m hm
      have hnode := hnodes (i + 1) m (by simpa using hm)
      rwa [Nat.add_assoc, Nat.add_comm 1 i]
    obtain ⟨fs'', hfrom, hfs''⟩ := ih hfs' hrest
    rw [Nat.add_zero] at hdiscover
    exact ⟨fs'', by simp [discoverFrom, hdiscover, bind, Except.bind, hfrom], hfs''⟩

theorem ofGraph_found (hg : g.Linked) : ∃ fs, ofGraph g = .ok fs ∧ fs.Found g := by
  refine discoverFrom_found hg ⟨by simp, by simp⟩ ?_
  intro i n hn
  rw [Nat.zero_add, node_eq_ok_iff]
  simpa using hn

end Functions

end Flowchart.Machine
