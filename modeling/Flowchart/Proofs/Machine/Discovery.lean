import Flowchart.Proofs.Machine.Registry

/-!
# Functions in records of any order

Blocks are searched for functions in the order of their records. Where no two blocks claim
the same name, each block decides for itself whether it gives a function or a failure, so
another order gives the same functions and failures in another order.
-/

namespace Flowchart

/-- The name under which a record begins a function. -/
def Record.functionName? (r : Record) : Option String :=
  if r.kind = .functionStart ∧ r.functionName ≠ "" then some r.functionName else none

theorem Reordered.functionNames_perm {records records' : List Record}
    (h : Reordered records records') :
    (records.filterMap Record.functionName?).Perm (records'.filterMap Record.functionName?) := by
  have hnames : (records.map Record.functionName?).Perm (records'.map Record.functionName?) :=
    h.map _ fun _ => rfl
  simpa [List.filterMap_map] using hnames.filterMap id

namespace Machine

open Flowchart.Graph

/-! ## Chains under other handles -/

def Function.renamed (σ : Handle → Handle) (f : Function) : Function := ⟨σ f.start, σ f.stop⟩

section Renamed

variable {σ : Handle → Handle} {g g' : Graph} {h : Handle} {i : Nat}

theorem nextOf_renamed (hg : Renamed σ g g') (h : Handle) :
    nextOf g' (σ h) = (nextOf g h).map σ := by
  unfold nextOf
  rcases hg.node?_cases h with ⟨hn, hn'⟩ | ⟨n, n', hn, hn', hrenamed⟩
  · simp [hn, hn']
  · simp [hn, hn', hrenamed.next]

theorem isEnd_renamed (hg : Renamed σ g g') (h : Handle) : IsEnd g' (σ h) ↔ IsEnd g h := by
  unfold IsEnd
  rcases hg.node?_cases h with ⟨hn, hn'⟩ | ⟨n, n', hn, hn', hrenamed⟩
  · simp [hn, hn']
  · simp [hn, hn', hrenamed.kind]

theorem chainAt_renamed (hg : Renamed σ g g') (i : Nat) (h : Handle) :
    chainAt (nextOf g') i (σ h) = (chainAt (nextOf g) i h).map σ := by
  induction i generalizing h with
  | zero => rfl
  | succ i ih =>
    rw [chainAt, chainAt, nextOf_renamed hg]
    cases nextOf g h with
    | none => rfl
    | some x => exact ih x

theorem endsAt_renamed (hg : Renamed σ g g') {stop' : Handle} :
    EndsAt g' (σ h) i stop' ↔ ∃ stop, stop' = σ stop ∧ EndsAt g h i stop := by
  have hfirst : (∀ j < i, ∀ x', chainAt (nextOf g') j (σ h) = some x' → ¬ IsEnd g' x') ↔
      ∀ j < i, ∀ x, chainAt (nextOf g) j h = some x → ¬ IsEnd g x := by
    simp [chainAt_renamed hg, isEnd_renamed hg]
  constructor
  · rintro ⟨hreached, hend, hbefore⟩
    rw [chainAt_renamed hg, Option.map_eq_some_iff] at hreached
    obtain ⟨stop, hreached, rfl⟩ := hreached
    exact ⟨stop, rfl, hreached, (isEnd_renamed hg stop).mp hend, hfirst.mp hbefore⟩
  · rintro ⟨stop, rfl, hreached, hend, hbefore⟩
    refine ⟨?_, (isEnd_renamed hg stop).mpr hend, hfirst.mpr hbefore⟩
    rw [chainAt_renamed hg, hreached]
    rfl

end Renamed

namespace Functions

/-! ## Blocks that decide for themselves -/

/-- Why a block gives no function, whatever the other blocks do. -/
inductive Lacking (g : Graph) (h : Handle) (r : Record) : Error → Prop
  | name (hname : r.functionName = "") : Lacking g h r .functionNameMissing
  | stop (hname : r.functionName ≠ "") (hend : ∀ i stop, ¬ EndsAt g h i stop) :
      Lacking g h r (.functionEndMissing r.functionName)

section Distinct

variable {g : Graph} {records : List Record} {fs : Functions} {h h' stop : Handle} {r r' : Record}
  {name : String}

theorem eq_of_functionName (hnames : (records.filterMap Record.functionName?).Nodup)
    (hr : Begins records h r) (hr' : Begins records h' r') (hname : r.functionName ≠ "")
    (hsame : r'.functionName = r.functionName) : h = h' := by
  have hpair := List.pairwise_iff_getElem.mp (List.pairwise_filterMap.mp hnames)
  obtain ⟨hlt, rfl⟩ := List.getElem?_eq_some_iff.mp hr.record
  obtain ⟨hlt', rfl⟩ := List.getElem?_eq_some_iff.mp hr'.record
  have hsome : records[h].functionName? = some records[h].functionName := by
    simp [Record.functionName?, hr.kind, hname]
  have hsome' : records[h'].functionName? = some records[h].functionName := by
    simp [Record.functionName?, hr'.kind, hsame, hname]
  by_contra hne
  rcases Nat.lt_or_gt_of_ne hne with hbefore | hbefore
  · exact hpair h h' hlt hlt' hbefore _ hsome _ hsome' rfl
  · exact hpair h' h hlt' hlt hbefore _ hsome' _ hsome rfl

theorem Discovered.not_taken (hd : fs.Discovered g records)
    (hnames : (records.filterMap Record.functionName?).Nodup) (hr : Begins records h r)
    (hname : r.functionName ≠ "") : ¬ fs.Taken h r.functionName := by
  rintro ⟨h', hlt, stop, hreg⟩
  obtain ⟨r', hr', hsame⟩ := hd.only h' _ stop hreg
  exact Nat.ne_of_gt hlt (eq_of_functionName hnames hr hr' hname hsame)

theorem Discovered.registered_iff (hd : fs.Discovered g records)
    (hnames : (records.filterMap Record.functionName?).Nodup) :
    fs.Registered h name stop ↔
      ∃ r, Begins records h r ∧ r.functionName = name ∧ name ≠ "" ∧ ∃ i, EndsAt g h i stop := by
  constructor
  · intro hreg
    obtain ⟨r, hr, rfl⟩ := hd.only h name stop hreg
    have hcan := ((hd.settled h r hr).registered_iff stop).mp hreg
    exact ⟨r, hr, rfl, hcan.named, hcan.ended⟩
  · rintro ⟨r, hr, rfl, hname, hend⟩
    exact ((hd.settled h r hr).registered_iff stop).mpr ⟨hname, hend, hd.not_taken hnames hr hname⟩

theorem Discovered.mem_failures_iff (hd : fs.Discovered g records)
    (hnames : (records.filterMap Record.functionName?).Nodup) (f : Failure) :
    f ∈ fs.failures ↔ ∃ h r e, Begins records h r ∧ Lacking g h r e ∧ f = fault r e := by
  constructor
  · intro hf
    have hnode := hd.failures.subset (List.mem_map_of_mem hf)
    obtain ⟨r, hr, hid⟩ := List.mem_map.mp hnode
    rw [List.mem_filter, decide_eq_true_eq] at hr
    obtain ⟨h, hat⟩ := List.mem_iff_getElem?.mp hr.1
    have hbegins : Begins records h r := ⟨hat, hr.2⟩
    have hmem : f ∈ fs.failuresAt r.id := List.mem_filter.mpr ⟨hf, by simpa using hid.symm⟩
    cases hd.settled h r hbegins with
    | registered _ _ _ hsilent => simp [hsilent] at hmem
    | reported e k hwhy _ _ honce =>
      rw [honce, List.mem_singleton] at hmem
      refine ⟨h, r, e, hbegins, ?_, hmem⟩
      cases hwhy with
      | nameless hname => exact .name hname
      | unended hname hend => exact .stop hname fun i stop he => hend i stop he.reached he.isEnd
      | taken hname _ htaken => exact absurd htaken (hd.not_taken hnames hbegins hname)
  · rintro ⟨h, r, e, hbegins, hlacks, rfl⟩
    cases hd.settled h r hbegins with
    | registered stop hcan =>
      obtain ⟨i, he⟩ := hcan.ended
      cases hlacks with
      | name hname => exact absurd hname hcan.named
      | stop _ hend => exact absurd he (hend i stop)
    | reported e' k hwhy _ _ honce =>
      have hmem : fault r e' ∈ fs.failures :=
        (List.mem_filter.mp (honce ▸ List.mem_singleton_self (fault r e'))).1
      cases hlacks with
      | name hname =>
        cases hwhy with
        | nameless => exact hmem
        | unended hnamed => exact absurd hname hnamed
        | taken hnamed => exact absurd hname hnamed
      | stop hnamed hend =>
        cases hwhy with
        | nameless hname => exact absurd hname hnamed
        | unended => exact hmem
        | taken _ hended =>
          obtain ⟨i, stop, he⟩ := hended
          exact absurd he (hend i stop)

theorem Discovered.failures_nodup (hd : fs.Discovered g records) (hb : build records = .ok g) :
    fs.failures.Nodup := by
  have hids := (ids_of_build hb).2
  exact .of_map _ (hd.failures.nodup ((List.filter_sublist.map _).nodup hids))

end Distinct

/-! ## Records in another order -/

/-- The same functions and the same failures, in any order, under other handles. -/
structure Renamed (σ : Handle → Handle) (fs fs' : Functions) : Prop where
  get? : ∀ name, fs'.table.get? name = (fs.table.get? name).map (Function.renamed σ)
  keys : fs.table.keys.Perm fs'.table.keys
  failures : fs.failures.Perm fs'.failures

section Reordered

variable {records records' : List Record} {g g' : Graph} {h : Handle} {r r' : Record}

theorem functionName_eq_of_bare (hbare : r'.bare = r.bare) : r'.functionName = r.functionName := by
  have hdata : r'.data = r.data := congrArg (·.data) hbare
  rw [Record.functionName, Record.functionName, hdata]

theorem fault_eq_of_bare (hbare : r'.bare = r.bare) (e : Error) : fault r' e = fault r e := by
  rw [fault, fault, Record.id_eq_of_bare hbare]

theorem begins_rename (hb : build records = .ok g) (hb' : build records' = .ok g')
    (hsame : Reordered records records') (hr : Begins records h r) :
    ∃ r', Begins records' (rename g g' h) r' ∧ r'.bare = r.bare := by
  obtain ⟨r', hr', hbare⟩ := rename_of_record hb hb' hsame hr.record
  exact ⟨r', ⟨hr', (Record.kind_eq_of_bare hbare).trans hr.kind⟩, hbare⟩

theorem exists_begins (hb : build records = .ok g) (hb' : build records' = .ok g')
    (hsame : Reordered records records') {h' : Handle} (hr' : Begins records' h' r') :
    ∃ h r, Begins records h r ∧ h' = rename g g' h ∧ r'.bare = r.bare := by
  obtain ⟨h, r, hr, hbare⟩ := hsame.symm.counterpart hr'.record
  have hbegins : Begins records h r := ⟨hr, (Record.kind_eq_of_bare hbare).trans hr'.kind⟩
  obtain ⟨r'', hr'', hbare''⟩ := begins_rename hb hb' hsame hbegins
  -- A second record with the id of `r'` can only stand in the same place.
  have hid : r''.id = r'.id := Record.id_eq_of_bare (hbare''.trans hbare)
  have hat := (lookup_iff_of_build hb').mpr ⟨r', hr'.record, rfl⟩
  have hat' := (lookup_iff_of_build hb').mpr ⟨r'', hr''.record, hid⟩
  exact ⟨h, r, hbegins, Option.some.inj (hat.symm.trans hat'), hbare.symm⟩

theorem Lacking.rename (hg : Graph.Renamed (rename g g') g g') (hbare : r'.bare = r.bare)
    {e : Error} :
    Lacking g' (Graph.rename g g' h) r' e ↔ Lacking g h r e := by
  have hname := functionName_eq_of_bare hbare
  have hend : (∀ i stop, ¬ EndsAt g' (Graph.rename g g' h) i stop) ↔
      ∀ i stop, ¬ EndsAt g h i stop := by
    simp only [endsAt_renamed hg]
    exact ⟨fun hnone i last he => hnone i _ ⟨last, rfl, he⟩,
      fun hnone i _ ⟨last, _, he⟩ => hnone i last he⟩
  constructor
  · rintro (hnameless | ⟨hnamed, hnone⟩)
    · exact .name (hname ▸ hnameless)
    · rw [hname] at hnamed ⊢
      exact .stop hnamed (hend.mp hnone)
  · rintro (hnameless | ⟨hnamed, hnone⟩)
    · exact .name (hname.trans hnameless)
    · rw [← hname] at hnamed ⊢
      exact .stop hnamed (hend.mpr hnone)

theorem renamed_of_reordered (hsame : Reordered records records') (hb : build records = .ok g)
    (hb' : build records' = .ok g') (hnames : (records.filterMap Record.functionName?).Nodup) :
    ∃ fs fs', ofGraph g = .ok fs ∧ ofGraph g' = .ok fs' ∧ fs.Renamed (rename g g') fs' := by
  obtain ⟨fs, hfs, hd⟩ := discovered_of_build hb
  obtain ⟨fs', hfs', hd'⟩ := discovered_of_build hb'
  have hg := Graph.renamed_of_reordered hb hb' hsame
  have hnames' : (records'.filterMap Record.functionName?).Nodup :=
    hsame.functionNames_perm.nodup_iff.mp hnames
  have hget : ∀ name, fs'.table.get? name =
      (fs.table.get? name).map (Function.renamed (rename g g')) := by
    intro name
    apply Option.ext
    rintro ⟨h', stop'⟩
    rw [Option.map_eq_some_iff]
    constructor
    · intro hreg'
      obtain ⟨r', hr', rfl, hname, i, he'⟩ := (hd'.registered_iff hnames').mp hreg'
      obtain ⟨h, r, hr, rfl, hbare⟩ := exists_begins hb hb' hsame hr'
      obtain ⟨stop, rfl, he⟩ := (endsAt_renamed hg).mp he'
      have hreg :=
        (hd.registered_iff hnames).mpr ⟨r, hr, (functionName_eq_of_bare hbare).symm, hname, i, he⟩
      exact ⟨⟨h, stop⟩, hreg, rfl⟩
    · rintro ⟨⟨h, stop⟩, hreg, hf⟩
      cases hf
      obtain ⟨r, hr, rfl, hname, i, he⟩ := (hd.registered_iff hnames).mp hreg
      obtain ⟨r', hr', hbare⟩ := begins_rename hb hb' hsame hr
      exact (hd'.registered_iff hnames').mpr
        ⟨r', hr', functionName_eq_of_bare hbare, hname, i, (endsAt_renamed hg).mpr ⟨stop, rfl, he⟩⟩
  refine ⟨fs, fs', hfs, hfs', hget, ?_, ?_⟩
  · rw [List.perm_ext_iff_of_nodup hd.distinct hd'.distinct]
    intro name
    rw [← Table.contains_iff, ← Table.contains_iff, Table.contains, Table.contains, hget,
      Option.isSome_map]
  · rw [List.perm_ext_iff_of_nodup (hd.failures_nodup hb) (hd'.failures_nodup hb')]
    intro f
    rw [hd.mem_failures_iff hnames, hd'.mem_failures_iff hnames']
    constructor
    · rintro ⟨h, r, e, hr, hlacks, rfl⟩
      obtain ⟨r', hr', hbare⟩ := begins_rename hb hb' hsame hr
      exact ⟨_, r', e, hr', (Lacking.rename hg hbare).mpr hlacks, (fault_eq_of_bare hbare e).symm⟩
    · rintro ⟨h', r', e, hr', hlacks, rfl⟩
      obtain ⟨h, r, hr, rfl, hbare⟩ := exists_begins hb hb' hsame hr'
      exact ⟨h, r, e, hr, (Lacking.rename hg hbare).mp hlacks, fault_eq_of_bare hbare e⟩

end Reordered

end Functions

end Machine

end Flowchart
