import Flowchart.Proofs.Graph.Renaming
import Flowchart.Proofs.Machine.Functions

/-!
# Which functions are found

Every block that begins a function is either registered under its name or reported once, and
what decides is said without the search: whether the block has a name, whether its chain of next
links comes to an end block, and whether the name was taken before.
-/

namespace Flowchart

/-- The name of the function that a record would begin. -/
def Record.functionName (r : Record) : String := Text.trim r.data.functionName

namespace Machine

open Flowchart.Graph

/-! ## What becomes of a block -/

/-- The record at `h` begins a function. -/
structure Begins (records : List Record) (h : Handle) (r : Record) : Prop where
  record : records[h]? = some r
  kind : r.kind = .functionStart

namespace Functions

def Registered (fs : Functions) (h : Handle) (name : String) (stop : Handle) : Prop :=
  fs.table.get? name = some ⟨h, stop⟩

/-- A function that begins before `h` has the name. -/
def Taken (fs : Functions) (h : Handle) (name : String) : Prop :=
  ∃ h' < h, ∃ stop, fs.Registered h' name stop

/-- What a block that begins a function is reported with. -/
def fault (r : Record) (e : Error) : Failure := { cause := .run e, node := r.id }

def failuresAt (fs : Functions) (id : String) : List Failure := fs.failures.filter (·.node = id)

structure Registrable (g : Graph) (fs : Functions) (h : Handle) (r : Record)
    (stop : Handle) : Prop where
  named : r.functionName ≠ ""
  ended : ∃ i, EndsAt g h i stop
  free : ¬ fs.Taken h r.functionName

/-- Why a block that begins a function gives none, and which failure says so. -/
inductive Rejected (g : Graph) (fs : Functions) (h : Handle) (r : Record) :
    Error → FailureKind → Prop
  | nameless (hname : r.functionName = "") : Rejected g fs h r .functionNameMissing .declaration
  | unended (hname : r.functionName ≠ "")
      (hend : ∀ i x, chainAt (nextOf g) i h = some x → ¬ IsEnd g x)
      (hchain : (∃ i, chainAt (nextOf g) i h = none) ∨ Circles (nextOf g) h) :
      Rejected g fs h r (.functionEndMissing r.functionName) .linkage
  | taken (hname : r.functionName ≠ "") (hend : ∃ i stop, EndsAt g h i stop)
      (htaken : fs.Taken h r.functionName) :
      Rejected g fs h r (.functionExists r.functionName) .declaration

/-- A block that begins a function is registered and not reported, or reported once and not
registered. -/
inductive Settled (g : Graph) (fs : Functions) (h : Handle) (r : Record) : Prop
  | registered (stop : Handle) (hcan : Registrable g fs h r stop)
      (hreg : fs.Registered h r.functionName stop) (hsilent : fs.failuresAt r.id = [])
  | reported (e : Error) (k : FailureKind) (hwhy : Rejected g fs h r e k)
      (hnone : ∀ name stop, ¬ fs.Registered h name stop) (hkind : (fault r e).kind = k)
      (honce : fs.failuresAt r.id = [fault r e])

/-- What is known once the blocks of `records`, the first ones of the graph, are accounted for. -/
structure Discovered (g : Graph) (records : List Record) (fs : Functions) : Prop where
  distinct : fs.table.Distinct
  settled : ∀ h r, Begins records h r → Settled g fs h r
  only : ∀ h name stop, fs.Registered h name stop → ∃ r, Begins records h r ∧ r.functionName = name
  failures :
    (fs.failures.map (·.node)).Sublist ((records.filter (·.kind = .functionStart)).map (·.id))
  names : fs.table.keys.Sublist ((records.filter (·.kind = .functionStart)).map (·.functionName))

section Settled

variable {g : Graph} {fs fs' : Functions} {h x : Handle} {r : Record} {e : Error} {k : FailureKind}

theorem Rejected.kind (hwhy : Rejected g fs h r e k) : e.kind = k := by cases hwhy <;> rfl

theorem Rejected.not_registrable (hwhy : Rejected g fs h r e k) {stop : Handle} :
    ¬ Registrable g fs h r stop := by
  rintro ⟨hnamed, ⟨i, hend⟩, hfree⟩
  cases hwhy with
  | nameless hname => exact hnamed hname
  | unended _ hnone => exact hnone i stop hend.reached hend.isEnd
  | taken _ _ htaken => exact hfree htaken

theorem Settled.registered_iff (hs : Settled g fs h r) (stop : Handle) :
    fs.Registered h r.functionName stop ↔ Registrable g fs h r stop := by
  cases hs with
  | registered stop' hcan hreg =>
    constructor
    · intro hreg'
      obtain rfl : stop' = stop := by simpa using hreg.symm.trans hreg'
      exact hcan
    · intro hcan'
      obtain ⟨i, hend⟩ := hcan.ended
      obtain ⟨j, hend'⟩ := hcan'.ended
      exact hend.unique hend' ▸ hreg
  | reported e k hwhy hnone =>
    exact ⟨fun hreg => absurd hreg (hnone _ stop), fun hcan => absurd hcan hwhy.not_registrable⟩

theorem taken_congr
    (hsame : ∀ y < x, ∀ name stop, fs'.Registered y name stop ↔ fs.Registered y name stop)
    (hh : h ≤ x) (name : String) : fs'.Taken h name ↔ fs.Taken h name := by
  constructor
  · rintro ⟨y, hy, stop, hreg⟩
    exact ⟨y, hy, stop, (hsame y (Nat.lt_of_lt_of_le hy hh) name stop).mp hreg⟩
  · rintro ⟨y, hy, stop, hreg⟩
    exact ⟨y, hy, stop, (hsame y (Nat.lt_of_lt_of_le hy hh) name stop).mpr hreg⟩

theorem Rejected.congr (hwhy : Rejected g fs h r e k)
    (htaken : fs'.Taken h r.functionName ↔ fs.Taken h r.functionName) :
    Rejected g fs' h r e k := by
  cases hwhy with
  | nameless hname => exact .nameless hname
  | unended hname hend hchain => exact .unended hname hend hchain
  | taken hname hend ht => exact .taken hname hend (htaken.mpr ht)

theorem Settled.congr (hs : Settled g fs h r)
    (hsame : ∀ y < x, ∀ name stop, fs'.Registered y name stop ↔ fs.Registered y name stop)
    (hh : h < x) (hfailures : fs'.failuresAt r.id = fs.failuresAt r.id) : Settled g fs' h r := by
  have htaken := taken_congr hsame (Nat.le_of_lt hh) r.functionName
  cases hs with
  | registered stop hcan hreg hsilent =>
    refine .registered stop ⟨hcan.named, hcan.ended, ?_⟩ ((hsame h hh _ stop).mpr hreg)
      (hfailures.trans hsilent)
    rw [htaken]
    exact hcan.free
  | reported e k hwhy hnone hkind honce =>
    refine .reported e k (hwhy.congr htaken) ?_ hkind (hfailures.trans honce)
    intro name stop
    rw [hsame h hh]
    exact hnone name stop

end Settled

/-! ## One block after the other -/

section Discovered

variable {g : Graph} {records seen : List Record} {fs fs' : Functions} {r r' : Record} {h : Handle}

theorem fields_nodeOf (index : Table Handle) (hkind : r.kind = .functionStart) :
    (nodeOf index r).fields = .function r.functionName := by
  simp [nodeOf, hkind, Fields.of, Record.functionName]

theorem begins_concat :
    Begins (seen ++ [r]) h r' ↔ Begins seen h r' ∨ h = seen.length ∧ r' = r ∧
      r.kind = .functionStart := by
  constructor
  · rintro ⟨hr, hkind⟩
    rcases Nat.lt_or_ge h seen.length with hlt | hge
    · rw [List.getElem?_append_left hlt] at hr
      exact Or.inl ⟨hr, hkind⟩
    · rw [List.getElem?_append_right hge, List.getElem?_singleton] at hr
      split_ifs at hr with hlast
      cases hr
      exact Or.inr ⟨Nat.le_antisymm (Nat.le_of_sub_eq_zero hlast) hge, rfl, hkind⟩
  · rintro (⟨hr, hkind⟩ | ⟨rfl, rfl, hkind⟩)
    · exact ⟨by rw [List.getElem?_append_left (List.getElem?_eq_some_iff.mp hr).1, hr], hkind⟩
    · exact ⟨List.getElem?_concat_length, hkind⟩

theorem Discovered.lt (hd : Discovered g seen fs) {name : String} {stop : Handle}
    (hreg : fs.Registered h name stop) :
    h < seen.length := by
  obtain ⟨r, hbegins, -⟩ := hd.only h name stop hreg
  exact (List.getElem?_eq_some_iff.mp hbegins.record).1

theorem Discovered.only_concat (hd : Discovered g seen fs) {name : String} {stop : Handle}
    (hreg : fs.Registered h name stop) :
    ∃ r', Begins (seen ++ [r]) h r' ∧ r'.functionName = name := by
  obtain ⟨r', hbegins, hname⟩ := hd.only h name stop hreg
  exact ⟨r', begins_concat.mpr (Or.inl hbegins), hname⟩

theorem Discovered.failuresAt_fresh (hd : Discovered g seen fs) (hfresh : r.id ∉ seen.map (·.id)) :
    fs.failuresAt r.id = [] := by
  rw [failuresAt, List.filter_eq_nil_iff]
  intro f hf hnode
  rw [decide_eq_true_eq] at hnode
  have hmem : r.id ∈ (seen.filter (·.kind = .functionStart)).map (·.id) :=
    hd.failures.subset (hnode ▸ List.mem_map_of_mem hf)
  exact hfresh ((List.filter_sublist.map _).subset hmem)

theorem Discovered.settled_concat (hd : Discovered g seen fs) (hfresh : r.id ∉ seen.map (·.id))
    (hsame : ∀ y < seen.length, ∀ name stop, fs'.Registered y name stop ↔ fs.Registered y name stop)
    (hfailures : ∀ id ≠ r.id, fs'.failuresAt id = fs.failuresAt id)
    (hlast : r.kind = .functionStart → Settled g fs' seen.length r) :
    ∀ h r', Begins (seen ++ [r]) h r' → Settled g fs' h r' := by
  intro h r' hbegins
  rcases begins_concat.mp hbegins with hold | ⟨rfl, rfl, hkind⟩
  · have hmem : r' ∈ seen := List.mem_of_getElem? hold.record
    have hne : r'.id ≠ r.id := fun hid => hfresh (hid ▸ List.mem_map_of_mem hmem)
    have hlt : h < seen.length := (List.getElem?_eq_some_iff.mp hold.record).1
    exact (hd.settled h r' hold).congr hsame hlt (hfailures r'.id hne)
  · exact hlast hkind

theorem Discovered.skip (hd : Discovered g seen fs) (hfresh : r.id ∉ seen.map (·.id))
    (hkind : r.kind ≠ .functionStart) :
    Discovered g (seen ++ [r]) fs where
  distinct := hd.distinct
  settled :=
    hd.settled_concat hfresh (fun _ _ _ _ => Iff.rfl) (fun _ _ => rfl) fun h => absurd h hkind
  only _ _ _ hreg := hd.only_concat hreg
  failures := by simpa [hkind] using hd.failures
  names := by simpa [hkind] using hd.names

theorem Discovered.report (hd : Discovered g seen fs) (hfresh : r.id ∉ seen.map (·.id))
    (hkind : r.kind = .functionStart) (index : Table Handle) {e : Error} {k : FailureKind}
    (hwhy : Rejected g fs seen.length r e k) :
    Discovered g (seen ++ [r]) (fs.report (nodeOf index r) e) where
  distinct := hd.distinct
  settled := by
    have hat : ∀ id, (fs.report (nodeOf index r) e).failuresAt id =
        fs.failuresAt id ++ [fault r e].filter (·.node = id) := fun id => List.filter_append ..
    refine hd.settled_concat hfresh (fun _ _ _ _ => Iff.rfl) ?_ fun _ => ?_
    · intro id hid
      simp [hat, fault, Ne.symm hid]
    · refine .reported e k (hwhy.congr Iff.rfl) ?_ hwhy.kind ?_
      · exact fun name stop hreg => Nat.lt_irrefl _ (hd.lt hreg)
      · simp [hat, fault, hd.failuresAt_fresh hfresh]
  only _ _ _ hreg := hd.only_concat hreg
  failures := by
    simpa [Functions.report, nodeOf, hkind] using hd.failures.append (List.Sublist.refl [r.id])
  names := by
    simpa [Functions.report, hkind] using
      hd.names.trans (List.sublist_append_left _ [r.functionName])

theorem registered_put (name : String) (f : Function) (hnew : ¬ fs.table.contains name) (h : Handle)
    (name' : String) (stop : Handle) :
    Registered { fs with table := fs.table.put name f } h name' stop ↔
      fs.Registered h name' stop ∨ name' = name ∧ f = ⟨h, stop⟩ := by
  unfold Registered
  rw [Table.get?_put]
  split_ifs with hname
  · subst hname
    have hnone : fs.table.get? name = none := by simpa [Table.contains] using hnew
    simp [hnone]
  · simp [Ne.symm hname]

theorem Discovered.put (hd : Discovered g seen fs) (hfresh : r.id ∉ seen.map (·.id))
    (hkind : r.kind = .functionStart) {stop : Handle} (hnamed : r.functionName ≠ "")
    (hended : ∃ i, EndsAt g seen.length i stop) (hnew : ¬ fs.table.contains r.functionName) :
    Discovered g (seen ++ [r])
      { fs with table := fs.table.put r.functionName ⟨seen.length, stop⟩ } where
  distinct := hd.distinct.put _ _
  settled := by
    have hsame : ∀ y < seen.length, ∀ name stop',
        Registered { fs with table := fs.table.put r.functionName ⟨seen.length, stop⟩ } y
            name stop' ↔ fs.Registered y name stop' := by
      intro y hy name stop'
      rw [registered_put _ _ hnew, or_iff_left]
      rintro ⟨-, hf⟩
      exact Nat.ne_of_gt hy (congrArg Function.start hf)
    refine hd.settled_concat hfresh hsame (fun _ _ => rfl) fun _ => ?_
    refine .registered stop ⟨hnamed, hended, ?_⟩ ?_ (hd.failuresAt_fresh hfresh)
    · rw [taken_congr hsame (Nat.le_refl _)]
      rintro ⟨y, -, stop', hreg⟩
      exact hnew (Option.isSome_iff_exists.mpr ⟨⟨y, stop'⟩, hreg⟩)
    · exact (registered_put _ _ hnew _ _ _).mpr (Or.inr ⟨rfl, rfl⟩)
  only := by
    intro h name stop' hreg
    rw [registered_put _ _ hnew] at hreg
    rcases hreg with hreg | ⟨rfl, hf⟩
    · exact hd.only_concat hreg
    · exact ⟨r, begins_concat.mpr (Or.inr ⟨(congrArg Function.start hf).symm, rfl, hkind⟩), rfl⟩
  failures := by simpa [hkind] using hd.failures.trans (List.sublist_append_left _ [r.id])
  names := by
    rw [Table.keys_put, if_neg hnew]
    simpa [hkind] using hd.names.append (List.Sublist.refl [r.functionName])

theorem Discovered.discover (hd : Discovered g seen fs) (hg : g.Linked) (hlt : seen.length < g.size)
    (hfresh : r.id ∉ seen.map (·.id)) {index : Table Handle}
    (hdiscover : fs.discover g seen.length (nodeOf index r) = .ok fs') :
    Discovered g (seen ++ [r]) fs' := by
  have hfunction : ∀ {name : String}, r.kind = .functionStart → (nodeOf index r).fields =
      .function name → r.functionName = name :=
    fun hkind hfields => Fields.function.inj ((fields_nodeOf index hkind).symm.trans hfields)
  cases accounted_of_discover hdiscover with
  | other hkind => exact hd.skip hfresh hkind
  | nameless hkind hfields =>
    exact hd.report hfresh hkind index (.nameless (hfunction hkind hfields))
  | unended hkind hfields hname hend =>
    obtain rfl := hfunction hkind hfields
    cases outcome_of_endOf hg hlt hend with
    | unended hnone hchain => exact hd.report hfresh hkind index (.unended hname hnone hchain)
  | taken hkind hfields hname hend htaken =>
    obtain rfl := hfunction hkind hfields
    obtain ⟨f, hf⟩ := Option.isSome_iff_exists.mp htaken
    have hreg : fs.Registered f.start r.functionName f.stop := hf
    cases outcome_of_endOf hg hlt hend with
    | ended he =>
      exact hd.report hfresh hkind index
        (.taken hname ⟨_, _, he⟩ ⟨f.start, hd.lt hreg, f.stop, hreg⟩)
  | registered hkind hfields hname hend hnew =>
    obtain rfl := hfunction hkind hfields
    cases outcome_of_endOf hg hlt hend with
    | ended he => exact hd.put hfresh hkind hname ⟨_, he⟩ hnew

theorem Discovered.discoverFrom (hd : Discovered g seen fs) (hg : g.Linked) {index : Table Handle}
    {rest : List Record} (hsize : g.size = (seen ++ rest).length)
    (hdistinct : ((seen ++ rest).map (·.id)).Nodup)
    (hfrom : discoverFrom g fs seen.length (rest.map (nodeOf index)) = .ok fs') :
    Discovered g (seen ++ rest) fs' := by
  induction rest generalizing seen fs with
  | nil =>
    cases hfrom
    rwa [List.append_nil]
  | cons r rest ih =>
    obtain ⟨fs₁, hdiscover, hfrom⟩ := bind_eq_ok hfrom
    have hfresh : r.id ∉ seen.map (·.id) := by
      rw [List.map_append, List.nodup_append] at hdistinct
      exact fun hmem => hdistinct.2.2 r.id hmem r.id (by simp) rfl
    have hd₁ := hd.discover hg (by simp [hsize]) hfresh hdiscover
    rw [List.append_cons] at hsize hdistinct ⊢
    exact ih hd₁ hsize hdistinct (by simpa using hfrom)

theorem discovered_nil (g : Graph) : Discovered g [] ⟨.empty, []⟩ where
  distinct := Table.distinct_empty
  settled _ _ hbegins := by simpa using hbegins.record
  only := by simp [Registered]
  failures := by simp
  names := by simp [Table.keys, Table.empty]

theorem discovered_of_build (hb : build records = .ok g) :
    ∃ fs, ofGraph g = .ok fs ∧ fs.Discovered g records := by
  have hg := linked_of_build hb
  obtain ⟨fs, hfs, -⟩ := ofGraph_found hg
  have hfrom : Functions.discoverFrom g ⟨.empty, []⟩ 0 (records.map (nodeOf g.index)) = .ok fs := by
    rw [← hfs, ofGraph, (build_parts hb).2.2]
  exact ⟨fs, hfs, (discovered_nil g).discoverFrom hg (size_of_build hb) (ids_of_build hb).2 hfrom⟩

end Discovered

end Functions

/-- The search for the end of a function stops at an end block, where the chain breaks off, or at a
block it has visited. So looking for functions comes to an end, and it accounts for every block that
begins one: which blocks are registered, and up to where, is decided by their names, their chains
and the functions before them. -/
theorem discovery_is_exact (records : List Record) (g : Graph) (hb : build records = .ok g) :
    (∀ h r, Begins records h r → ∃ result, Follows g [] (some h) result ∧ Outcome g h result ∧
      ∀ fuel, g.size < fuel → findEnd g fuel [] (some h) = .ok result) ∧
    ∃ fs, Functions.ofGraph g = .ok fs ∧ fs.Discovered g records ∧
      ∀ h r, Begins records h r → ∀ stop,
        fs.Registered h r.functionName stop ↔ fs.Registrable g h r stop := by
  obtain ⟨fs, hfs, hd⟩ := Functions.discovered_of_build hb
  refine ⟨fun h r hbegins => search_ends (linked_of_build hb) ?_, fs, hfs, hd,
    fun h r hbegins stop => (hd.settled h r hbegins).registered_iff stop⟩
  rw [size_of_build hb]
  exact (List.getElem?_eq_some_iff.mp hbegins.record).1

/-- Three blocks ask for the same name. The chain of the first one comes into a circle, and the
others share their end with two more blocks. -/
def colliding : List Record :=
  [{ id := "s", type := "start" },
   { id := "astray", type := "functionStart", next := "a", data := { functionName := "f" } },
   { id := "a", type := "output", next := "b" },
   { id := "b", type := "output", next := "a" },
   { id := "first", type := "functionStart", next := "e", data := { functionName := " f " } },
   { id := "e", type := "functionEnd" },
   { id := "second", type := "functionStart", next := "first", data := { functionName := "f" } },
   { id := "blank", type := "functionStart", next := "e", data := { functionName := " " } },
   { id := "other", type := "functionStart", next := "second", data := { functionName := "g" } }]

theorem discovery_is_exact_colliding :
    ∃ g fs, build colliding = .ok g ∧ Functions.ofGraph g = .ok fs ∧ fs.Discovered g colliding ∧
      Follows g [] (some 1) none ∧ Outcome g 1 none ∧
      fs.table.entries = [("f", ⟨4, 5⟩), ("g", ⟨8, 5⟩)] ∧
      fs.failures.map (fun f => (f.node, f.kind)) =
        [("astray", .linkage), ("second", .declaration), ("blank", .declaration)] := by
  obtain ⟨g, hg, hend, fs, hfs, htable, hfailures⟩ : ∃ g, build colliding = .ok g ∧
      findEnd g (g.size + 1) [] (some 1) = .ok none ∧ ∃ fs, Functions.ofGraph g = .ok fs ∧
      fs.table.entries = [("f", ⟨4, 5⟩), ("g", ⟨8, 5⟩)] ∧
      fs.failures.map (fun f => (f.node, f.kind)) =
        [("astray", .linkage), ("second", .declaration), ("blank", .declaration)] :=
    ⟨_, rfl, rfl, _, rfl, by decide, by decide⟩
  obtain ⟨hends, fs', hfs', hd, -⟩ := discovery_is_exact colliding g hg
  obtain rfl : fs = fs' := Except.ok.inj (hfs.symm.trans hfs')
  obtain ⟨result, hfollows, houtcome, hfind⟩ := hends 1 _ ⟨rfl, by decide⟩
  obtain rfl : none = result := Except.ok.inj (hend.symm.trans (hfind _ (Nat.lt_succ_self _)))
  exact ⟨g, fs, hg, hfs, hd, hfollows, houtcome, htable, hfailures⟩

end Machine

end Flowchart
