import Flowchart.Table
import Mathlib.Data.List.Induction
import Mathlib.Data.List.Nodup

/-!
# Laws of tables

A table that is built by putting names in holds none of them twice, and then its entries are what
it finds. Its names stand in the order in which they were first put in, also after one table was
merged into another.
-/

namespace Flowchart.Table

variable {α β : Type}

/-! ## What a table holds -/

theorem getFrom_isSome_iff (name : String) (l : List (String × α)) :
    (getFrom name l).isSome ↔ name ∈ l.map (·.1) := by
  induction l with
  | nil => simp [getFrom]
  | cons e rest ih =>
    obtain ⟨k, a⟩ := e
    by_cases hk : k = name
    · simp [getFrom, hk]
    · have hne : ¬ name = k := fun h => hk h.symm
      simp only [getFrom, hk, if_false, List.map_cons, List.mem_cons, hne, false_or, ih]

theorem contains_iff (t : Table α) (name : String) : t.contains name ↔ name ∈ t.keys :=
  getFrom_isSome_iff name t.entries

theorem contains_put (t : Table α) (name other : String) (a : α) :
    (t.put name a).contains other = (decide (name = other) || t.contains other) := by
  rw [contains, get?_put]
  by_cases h : name = other <;> simp [h, contains]

theorem getFrom_filter_ne (name other : String) (l : List (String × α)) :
    getFrom other (l.filter (·.1 ≠ name)) = if name = other then none else getFrom other l := by
  induction l with
  | nil => simp [getFrom]
  | cons e rest ih =>
    obtain ⟨k, a⟩ := e
    by_cases hk : k = name <;> by_cases ho : k = other <;> grind [getFrom]

@[simp] theorem get?_erase (t : Table α) (name other : String) :
    (t.erase name).get? other = if name = other then none else t.get? other :=
  getFrom_filter_ne name other t.entries

theorem map_putInto_of_eq (view : α → β) {name : String} {a b : α} (hview : view a = view b)
    {l : List (String × α)} (h : getFrom name l = some b) :
    (putInto name a l).map (fun e => (e.1, view e.2)) = l.map fun e => (e.1, view e.2) := by
  induction l with
  | nil => cases h
  | cons e rest ih =>
    obtain ⟨k, c⟩ := e
    by_cases hk : k = name
    · obtain rfl : c = b := by simpa [getFrom, hk] using h
      simp [putInto, hk, hview]
    · simp only [getFrom, hk, if_false] at h
      simp [putInto, hk, ih h]

theorem map_entries_put (view : α → β) {t : Table α} {name : String} {a b : α}
    (hview : view a = view b) (h : t.get? name = some b) :
    (t.put name a).entries.map (fun e => (e.1, view e.2)) = t.entries.map fun e =>
      (e.1, view e.2) :=
  map_putInto_of_eq view hview h

/-! ## Names that differ -/

def Distinct (t : Table α) : Prop := t.keys.Nodup

theorem distinct_empty : (empty : Table α).Distinct := List.nodup_nil

theorem Distinct.put {t : Table α} (h : t.Distinct) (name : String) (a : α) :
    (t.put name a).Distinct := by
  unfold Distinct
  rw [keys_put]
  split_ifs with hc
  · exact h
  · rw [contains_iff] at hc
    exact List.nodup_append.mpr ⟨h, List.nodup_singleton name, by
      intro x hx y hy hxy
      rw [List.mem_singleton] at hy
      exact hc (hy ▸ hxy ▸ hx)⟩

theorem Distinct.erase {t : Table α} (h : t.Distinct) (name : String) : (t.erase name).Distinct :=
  (List.filter_sublist.map _).nodup h

theorem mem_entries_iff {t : Table α} (h : t.Distinct) (name : String) (a : α) :
    (name, a) ∈ t.entries ↔ t.get? name = some a := by
  obtain ⟨entries⟩ := t
  change (entries.map (·.1)).Nodup at h
  change (name, a) ∈ entries ↔ getFrom name entries = some a
  induction entries with
  | nil => simp [getFrom]
  | cons e rest ih =>
    obtain ⟨k, b⟩ := e
    rw [List.map_cons, List.nodup_cons] at h
    by_cases hk : k = name
    · have hrest : (name, a) ∉ rest := by
        intro hmem
        apply h.1
        exact List.mem_map.mpr ⟨(name, a), hmem, hk.symm⟩
      simp [getFrom, hk, hrest, eq_comm]
    · simp [getFrom, hk, Ne.symm hk, ih h.2]

theorem size_eq_length_keys (t : Table α) : t.size = t.keys.length := (List.length_map _).symm

theorem putInto_of_not_mem (name : String) (a : α) (l : List (String × α))
    (h : name ∉ l.map (·.1)) : putInto name a l = l ++ [(name, a)] := by
  induction l with
  | nil => rfl
  | cons e rest ih =>
    obtain ⟨k, b⟩ := e
    simp only [List.map_cons, List.mem_cons, not_or] at h
    have hk : ¬ k = name := fun hk => h.1 hk.symm
    simp only [putInto, hk, if_false, ih h.2, List.cons_append]

/-! ## Merging -/

theorem foldl_put_of_distinct (l : List (String × α)) (t : Table α)
    (h : (t.keys ++ l.map (·.1)).Nodup) :
    l.foldl (fun t e => t.put e.1 e.2) t = ⟨t.entries ++ l⟩ := by
  induction l generalizing t with
  | nil => simp
  | cons e rest ih =>
    have hnew : e.1 ∉ t.entries.map (·.1) := by
      intro hmem
      exact (List.nodup_append.mp h).2.2 e.1 hmem e.1 (by simp) rfl
    have hput : t.put e.1 e.2 = ⟨t.entries ++ [e]⟩ := by
      rw [put, putInto_of_not_mem _ _ _ hnew]
    rw [List.foldl_cons, hput, ih _ (by simpa [keys] using h)]
    simp

theorem merge_empty {t : Table α} (h : t.Distinct) : empty.merge t = t := by
  unfold merge
  rw [foldl_put_of_distinct t.entries empty (by simpa [keys, empty, Distinct] using h)]
  rfl

theorem merge_cons (t : Table α) (e : String × α) (rest : List (String × α)) :
    t.merge ⟨e :: rest⟩ = (t.put e.1 e.2).merge ⟨rest⟩ := rfl

theorem Distinct.merge {t : Table α} (h : t.Distinct) (u : Table α) : (t.merge u).Distinct := by
  obtain ⟨entries⟩ := u
  induction entries generalizing t with
  | nil => exact h
  | cons e rest ih => exact ih (h.put e.1 e.2)

theorem get?_merge (t : Table α) {u : Table α} (hu : u.Distinct) (name : String) :
    (t.merge u).get? name = (u.get? name).or (t.get? name) := by
  obtain ⟨entries⟩ := u
  change (entries.map (·.1)).Nodup at hu
  induction entries generalizing t with
  | nil => rfl
  | cons e rest ih =>
    obtain ⟨k, a⟩ := e
    rw [List.map_cons, List.nodup_cons] at hu
    rw [merge_cons, ih _ hu.2, get?_put]
    change (getFrom name rest).or _ = (getFrom name ((k, a) :: rest)).or _
    by_cases hk : k = name
    · have hrest : getFrom name rest = none := by
        rw [← Option.not_isSome_iff_eq_none, getFrom_isSome_iff, ← hk]
        exact hu.1
      simp [getFrom, hk, hrest]
    · simp [getFrom, hk]

/-- Tables merged from the last to the first. -/
def layered (ts : List (Table α)) : Table α := ts.foldr (fun u t => t.merge u) empty

theorem layered_singleton {t : Table α} (h : t.Distinct) : layered [t] = t := merge_empty h

theorem distinct_layered (ts : List (Table α)) : (layered ts).Distinct := by
  induction ts with
  | nil => exact distinct_empty
  | cons u ts ih => exact ih.merge u

theorem get?_layered {ts : List (Table α)} (h : ∀ t ∈ ts, t.Distinct) (name : String) :
    (layered ts).get? name = ts.findSome? (·.get? name) := by
  induction ts with
  | nil => rfl
  | cons u ts ih =>
    rw [List.forall_mem_cons] at h
    have hlayers : layered (u :: ts) = (layered ts).merge u := rfl
    rw [hlayers, get?_merge _ h.1, ih h.2, List.findSome?_cons]
    cases u.get? name <;> rfl

/-! ## The order of names -/

/-- Enters a name that is new behind the others. -/
def enter (names : List String) (name : String) : List String :=
  if name ∈ names then names else names ++ [name]

theorem keys_put_eq (t : Table α) (name : String) (a : α) :
    (t.put name a).keys = enter t.keys name := by
  rw [keys_put]
  simp only [enter, contains_iff]

theorem keys_prefix_put (t : Table α) (name : String) (a : α) : t.keys <+: (t.put name a).keys := by
  rw [keys_put]
  split_ifs
  · exact List.prefix_rfl
  · exact List.prefix_append _ _

theorem keys_merge (t u : Table α) : (t.merge u).keys = u.keys.foldl enter t.keys := by
  obtain ⟨entries⟩ := u
  induction entries generalizing t with
  | nil => rfl
  | cons e rest ih =>
    rw [merge_cons, ih, keys_put_eq]
    rfl

theorem eraseDups_concat (names : List String) (name : String) :
    (names ++ [name]).eraseDups = enter names.eraseDups name := by
  rw [List.eraseDups_append, enter]
  by_cases hname : name ∈ names
  · simp [List.removeAll, hname]
  · simp [List.removeAll, hname, List.eraseDups_cons]

theorem eraseDups_append_eq (names new : List String) :
    (names ++ new).eraseDups = new.foldl enter names.eraseDups := by
  induction new generalizing names with
  | nil => simp
  | cons name new ih => rw [List.append_cons, ih, eraseDups_concat, List.foldl_cons]

theorem mem_foldl_enter (names new : List String) (name : String) :
    name ∈ new.foldl enter names ↔ name ∈ names ∨ name ∈ new := by
  induction new generalizing names with
  | nil => simp
  | cons first new ih =>
    rw [List.foldl_cons, ih, enter]
    split_ifs with hfirst <;> grind

theorem foldl_enter_eraseDups (names new : List String) :
    new.eraseDups.foldl enter names = new.foldl enter names := by
  induction new using List.reverseRecOn with
  | nil => rfl
  | append_singleton new name ih =>
    rw [eraseDups_concat, List.foldl_append, List.foldl_cons, List.foldl_nil]
    by_cases hname : name ∈ new
    · -- The name was entered before, so it changes nothing on either side.
      have hlisted : name ∈ new.foldl enter names :=
        (mem_foldl_enter names new name).mpr (Or.inr hname)
      rw [enter, if_pos (List.mem_eraseDups.mpr hname), ih, enter, if_pos hlisted]
    · rw [enter, if_neg (mt List.mem_eraseDups.mp hname), List.foldl_append, ih, List.foldl_cons,
        List.foldl_nil]

theorem keys_layered {ts : List (Table α)} {log : List (List String)}
    (h : log.map List.eraseDups = ts.map keys) :
    (layered ts).keys = log.reverse.flatten.eraseDups := by
  induction ts generalizing log with
  | nil =>
    obtain rfl : log = [] := by simpa using h
    rfl
  | cons u ts ih =>
    obtain ⟨names, log, rfl, hu, hts⟩ := List.map_eq_cons_iff.mp h
    have hlayers : layered (u :: ts) = (layered ts).merge u := rfl
    rw [hlayers, keys_merge, ih hts, ← hu, foldl_enter_eraseDups, List.reverse_cons,
      List.flatten_append, List.flatten_singleton, eraseDups_append_eq]

end Flowchart.Table
