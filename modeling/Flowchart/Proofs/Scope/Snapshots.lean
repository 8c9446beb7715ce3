import Flowchart.Proofs.Scope.Operations

/-!
# Snapshots of memory

A snapshot merges the frames from the bottom to the top, while a lookup searches them from
the top to the bottom. Both give the same values. The order of a snapshot is told by the
history of memory alone: a ledger of what was declared in each frame that is still there.
-/

/-! ## The history of declarations -/

namespace Flowchart.Scope

/-- The variable that an operation declares in the current frame. -/
def Operation.variable? : Operation → Option String
  | .declare name => some name
  | .assignCurrent name _ => some name
  | _ => none

/-- The array that an operation declares in the current frame. -/
def Operation.array? : Operation → Option String
  | .declareArray name _ => some name
  | _ => none

/-- For each open frame, the innermost first, the names that were declared in it. -/
abbrev Ledger := List (List String)

/-- Opens and closes lists as an operation opens and closes frames; any other operation may
write to the list of the current frame. -/
def Ledger.follow (write : List String → List String) (log : Ledger) : Operation → Ledger
  | .push _ => [] :: log
  | .pop => if log.length ≤ 1 then log else log.tail
  | .unwind depth => log.drop (log.length - (max depth 1).toNat)
  | _ => log.modifyHead write

/-- Adds what an operation declares, each time that it is declared. -/
def Ledger.note (declares : Operation → Option String) (log : Ledger) (o : Operation) : Ledger :=
  log.follow (· ++ (declares o).toList) o

theorem Ledger.map_follow {write write' view : List String → List String}
    (hview : ∀ l, view (write l) = write' (view l)) (hnil : view [] = []) (log : Ledger)
    (o : Operation) :
    (log.follow write o).map view = Ledger.follow write' (log.map view) o := by
  cases o with
  | push => simp [follow, hnil]
  | pop =>
    simp only [follow, List.length_map]
    split_ifs <;> simp
  | unwind => simp [follow]
  | _ => cases log <;> simp [follow, hview]

theorem Ledger.map_note {declares : Operation → Option String} {names : Frame → List String}
    {fs gs : Frames} {o : Operation}
    (h : gs.map names =
      Ledger.follow (fun l => (declares o).toList.foldl Table.enter l) (fs.map names) o)
    {log : Ledger} (hlog : log.map List.eraseDups = fs.map names) :
    (log.note declares o).map List.eraseDups = gs.map names := by
  rw [h, ← hlog]
  exact Ledger.map_follow (fun l => Table.eraseDups_append_eq l _) rfl log o

variable {fs gs : Frames} {o : Operation}

theorem Operated.vars_follow (h : Operated fs o gs) :
    gs.map (·.vars.keys) =
      Ledger.follow (fun l => o.variable?.toList.foldl Table.enter l) (fs.map (·.vars.keys)) o := by
  cases h with
  | pushed => rfl
  | popped =>
    simp only [Ledger.follow, List.length_map]
    split_ifs <;> simp
  | unwound => simp [Ledger.follow]
  | declared f rest name hfs =>
    simp [hfs, Ledger.follow, Operation.variable?, Frame.setVariable, Table.keys_put_eq]
  | assigned f rest name v hfs =>
    simp [hfs, Ledger.follow, Operation.variable?, Frame.setVariable, Table.keys_put_eq]
  | updated inner f outer name v hfs hinner hf =>
    cases inner <;> simp [hfs, Ledger.follow, Operation.variable?, Frame.setVariable,
      Table.keys_put, hf]
  | arrayDeclared f rest name size hfs =>
    simp [hfs, Ledger.follow, Operation.variable?, Frame.setArray]
  | elementSet inner f outer name i a v hfs =>
    cases inner <;> simp [hfs, Ledger.follow, Operation.variable?, Frame.setArray]

theorem Operated.arrays_follow (h : Operated fs o gs) :
    gs.map (·.arrays.keys) =
      Ledger.follow (fun l => o.array?.toList.foldl Table.enter l) (fs.map (·.arrays.keys)) o := by
  cases h with
  | pushed => rfl
  | popped =>
    simp only [Ledger.follow, List.length_map]
    split_ifs <;> simp
  | unwound => simp [Ledger.follow]
  | declared f rest name hfs => simp [hfs, Ledger.follow, Operation.array?, Frame.setVariable]
  | assigned f rest name v hfs => simp [hfs, Ledger.follow, Operation.array?, Frame.setVariable]
  | updated inner f outer name v hfs =>
    cases inner <;> simp [hfs, Ledger.follow, Operation.array?, Frame.setVariable]
  | arrayDeclared f rest name size hfs =>
    simp [hfs, Ledger.follow, Operation.array?, Frame.setArray, Table.keys_put_eq]
  | elementSet inner f outer name i a v hfs hinner hf =>
    have hcontains : f.arrays.contains name := by simp [Table.contains, hf]
    cases inner <;> simp [hfs, Ledger.follow, Operation.array?, Frame.setArray, Table.keys_put,
      hcontains]

/-! ## The bottom frame -/

/-- `g` is the frame `f` at a later time: what was declared in it is still there. -/
structure Frame.Later (f g : Frame) : Prop where
  label : g.label = f.label
  vars : f.vars.keys <+: g.vars.keys
  arrays : f.arrays.keys <+: g.arrays.keys

theorem Frame.Later.refl (f : Frame) : f.Later f := ⟨rfl, List.prefix_rfl, List.prefix_rfl⟩

theorem Frame.Later.trans {f g h : Frame} (hfg : f.Later g) (hgh : g.Later h) : f.Later h :=
  ⟨hgh.label.trans hfg.label, hfg.vars.trans hgh.vars, hfg.arrays.trans hgh.arrays⟩

theorem Frame.later_setVariable (f : Frame) (name : String) (v : Float) :
    f.Later (f.setVariable name v) :=
  ⟨rfl, f.vars.keys_prefix_put name v, List.prefix_rfl⟩

theorem Frame.later_setArray (f : Frame) (name : String) (a : NumberArray) :
    f.Later (f.setArray name a) :=
  ⟨rfl, List.prefix_rfl, f.arrays.keys_prefix_put name a⟩

/-- Both stacks have a bottom frame, and it is the same one. -/
def SameBottom (fs gs : Frames) : Prop :=
  ∃ f g, fs.getLast? = some f ∧ gs.getLast? = some g ∧ f.Later g

theorem SameBottom.refl {fs : Frames} (h : fs ≠ []) : SameBottom fs fs :=
  ⟨fs.getLast h, fs.getLast h, List.getLast?_eq_some_getLast h,
    List.getLast?_eq_some_getLast h, .refl _⟩

theorem SameBottom.trans {fs gs hs : Frames} (h : SameBottom fs gs) (h' : SameBottom gs hs) :
    SameBottom fs hs := by
  obtain ⟨f, g, hf, hg, hfg⟩ := h
  obtain ⟨g', k, hg', hk, hgk⟩ := h'
  obtain rfl : g = g' := by simpa [hg] using hg'
  exact ⟨f, k, hf, hk, hfg.trans hgk⟩

theorem sameBottom_of_getLast? (hne : fs ≠ []) (h : gs.getLast? = fs.getLast?) :
    SameBottom fs gs := by
  obtain ⟨f, g, hf, hg, hfg⟩ := SameBottom.refl hne
  exact ⟨f, g, hf, h.trans hg, hfg⟩

theorem sameBottom_replace (inner : Frames) {f g : Frame} (outer : Frames) (h : f.Later g) :
    SameBottom (inner ++ f :: outer) (inner ++ g :: outer) := by
  cases outer with
  | nil => exact ⟨f, g, by simp, by simp, h⟩
  | cons x outer => exact sameBottom_of_getLast? (by simp) (by simp [List.getLast?_append])

theorem Operated.sameBottom (hne : fs ≠ []) (h : Operated fs o gs) : SameBottom fs gs := by
  have hlen : 0 < fs.length := List.length_pos_iff.mpr hne
  cases h with
  | pushed name =>
    refine sameBottom_of_getLast? hne ?_
    cases fs with
    | nil => exact absurd rfl hne
    | cons f rest => simp [Frames.push]
  | popped =>
    refine sameBottom_of_getLast? hne ?_
    split_ifs with hshort
    · rfl
    · rw [← List.drop_one, List.getLast?_drop, if_neg hshort]
  | unwound depth =>
    refine sameBottom_of_getLast? hne ?_
    rw [List.getLast?_drop, if_neg (by omega)]
  | declared f rest name hfs =>
    rw [hfs]
    exact sameBottom_replace [] rest (f.later_setVariable name 0)
  | assigned f rest name v hfs =>
    rw [hfs]
    exact sameBottom_replace [] rest (f.later_setVariable name v)
  | updated inner f outer name v hfs =>
    rw [hfs]
    exact sameBottom_replace inner outer (f.later_setVariable name v)
  | arrayDeclared f rest name size hfs =>
    rw [hfs]
    exact sameBottom_replace [] rest (f.later_setArray name _)
  | elementSet inner f outer name i a v hfs =>
    rw [hfs]
    exact sameBottom_replace inner outer (f.later_setArray name _)

end Flowchart.Scope

namespace Flowchart.Scopes

open Scope

/-! ## Runs -/

/-- The ledger after operations; those that fail are not noted. -/
def noteAll (declares : Operation → Option String) (s : Scopes) (log : Ledger) :
    List Operation → Ledger
  | [] => log
  | o :: os =>
    match s.apply o with
    | .ok s' => s'.noteAll declares (log.note declares o) os
    | .error _ => s.noteAll declares log os

theorem noteAll_invariant {declares : Operation → Option String} {P : Scopes → Ledger → Prop}
    (step : ∀ s log o s', P s log → s.apply o = .ok s' → P s' (log.note declares o)) {s : Scopes}
    {log : Ledger} (h : P s log) (os : List Operation) :
    P (s.performAll os) (s.noteAll declares log os) := by
  induction os generalizing s log with
  | nil => exact h
  | cons o os ih =>
    rw [performAll_cons]
    unfold noteAll perform
    cases ho : s.apply o with
    | ok s' => exact ih (step s log o s' h ho)
    | error e => exact ih h

theorem perform_cases (s : Scopes) (o : Operation) :
    (s.perform o).1 = s ∨ s.apply o = .ok (s.perform o).1 := by
  unfold perform
  cases s.apply o with
  | ok s' => exact Or.inr rfl
  | error e => exact Or.inl rfl

theorem WellFormed.performAll {s : Scopes} (h : s.WellFormed) (os : List Operation) :
    (s.performAll os).WellFormed := by
  refine performAll_induction (fun s o hs => ?_) s os h
  rcases s.perform_cases o with heq | hok
  · rwa [heq]
  · exact (apply_operated hs hok).1

theorem WellFormed.sameBottom {s : Scopes} (h : s.WellFormed) (os : List Operation) :
    SameBottom s.frames (s.performAll os).frames := by
  induction os generalizing s with
  | nil => exact SameBottom.refl h.nonempty
  | cons o os ih =>
    rw [performAll_cons]
    rcases s.perform_cases o with heq | hok
    · rw [heq]
      exact ih h
    · obtain ⟨hwell, hop⟩ := apply_operated h hok
      exact (hop.sameBottom h.nonempty).trans (ih hwell)

/-- The ledger holds what the frames hold, if `names` tells what a frame holds of the declared
kind. -/
theorem map_noteAll {declares : Operation → Option String} {names : Frame → List String}
    (hempty : initial.frames.map names = [[]])
    (hfollow : ∀ {fs gs : Frames} {o : Operation}, Operated fs o gs →
      gs.map names =
        Ledger.follow (fun l => (declares o).toList.foldl Table.enter l) (fs.map names) o)
    (os : List Operation) :
    (initial.noteAll declares [[]] os).map List.eraseDups =
      (initial.performAll os).frames.map names := by
  have hinitial : ([[]] : Ledger).map List.eraseDups = initial.frames.map names := hempty.symm
  refine (noteAll_invariant (P := fun s log => s.WellFormed ∧ log.map List.eraseDups =
    s.frames.map names) ?_ ⟨wellFormed_initial, hinitial⟩ os).2
  intro s log o s' h ho
  obtain ⟨hwell, hop⟩ := apply_operated h.1 ho
  exact ⟨hwell, Ledger.map_note (hfollow hop) h.2⟩

/-! ## Lookups -/

/-- `f` is the innermost frame whose table holds the name, and `a` is what it holds. -/
def Innermost {α : Type} (table : Frame → Table α) (fs : Frames) (name : String) (a : α)
    (f : Frame) : Prop :=
  ∃ inner outer, fs = inner ++ f :: outer ∧ (∀ g ∈ inner, (table g).get? name = none) ∧
    (table f).get? name = some a

theorem lookup_eq (s : Scopes) (name : String) :
    s.lookup name = s.frames.findSome? fun f => (f.vars.get? name).map fun v => (v, f.index) := by
  unfold lookup
  induction s.frames with
  | nil => rfl
  | cons f rest ih =>
    rw [lookupIn, List.findSome?_cons, ih]
    cases f.vars.get? name <;> rfl

theorem findArray_eq (s : Scopes) (name : String) :
    s.findArray name = s.frames.findSome? fun f => f.arrays.get? name := by
  unfold findArray
  induction s.frames with
  | nil => rfl
  | cons f rest ih =>
    rw [findArrayIn, List.findSome?_cons, ih]
    cases f.arrays.get? name <;> rfl

theorem lookup_eq_some_iff (s : Scopes) (name : String) (v : Float) (i : Nat) :
    s.lookup name = some (v, i) ↔ ∃ f, Innermost Frame.vars s.frames name v f ∧ f.index = i := by
  rw [lookup_eq, List.findSome?_eq_some_iff]
  simp only [Option.map_eq_some_iff, Option.map_eq_none_iff, Prod.mk.injEq]
  constructor
  · rintro ⟨inner, f, outer, hfs, ⟨v, hf, rfl, rfl⟩, hinner⟩
    exact ⟨f, ⟨inner, outer, hfs, hinner, hf⟩, rfl⟩
  · rintro ⟨f, ⟨inner, outer, hfs, hinner, hf⟩, rfl⟩
    exact ⟨inner, f, outer, hfs, ⟨v, hf, rfl, rfl⟩, hinner⟩

theorem findArray_eq_some_iff (s : Scopes) (name : String) (a : NumberArray) :
    s.findArray name = some a ↔ ∃ f, Innermost Frame.arrays s.frames name a f := by
  rw [findArray_eq, List.findSome?_eq_some_iff]
  constructor
  · rintro ⟨inner, f, outer, hfs, hf, hinner⟩
    exact ⟨f, inner, outer, hfs, hinner, hf⟩
  · rintro ⟨f, inner, outer, hfs, hinner, hf⟩
    exact ⟨inner, f, outer, hfs, hf, hinner⟩

/-! ## Snapshots -/

/-- The entries list each name that is found once, with what is found. Their order is the
order in which the names stand in the ledger for the first time, from the bottom frame up. -/
structure Snapshot {α : Type} (find : String → Option α) (log : Ledger)
    (entries : List (String × α)) : Prop where
  distinct : (entries.map (·.1)).Nodup
  found : ∀ name a, (name, a) ∈ entries ↔ find name = some a
  order : entries.map (·.1) = log.reverse.flatten.eraseDups

theorem snapshot_layered {α : Type} (table : Frame → Table α) {fs : Frames}
    {find : String → Option α} {log : Ledger} (hdistinct : ∀ f ∈ fs, (table f).Distinct)
    (hlog : log.map List.eraseDups = fs.map fun f => (table f).keys)
    (hfind : ∀ name, find name = fs.findSome? fun f => (table f).get? name) :
    Snapshot find log (Table.layered (fs.map table)).entries := by
  have htables : ∀ t ∈ fs.map table, t.Distinct := by simpa using hdistinct
  have hkeys : log.map List.eraseDups = (fs.map table).map Table.keys := by
    rw [hlog, List.map_map]; rfl
  refine ⟨Table.distinct_layered _, ?_, Table.keys_layered hkeys⟩
  intro name a
  rw [Table.mem_entries_iff (Table.distinct_layered _), Table.get?_layered htables,
    List.findSome?_map, hfind]
  rfl

theorem WellFormed.indices {s : Scopes} (h : s.WellFormed) :
    s.frames.reverse.map (·.index) = List.range s.frames.length := by
  have hnumbered : ∀ {fs : Frames}, Numbered fs → fs.reverse.map (·.index) =
      List.range fs.length := by
    intro fs hfs
    induction fs with
    | nil => rfl
    | cons f rest ih =>
      rw [List.reverse_cons, List.map_append, ih hfs.2, List.length_cons, List.range_succ,
        List.map_singleton, hfs.1]
  exact hnumbered h.numbered

theorem globals_eq_ok {fs : Frames} {f : Frame} (h : fs.getLast? = some f) :
    fs.globals = .ok f := by
  rw [Frames.globals, h]

/-- After any operations a snapshot lists exactly what a lookup finds. Frames are numbered from
the bottom frame, which is the first that was opened and stays open. -/
theorem snapshots_agree_with_lookup (os : List Operation) :
    let s := initial.performAll os
    s.frames.each = .ok s.frames.reverse ∧
    s.frames.reverse.map (·.index) = List.range s.frames.length ∧
    (∀ k, ∃ f g, (initial.performAll (os.take k)).frames.globals = .ok f ∧
      s.frames.globals = .ok g ∧ g.label = ("global", 0) ∧ f.Later g) ∧
    (∃ vars, s.vars = .ok vars ∧
      Snapshot (fun name => (s.lookup name).map (·.1))
        (initial.noteAll Operation.variable? [[]] os) vars) ∧
    (∀ name v i, s.lookup name = some (v, i) ↔ ∃ f, Innermost Frame.vars s.frames name v f ∧
      f.index = i) ∧
    (∃ arrays, s.arrays = .ok arrays ∧
      Snapshot s.findArray (initial.noteAll Operation.array? [[]] os) arrays) ∧
    (∀ name a, s.findArray name = some a ↔ ∃ f, Innermost Frame.arrays s.frames name a f) := by
  intro s
  have hs : s.WellFormed := wellFormed_initial.performAll os
  refine ⟨each_eq hs.numbered, hs.indices, ?_, ?_, s.lookup_eq_some_iff, ?_,
    s.findArray_eq_some_iff⟩
  · intro k
    have hbefore : (initial.performAll (os.take k)).WellFormed :=
      wellFormed_initial.performAll (os.take k)
    have hsplit : s = (initial.performAll (os.take k)).performAll (os.drop k) := by
      rw [performAll, performAll, ← List.foldl_append, List.take_append_drop]
      rfl
    obtain ⟨f, g, hf, hg, hfg⟩ := hbefore.sameBottom (os.drop k)
    obtain ⟨first, f', hfirst, hf', hlater⟩ := wellFormed_initial.sameBottom (os.take k)
    obtain rfl : f = f' := by simpa [hf] using hf'
    obtain rfl : Frame.new "global" 0 = first := by
      simpa [initial, Frames.push, Frames.depth] using hfirst
    refine ⟨f, g, globals_eq_ok hf, globals_eq_ok (hsplit ▸ hg), ?_, hfg⟩
    rw [hfg.label, hlater.label]
    rfl
  · refine ⟨_, hs.snapshot_eq Frame.vars, ?_⟩
    refine snapshot_layered Frame.vars (fun f hf => (hs.frames f hf).vars)
      (map_noteAll rfl Operated.vars_follow os) ?_
    intro name
    rw [lookup_eq, List.map_findSome?]
    congr 1
    funext f
    simp [Function.comp_def]
  · refine ⟨_, hs.snapshot_eq Frame.arrays, ?_⟩
    exact snapshot_layered Frame.arrays (fun f hf => (hs.frames f hf).arrays)
      (map_noteAll rfl Operated.arrays_follow os) s.findArray_eq

end Flowchart.Scopes
