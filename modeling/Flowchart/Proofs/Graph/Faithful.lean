import Flowchart.Proofs.Graph.Renaming

/-!
# Graphs and the records they are built from

Records form a graph exactly if each of them has an id of its own and at most one is the start.
The graph then says of every block what its record says, with handles in the place of ids: a
reference to no record is dropped, and any other becomes the handle of the block it names.
-/

namespace Flowchart

/-- The kinds of block whose fields have this form. -/
def Fields.kinds : Fields → List BlockKind
  | .none => [.unknown, .start, .stop, .functionEnd]
  | .declaration _ => [.declaration]
  | .assignment .. => [.assignment]
  | .arithmetic _ => [.arithmetic]
  | .condition .. => [.branch, .whileLoop]
  | .forLoop .. => [.forLoop]
  | .output _ => [.output]
  | .function _ => [.functionStart, .functionCall]
  | .arrayDeclaration .. => [.arrayDeclaration]
  | .arrayAssignment .. => [.arrayAssignment]
  | .arrayElement .. => [.arrayElement]

theorem Fields.mem_kinds_of (k : BlockKind) (d : Data) : k ∈ (Fields.of k d).kinds := by
  cases k <;> simp [Fields.of, Fields.kinds]

def Node.link (n : Node) : Port → Option Handle
  | .next => n.next
  | .onTrue => n.onTrue
  | .onFalse => n.onFalse
  | .top => n.previous
  | .unlisted _ => none

namespace Graph

/-! ## References -/

/-- `link` stands for the reference `id`. -/
structure Refers (records : List Record) (g : Graph) (id : String)
    (link : Option Handle) : Prop where
  absent : link = none ↔ id = "" ∨ ∀ r ∈ records, r.id ≠ id
  found : ∀ h, link = some h → ∀ x, (∃ n, g.node? x = some n ∧ n.id = id) ↔ x = h

section Built

variable {records : List Record} {g : Graph}

theorem lookup_iff_node (hb : build records = .ok g) (id : String) (h : Handle) :
    g.lookup id = some h ↔ ∃ n, g.node? h = some n ∧ n.id = id := by
  rw [lookup, lookup_iff_of_build hb, node?_of_build hb]
  constructor
  · rintro ⟨r, hr, hid⟩
    exact ⟨nodeOf g.index r, by rw [hr]; rfl, hid⟩
  · rintro ⟨n, hn, hid⟩
    obtain ⟨r, hr, rfl⟩ := Option.map_eq_some_iff.mp hn
    exact ⟨r, hr, hid⟩

theorem lookup_eq_none_iff (hb : build records = .ok g) (id : String) :
    g.lookup id = none ↔ ∀ r ∈ records, r.id ≠ id := by
  rw [lookup, Option.eq_none_iff_forall_ne_some]
  constructor
  · intro hnone r hr hid
    obtain ⟨x, hx⟩ := List.mem_iff_getElem?.mp hr
    exact hnone x ((lookup_iff_of_build hb).mpr ⟨r, hx, hid⟩)
  · intro hall x hx
    obtain ⟨r, hr, hid⟩ := (lookup_iff_of_build hb).mp hx
    exact hall r (List.mem_of_getElem? hr) hid

theorem refers_resolve (hb : build records = .ok g) (id : String) :
    Refers records g id (resolve g.index id) := by
  unfold resolve
  split_ifs with hid
  · exact ⟨by simp [hid], by simp⟩
  · refine ⟨?_, ?_⟩
    · rw [or_iff_right hid]
      exact lookup_eq_none_iff hb id
    · intro h hh x
      rw [← lookup_iff_node hb, lookup, hh, Option.some.injEq, eq_comm]

theorem link_nodeOf (index : Table Handle) (r : Record) (p : Port) :
    (nodeOf index r).link p = resolve index (r.link p) := by
  cases p with
  | unlisted code => simp [Node.link, Record.link, resolve]
  | _ => rfl

/-! ## Blocks -/

/-- `n` says in the graph what `r` says among the records. -/
structure Depicts (records : List Record) (g : Graph) (r : Record) (n : Node) : Prop where
  id : n.id = r.id
  type : n.type = r.type
  title : n.title = r.title
  kind : ∀ k ≠ .unknown, n.kind = k ↔ k.tag = r.type
  links : ∀ p, Refers records g (r.link p) (n.link p)
  inputs : ∀ s, Refers records g (r.input s) (n.input s)
  form : n.kind ∈ n.fields.kinds
  texts : n.fields = Fields.of n.kind r.data

theorem depicts_nodeOf (hb : build records = .ok g) (r : Record) :
    Depicts records g r (nodeOf g.index r) where
  id := rfl
  type := rfl
  title := rfl
  kind := fun k hk => BlockKind.ofTag_eq_iff hk
  links := fun p => by
    rw [link_nodeOf]
    exact refers_resolve hb _
  inputs := fun s => by
    rw [input_nodeOf]
    exact refers_resolve hb _
  form := Fields.mem_kinds_of r.kind r.data
  texts := rfl

/-! ## Graphs -/

structure Faithful (records : List Record) (g : Graph) : Prop where
  size : g.size = records.length
  blocks : ∀ (i : Handle) r, records[i]? = some r → ∃ n, g.node? i = some n ∧ Depicts records g r n
  lookup : ∀ id h, g.lookup id = some h ↔ ∃ n, g.node? h = some n ∧ n.id = id
  start : ∀ h : Handle, g.start = some h ↔ ∃ r, records[h]? = some r ∧ r.isStart

theorem buildable_of_build (hb : build records = .ok g) : Buildable records := by
  obtain ⟨hnamed, hdistinct⟩ := ids_of_build hb
  have hstart := (startFrom_of_kind (build_parts hb).2.1).1
  exact ⟨hnamed, hdistinct, by simpa using hstart⟩

theorem faithful_of_build (hb : build records = .ok g) : Faithful records g where
  size := size_of_build hb
  blocks := by
    intro i r hr
    refine ⟨nodeOf g.index r, ?_, depicts_nodeOf hb r⟩
    rw [node?_of_build hb, hr]
    rfl
  lookup := lookup_iff_node hb
  start := by
    intro h
    simp only [start_iff_of_build hb, kind_eq_start_iff]

end Built

/-- Exactly the records that can be told apart and have one start at most form a graph, and the
graph is faithful to them. -/
theorem building_is_faithful (records : List Record) :
    ((∃ g, build records = .ok g) ↔ Buildable records) ∧
      ∀ g, build records = .ok g → Faithful records g := by
  refine ⟨⟨?_, ?_⟩, fun g => faithful_of_build⟩
  · rintro ⟨g, hb⟩
    exact buildable_of_build hb
  · intro h
    obtain ⟨g, hb, -⟩ := build_ok h
    exact ⟨g, hb⟩

/-- References forward, backward, to the block itself and to no block, and a type that is none. -/
def tangled : List Record :=
  [{ id := "w", type := "while", title := "again", onTrue := "o", onFalse := "gone",
     previous := "s", inputs := ⟨"", "x", "w", ""⟩, data := { condition := "n > 0" } },
   { id := "s", type := "start", next := "w" },
   { id := "o", type := "output", next := "o", inputs := ⟨"x", "", "", ""⟩ },
   { id := "x", type := "repeat", previous := "gone" }]

theorem building_is_faithful_tangled :
    ∃ g, build tangled = .ok g ∧ Buildable tangled ∧ Faithful tangled g ∧ g.start = some 1 ∧
      g.nodes.toList.map
          (fun n => (n.kind, [n.next, n.onTrue, n.onFalse, n.previous] ++ n.inputs.toList)) =
        [(.whileLoop, [none, some 2, none, some 1, none, some 3, some 0, none]),
         (.start, [some 0, none, none, none, none, none, none, none]),
         (.output, [some 2, none, none, none, some 3, none, none, none]),
         (.unknown, [none, none, none, none, none, none, none, none])] := by
  obtain ⟨hbuilt, hfaithful⟩ := building_is_faithful tangled
  have hb : ∃ g, build tangled = .ok g := ⟨_, rfl⟩
  obtain ⟨g, hg⟩ := hb
  refine ⟨g, hg, hbuilt.mp ⟨g, hg⟩, hfaithful g hg, ?_⟩
  cases hg
  decide

end Graph

end Flowchart
