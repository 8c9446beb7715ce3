import Flowchart.Proofs.Document.Reading
import Mathlib.Data.List.Nodup

/-!
# Programs read back

Decoding undoes encoding: every field of a record has a key of its own, and a field that is
left out because it is empty is empty when it is not found.
-/

namespace Flowchart.Document

/-! ## Fields -/

/-- The entries of a map with fields in order, of which some are left out. -/
def present (fields : List (String × Option Node)) : List (String × Node) :=
  fields.filterMap fun f => f.2.map fun node => (f.1, node)

def textEntry (e : String × Node) : Node × Node := (.text e.1, e.2)

def optionalText (value : String) : Option Node := if value = "" then none else some (.text value)

def optionalGroup (entries : List (Node × Node)) : Option Node :=
  if entries.isEmpty then none else some (.map entries)

theorem map_present_cons (key : String) (value : Option Node)
    (fields : List (String × Option Node)) :
    (present ((key, value) :: fields)).map textEntry =
      (value.map fun node => (.text key, node)).toList ++ (present fields).map textEntry := by
  cases value <;> rfl

theorem optionalEntry_eq (key value : String) :
    optionalEntry key value = ((optionalText value).map fun node => (.text key, node)).toList := by
  unfold optionalEntry optionalText
  split <;> rfl

theorem groupEntry_eq (key : String) (entries : List (Node × Node)) :
    groupEntry key entries =
      ((optionalGroup entries).map fun node => (.text key, node)).toList := by
  unfold groupEntry optionalGroup
  split <;> rfl

theorem distinct_iff (keys : List String) : distinct keys ↔ keys.Nodup := by
  induction keys with
  | nil => simp [distinct]
  | cons key keys ih => simp [distinct, ih]

theorem keys_present (fields : List (String × Option Node)) :
    ((present fields).map Prod.fst).Sublist (fields.map Prod.fst) := by
  induction fields with
  | nil => exact List.Sublist.slnil
  | cons field fields ih =>
    obtain ⟨key, value⟩ := field
    cases value with
    | none => exact ih.cons key
    | some node => exact ih.cons_cons key

theorem mapM_keyName (entries : List (String × Node)) :
    ((entries.map textEntry).mapM fun e => (keyName? e.1).map fun name => (name, e.2)) =
      some (entries.map fun e => (some e.1, e.2)) := by
  induction entries with
  | nil => rfl
  | cons e entries ih =>
    rw [List.map_cons, List.mapM_cons, ih]
    rfl

theorem namedEntries_present {fields : List (String × Option Node)}
    (hkeys : (fields.map Prod.fst).Nodup) :
    namedEntries? ((present fields).map textEntry) = some (present fields) := by
  have hdistinct : distinct (((present fields).map textEntry).map fun e => keySpelling e.1) := by
    rw [distinct_iff, List.map_map]
    exact hkeys.sublist (keys_present fields)
  unfold namedEntries?
  rw [if_pos hdistinct, mapM_keyName]
  simp [List.filterMap_map]

theorem lookup_present {fields : List (String × Option Node)} (hkeys : (fields.map Prod.fst).Nodup)
    (key : String) :
    (present fields).lookup key = (fields.lookup key).join := by
  induction fields with
  | nil => rfl
  | cons field fields ih =>
    obtain ⟨other, value⟩ := field
    obtain ⟨hfresh, hrest⟩ := List.nodup_cons.mp hkeys
    by_cases heq : key = other
    · subst heq
      cases value with
      | some node => simp [present]
      | none =>
        -- The key occurs in no other field.
        have hnone : ∀ e ∈ present fields, key ≠ e.1 := by
          rintro e he rfl
          exact hfresh ((keys_present fields).subset (List.mem_map_of_mem he))
        simpa [present, List.lookup_eq_none_iff] using hnone
    · have hbeq : (key == other) = false := by simpa using heq
      rw [List.lookup_cons, hbeq, ← ih hrest]
      cases value with
      | none => rfl
      | some node =>
        have hcons : present ((other, some node) :: fields) = (other, node) :: present fields := rfl
        rw [hcons, List.lookup_cons, hbeq]

/-- The text of a field; one that is left out is empty. -/
def fieldText? (value : Option Node) : Option String := value.elim (some "") text?

theorem fieldText_optional (value : String) : fieldText? (optionalText value) = some value := by
  unfold optionalText
  split
  · rename_i h
    rw [h]
    rfl
  · rfl

theorem fieldText_text (value : String) : fieldText? (some (.text value)) = some value := rfl

theorem textField_present {fields : List (String × Option Node)}
    (hkeys : (fields.map Prod.fst).Nodup) (key : String) :
    textField? (present fields) key = fieldText? (fields.lookup key).join := by
  unfold textField?
  rw [lookup_present hkeys]
  cases (fields.lookup key).join <;> rfl

theorem group_optional (entries : List (Node × Node)) :
    group? (optionalGroup entries) = namedEntries? entries := by
  cases entries <;> rfl

/-! ## Records -/

def inputFields (i : Inputs) : List (String × Option Node) :=
  [("valueInputId", optionalText i.value), ("leftInputId", optionalText i.left),
    ("rightInputId", optionalText i.right), ("indexInputId", optionalText i.index)]

def dataFields (d : Data) : List (String × Option Node) :=
  [("variableName", optionalText d.variableName), ("value", optionalText d.value),
    ("condition", optionalText d.condition), ("operator", optionalText d.operator),
    ("expression", optionalText d.expression), ("initialization", optionalText d.initialization),
    ("iteration", optionalText d.iteration), ("functionName", optionalText d.functionName),
    ("arrayName", optionalText d.arrayName), ("arraySize", optionalText d.arraySize),
    ("arrayIndex", optionalText d.arrayIndex)]

def recordFields (r : Record) : List (String × Option Node) :=
  [("instanceId", some (.text r.id)), ("id", optionalText r.template),
    ("type", some (.text r.type)), ("title", optionalText r.title),
    ("category", optionalText r.category), ("nextBlockId", optionalText r.next),
    ("trueBlockId", optionalText r.onTrue), ("falseBlockId", optionalText r.onFalse),
    ("previousBlockId", optionalText r.previous),
    ("inputConnections", optionalGroup (inputEntries r.inputs)),
    ("data", optionalGroup (dataEntries r.data))]

theorem inputEntries_eq (i : Inputs) :
    inputEntries i = (present (inputFields i)).map textEntry := by
  simp only [inputEntries, inputFields, map_present_cons, optionalEntry_eq, List.append_assoc]
  simp [present]

theorem dataEntries_eq (d : Data) : dataEntries d = (present (dataFields d)).map textEntry := by
  simp only [dataEntries, dataFields, map_present_cons, optionalEntry_eq, List.append_assoc]
  simp [present]

theorem ofRecord_eq (r : Record) :
    ofRecord r = .map ((present (recordFields r)).map textEntry) := by
  simp only [ofRecord, recordFields, map_present_cons, optionalEntry_eq, groupEntry_eq,
    List.append_assoc]
  simp [present]

theorem nodup_inputFields (i : Inputs) :
    ((inputFields i).map Prod.fst).Nodup := by simp [inputFields]

theorem nodup_dataFields (d : Data) : ((dataFields d).map Prod.fst).Nodup := by simp [dataFields]

theorem nodup_recordFields (r : Record) :
    ((recordFields r).map Prod.fst).Nodup := by simp [recordFields]

theorem inputsOf_present (i : Inputs) : inputsOf? (present (inputFields i)) = some i := by
  simp only [inputsOf?, textField_present (nodup_inputFields i)]
  simp [inputFields, List.lookup_cons, fieldText_optional]

theorem dataOf_present (d : Data) : dataOf? (present (dataFields d)) = some d := by
  simp only [dataOf?, textField_present (nodup_dataFields d)]
  simp [dataFields, List.lookup_cons, fieldText_optional]

theorem recordOf_present (r : Record) : recordOf? (present (recordFields r)) = some r := by
  have hinputs : group? ((recordFields r).lookup "inputConnections").join =
      some (present (inputFields r.inputs)) := by
    have hlookup : (recordFields r).lookup "inputConnections" =
        some (optionalGroup (inputEntries r.inputs)) := by
      simp [recordFields, List.lookup_cons]
    rw [hlookup, Option.join_some, group_optional, inputEntries_eq,
      namedEntries_present (nodup_inputFields _)]
  have hdata : group? ((recordFields r).lookup "data").join =
      some (present (dataFields r.data)) := by
    have hlookup : (recordFields r).lookup "data" = some (optionalGroup (dataEntries r.data)) := by
      simp [recordFields, List.lookup_cons]
    rw [hlookup, Option.join_some, group_optional, dataEntries_eq,
      namedEntries_present (nodup_dataFields _)]
  simp only [recordOf?, textField_present (nodup_recordFields r),
    lookup_present (nodup_recordFields r), hinputs, hdata]
  simp [recordFields, List.lookup_cons, fieldText_optional, fieldText_text, inputsOf_present,
    dataOf_present]

theorem item_ofRecord (r : Record) : item? (ofRecord r) = some (some r) := by
  simp only [ofRecord_eq, item?, namedEntries_present (nodup_recordFields r)]
  simp [recordOf_present]

theorem records_ofRecord (records : List Record) :
    records? (records.map ofRecord) = some records := by
  have hitems : (records.map ofRecord).mapM item? = some (records.map some) := by
    induction records with
    | nil => rfl
    | cons r records ih =>
      rw [List.map_cons, List.mapM_cons, item_ofRecord, ih]
      rfl
  unfold records?
  rw [hitems]
  simp

/-! ## Programs -/

def programFields (name : String) (records : List Record) : List (String × Option Node) :=
  [("name", optionalText name), ("blocks", some (.list (records.map ofRecord)))]

theorem ofProgram_eq (name : String) (records : List Record) :
    ofProgram name records = .map ((present (programFields name records)).map textEntry) := by
  simp only [ofProgram, programFields, map_present_cons, optionalEntry_eq]
  simp [present]

theorem decodeNode_ofProgram (name : String) (records : List Record) :
    decodeNode (ofProgram name records) = .ok records := by
  have hkeys : ((programFields name records).map Prod.fst).Nodup := by simp [programFields]
  rw [ofProgram_eq]
  simp only [decodeNode, namedEntries_present hkeys, Option.bind_eq_bind, Option.bind_some,
    textField_present hkeys, lookup_present hkeys]
  simp [programFields, List.lookup_cons, fieldText_optional, blocks?, records_ofRecord]

theorem decodeNode_list (records : List Record) :
    decodeNode (.list (records.map ofRecord)) = .ok records := by
  simp only [decodeNode, records_ofRecord]

theorem decode_of_parse {text : String} {node : Node} (h : parse text = .ok (some node)) :
    decode text = decodeNode node := by
  simp only [decode, h]

/-! ## Texts -/

mutual

/-- Equality of nodes, as it is computed. -/
def Node.same : Node → Node → Bool
  | .null s, .null t => s == t
  | .text s, .text t => s == t
  | .list xs, .list ys => sameItems xs ys
  | .map es, .map fs => sameEntries es fs
  | _, _ => false

def sameItems : List Node → List Node → Bool
  | [], [] => true
  | x :: xs, y :: ys => x.same y && sameItems xs ys
  | _, _ => false

def sameEntries : List (Node × Node) → List (Node × Node) → Bool
  | [], [] => true
  | (k, v) :: es, (l, w) :: fs => k.same l && v.same w && sameEntries es fs
  | _, _ => false

end

mutual

theorem same_iff : (x y : Node) → (x.same y ↔ x = y)
  | .null s, y => by cases y <;> simp [Node.same]
  | .text s, y => by cases y <;> simp [Node.same]
  | .list xs, y => by cases y <;> simp [Node.same, sameItems_iff]
  | .map es, y => by cases y <;> simp [Node.same, sameEntries_iff]

theorem sameItems_iff : (xs ys : List Node) → (sameItems xs ys ↔ xs = ys)
  | [], ys => by cases ys <;> simp [sameItems]
  | x :: xs, ys => by cases ys <;> simp [sameItems, same_iff x, sameItems_iff xs]

theorem sameEntries_iff : (es fs : List (Node × Node)) → (sameEntries es fs ↔ es = fs)
  | [], fs => by cases fs <;> simp [sameEntries]
  | (k, v) :: es, fs => by
    cases fs with
    | nil => simp [sameEntries]
    | cons f fs => simp [sameEntries, same_iff k, same_iff v, sameEntries_iff es, Prod.ext_iff]

end

instance : DecidableEq Node := fun x y => decidable_of_iff _ (same_iff x y)

/-- The document can be told from its text. Not all can: a text that begins with a line break loses
it. -/
def Survives (node : Node) : Prop := parse (String.ofList (nodeLines 0 node)) = .ok (some node)

instance (node : Node) : Decidable (Survives node) :=
  inferInstanceAs (Decidable (parse (String.ofList (nodeLines 0 node)) = .ok (some node)))

/-! ### Texts of one line -/

def isLinear (s : String) : Bool := s.toList.all fun c => !isBreak c

def inputTexts (i : Inputs) : List String := [i.value, i.left, i.right, i.index]

def dataTexts (d : Data) : List String :=
  [d.variableName, d.value, d.condition, d.operator, d.expression, d.initialization, d.iteration,
    d.functionName, d.arrayName, d.arraySize, d.arrayIndex]

/-- All texts of a record. -/
def recordTexts (r : Record) : List String :=
  [r.id, r.template, r.type, r.title, r.category, r.next, r.onTrue, r.onFalse, r.previous] ++
    inputTexts r.inputs ++ dataTexts r.data

theorem legible_text {s : String} (h : isLinear s) : Legible (.text s) := by
  refine .text fun c hc => ?_
  simpa using List.all_eq_true.mp h c hc

/-- A field with a key that can be read, and a value that can if there is one. -/
structure LegibleField (f : String × Option Node) : Prop where
  key : isKey f.1
  value : ∀ x ∈ f.2, Legible x

theorem legible_present {fields : List (String × Option Node)} (h : ∀ f ∈ fields, LegibleField f) :
    Legible (.map ((present fields).map textEntry)) := by
  have hentry : ∀ e ∈ (present fields).map textEntry, (∃ k, e.1 = .text k ∧ isKey k) ∧
      Legible e.2 := by
    intro e he
    obtain ⟨e, hmem, rfl⟩ := List.mem_map.mp he
    obtain ⟨⟨key, value⟩, hfield, hsome⟩ := List.mem_filterMap.mp hmem
    obtain ⟨x, rfl, rfl⟩ := Option.map_eq_some_iff.mp hsome
    obtain ⟨hkey, hvalue⟩ := h _ hfield
    exact ⟨⟨key, rfl, hkey⟩, hvalue x rfl⟩
  exact .map (fun e he => (hentry e he).1) (fun e he => (hentry e he).2)

theorem legibleField_some {key : String} {x : Node} (hkey : isKey key) (h : Legible x) :
    LegibleField (key, some x) :=
  ⟨hkey, by simpa using h⟩

theorem legibleField_optional {key value : String} (hkey : isKey key) (h : isLinear value) :
    LegibleField (key, optionalText value) := by
  refine ⟨hkey, fun x hx => ?_⟩
  unfold optionalText at hx
  split at hx
  · cases hx
  · cases hx
    exact legible_text h

theorem legibleField_group {key : String} {fields : List (String × Option Node)} (hkey : isKey key)
    (h : ∀ f ∈ fields, LegibleField f) :
    LegibleField (key, optionalGroup ((present fields).map textEntry)) := by
  refine ⟨hkey, fun x hx => ?_⟩
  unfold optionalGroup at hx
  split at hx
  · cases hx
  · cases hx
    exact legible_present h

theorem legible_inputFields {i : Inputs} (h : ∀ s ∈ inputTexts i, isLinear s) :
    ∀ f ∈ inputFields i, LegibleField f := by
  simp only [inputTexts, List.forall_mem_cons] at h
  simp only [inputFields, List.forall_mem_cons]
  and_intros <;> first | exact legibleField_optional (by decide) (by simp only [h]) | simp

theorem legible_dataFields {d : Data} (h : ∀ s ∈ dataTexts d, isLinear s) :
    ∀ f ∈ dataFields d, LegibleField f := by
  simp only [dataTexts, List.forall_mem_cons] at h
  simp only [dataFields, List.forall_mem_cons]
  and_intros <;> first | exact legibleField_optional (by decide) (by simp only [h]) | simp

theorem legible_ofRecord {r : Record} (h : ∀ s ∈ recordTexts r, isLinear s) :
    Legible (ofRecord r) := by
  simp only [recordTexts, List.forall_mem_append, List.forall_mem_cons] at h
  obtain ⟨⟨htexts, hinputs⟩, hdata⟩ := h
  rw [ofRecord_eq]
  refine legible_present ?_
  simp only [recordFields, inputEntries_eq, dataEntries_eq, List.forall_mem_cons]
  and_intros <;> first
    | exact legibleField_optional (by decide) (by simp only [htexts])
    | exact legibleField_some (by decide) (legible_text (by simp only [htexts]))
    | exact legibleField_group (by decide) (legible_inputFields hinputs)
    | exact legibleField_group (by decide) (legible_dataFields hdata)
    | simp

theorem legible_ofRecords {records : List Record}
    (h : ∀ s ∈ records.flatMap recordTexts, isLinear s) :
    Legible (.list (records.map ofRecord)) := by
  refine .list fun x hx => ?_
  obtain ⟨r, hr, rfl⟩ := List.mem_map.mp hx
  exact legible_ofRecord fun s hs => h s (List.mem_flatMap.mpr ⟨r, hr, hs⟩)

theorem legible_ofProgram {name : String} {records : List Record}
    (h : ∀ s ∈ name :: records.flatMap recordTexts, isLinear s) :
    Legible (ofProgram name records) := by
  rw [List.forall_mem_cons] at h
  rw [ofProgram_eq]
  refine legible_present ?_
  simp only [programFields, List.forall_mem_cons]
  exact ⟨legibleField_optional (by decide) h.1,
    legibleField_some (by decide) (legible_ofRecords h.2), by simp⟩

/-- The records of a program are those it was made of, whether the document is that of the program
or the bare list of its blocks. The same holds of its text, provided that the document survives in
it, and it does if no text of the program has a line break. -/
theorem decoding_undoes_encoding (name : String) (records : List Record) :
    decodeNode (ofProgram name records) = .ok records ∧
    decodeNode (.list (records.map ofRecord)) = .ok records ∧
    (Survives (ofProgram name records) → decode (encode name records) = .ok records) ∧
    (∀ text, parse text = .ok (some (.list (records.map ofRecord))) → decode text = .ok records) ∧
    ((∀ s ∈ name :: records.flatMap recordTexts, isLinear s) →
      decode (encode name records) = .ok records ∧
      decode (String.ofList (nodeLines 0 (.list (records.map ofRecord)))) = .ok records) := by
  refine ⟨decodeNode_ofProgram name records, decodeNode_list records, fun h => ?_, fun text h => ?_,
    fun h => ⟨?_, ?_⟩⟩
  · rw [encode, decode_of_parse h, decodeNode_ofProgram]
  · rw [decode_of_parse h, decodeNode_list]
  · rw [encode, decode_of_parse (parse_nodeLines (legible_ofProgram h)), decodeNode_ofProgram]
  · have hrecords : ∀ s ∈ records.flatMap recordTexts, isLinear s := (List.forall_mem_cons.mp h).2
    rw [decode_of_parse (parse_nodeLines (legible_ofRecords hrecords)), decodeNode_list]

example : ¬ Survives (ofProgram "\na" []) := by decide +kernel

/-- Texts that look like a null, a key and an item, and one of several lines. -/
def lookalikes : List Record :=
  [{ id := "~", type := "a: b" }, { id := "- c", type := "", data := { value := "d\ne" } }]

theorem decoding_undoes_encoding_lookalikes :
    Survives (ofProgram "" lookalikes) ∧ decode (encode "" lookalikes) = .ok lookalikes ∧
      Survives (.list (lookalikes.map ofRecord)) ∧
      decode (String.ofList (nodeLines 0 (.list (lookalikes.map ofRecord)))) = .ok lookalikes ∧
      decode (encode "#" (lookalikes.take 1)) = .ok (lookalikes.take 1) := by
  have hprogram : Survives (ofProgram "" lookalikes) := by decide +kernel
  have hlist : Survives (.list (lookalikes.map ofRecord)) := by decide +kernel
  obtain ⟨-, -, htext, hbare, -⟩ := decoding_undoes_encoding "" lookalikes
  obtain ⟨-, -, -, -, hlinear⟩ := decoding_undoes_encoding "#" (lookalikes.take 1)
  exact ⟨hprogram, htext hprogram, hlist, hbare _ hlist, (hlinear (by decide)).1⟩

end Flowchart.Document
