import Flowchart.Fingerprint.Serial
import Mathlib.Data.List.Forall2

/-!
# Changes that a fingerprint shows

Values stand between quotes in the listing that a fingerprint is made of, and quotes inside of
them are not marked. A value can therefore imitate the boundary of two fields, and then two
programs share one listing. Programs whose values imitate no boundary never do.
-/

namespace Flowchart.Fingerprint

/-! ## Texts between quotes -/

/-- Behind the quote that ends a value stands a comma or the brace that ends the group. -/
def atBoundary (cs : List Char) : Bool := cs.head? == some ',' || cs.head? == some '\x7d'

/-- No quote of the text is followed by what follows the quote behind a value. -/
def isClear : List Char → Bool
  | [] => true
  | c :: cs => !(c == '"' && atBoundary cs) && isClear cs

theorem atBoundary_append {a : List Char} (ha : a ≠ []) (r : List Char) :
    atBoundary (a ++ r) = atBoundary a := by
  cases a with
  | nil => exact absurd rfl ha
  | cons c cs => rfl

theorem not_isClear_of_eq {c : Char} {b r s : List Char} (hr : atBoundary r)
    (h : '"' :: r = (c :: b) ++ '"' :: s) :
    ¬ isClear (c :: b) := by
  rw [List.cons_append, List.cons.injEq] at h
  obtain ⟨rfl, rfl⟩ := h
  cases b with
  | nil => simp [atBoundary] at hr
  | cons d b =>
    rw [atBoundary_append (List.cons_ne_nil d b)] at hr
    simp [isClear, hr]

theorem eq_of_quoted {a b r s : List Char} (ha : isClear a) (hb : isClear b) (hr : atBoundary r)
    (hs : atBoundary s) (h : a ++ '"' :: r = b ++ '"' :: s) : a = b ∧ r = s := by
  induction a generalizing b with
  | nil =>
    cases b with
    | nil => simpa using h
    | cons c b => exact absurd hb (not_isClear_of_eq hr h)
  | cons c a ih =>
    cases b with
    | nil => exact absurd ha (not_isClear_of_eq hs h.symm)
    | cons d b =>
      rw [List.cons_append, List.cons_append, List.cons.injEq] at h
      obtain ⟨rfl, h⟩ := h
      simp only [isClear, Bool.and_eq_true] at ha hb
      obtain ⟨rfl, rfl⟩ := ih ha.2 hb.2 h
      exact ⟨rfl, rfl⟩

/-! ## Fields -/

/-- Whatever stands behind the two values, the listing tells them apart. -/
def Apart (v w : String) : Prop :=
  ∀ r s, atBoundary r → atBoundary s → v.toList ++ r = w.toList ++ s → v = w ∧ r = s

theorem stringText_inj {a b : String} : stringText a = stringText b ↔ a = b := by
  simp [stringText, String.ext_iff]

theorem apart_stringText {a b : String} (ha : isClear a.toList) (hb : isClear b.toList) :
    Apart (stringText a) (stringText b) := by
  intro r s hr hs h
  have hquoted : a.toList ++ '"' :: r = b.toList ++ '"' :: s := by simpa [stringText] using h
  obtain ⟨hab, hrest⟩ := eq_of_quoted ha hb hr hs hquoted
  exact ⟨by rw [String.toList_inj.mp hab], hrest⟩

theorem toList_intercalate_comma (x : String) (xs : List String) :
    (",".intercalate (x :: xs)).toList = x.toList ++ xs.flatMap fun y => ',' :: y.toList := by
  rw [String.toList_intercalate]
  induction xs generalizing x with
  | nil => simp [List.intercalate]
  | cons y ys ih =>
    have htail := ih y
    simp only [List.map_cons, List.intercalate, List.intersperse_cons_cons, List.flatten_cons,
      List.flatMap_cons] at htail ⊢
    rw [htail]
    rfl

def fieldText (field : String × String) : List Char := field.1.toList ++ ':' :: field.2.toList

def moreFields (fields : List (String × String)) : List Char :=
  fields.flatMap fun field => ',' :: fieldText field

theorem toList_groupText (field : String × String) (fields : List (String × String)) :
    (groupText (field :: fields)).toList =
      '\x7b' :: (fieldText field ++ (moreFields fields ++ ['\x7d'])) := by
  simp only [groupText, List.map_cons, String.toList_append, toList_intercalate_comma,
    List.flatMap_map]
  simp [moreFields, fieldText]

/-- The same fields in the same order, whose values the listing tells apart. -/
abbrev Alike (fields fields' : List (String × String)) : Prop :=
  List.Forall₂ (fun f f' => f.1 = f'.1 ∧ Apart f.2 f'.2) fields fields'

theorem atBoundary_moreFields (fields : List (String × String)) (r : List Char) :
    atBoundary (moreFields fields ++ '\x7d' :: r) := by
  cases fields <;> rfl

theorem eq_of_fieldText {f f' : String × String} {r s : List Char} (h : f.1 = f'.1 ∧ Apart f.2 f'.2)
    (hr : atBoundary r) (hs : atBoundary s) (heq : fieldText f ++ r = fieldText f' ++ s) :
    f = f' ∧ r = s := by
  obtain ⟨name, value⟩ := f
  obtain ⟨name', value'⟩ := f'
  obtain ⟨rfl, hapart⟩ := h
  have hvalues : value.toList ++ r = value'.toList ++ s := by simpa [fieldText] using heq
  obtain ⟨rfl, hrest⟩ := hapart r s hr hs hvalues
  exact ⟨rfl, hrest⟩

theorem eq_of_moreFields {fields fields' : List (String × String)} {r s : List Char}
    (h : Alike fields fields')
    (heq : moreFields fields ++ '\x7d' :: r = moreFields fields' ++ '\x7d' :: s) :
    fields = fields' ∧ r = s := by
  induction h with
  | nil => simpa [moreFields] using heq
  | @cons f f' fields fields' hf h ih =>
    have htails : fieldText f ++ (moreFields fields ++ '\x7d' :: r) =
        fieldText f' ++ (moreFields fields' ++ '\x7d' :: s) := by
      simpa [moreFields] using heq
    obtain ⟨rfl, hrest⟩ :=
      eq_of_fieldText hf (atBoundary_moreFields fields r) (atBoundary_moreFields fields' s) htails
    obtain ⟨rfl, rfl⟩ := ih hrest
    exact ⟨rfl, rfl⟩

theorem eq_of_groupText {fields fields' : List (String × String)} {r s : List Char}
    (h : Alike fields fields')
    (heq : (groupText fields).toList ++ r = (groupText fields').toList ++ s) :
    fields = fields' ∧ r = s := by
  cases h with
  | nil => simpa using heq
  | @cons f f' fields fields' hf h =>
    rw [toList_groupText, toList_groupText] at heq
    have htails : fieldText f ++ (moreFields fields ++ '\x7d' :: r) =
        fieldText f' ++ (moreFields fields' ++ '\x7d' :: s) := by
      simpa using heq
    obtain ⟨rfl, hrest⟩ :=
      eq_of_fieldText hf (atBoundary_moreFields fields r) (atBoundary_moreFields fields' s) htails
    obtain ⟨rfl, rfl⟩ := eq_of_moreFields h hrest
    exact ⟨rfl, rfl⟩

theorem apart_groupText {fields fields' : List (String × String)} (h : Alike fields fields') :
    Apart (groupText fields) (groupText fields') := by
  intro r s _ _ heq
  obtain ⟨rfl, hrest⟩ := eq_of_groupText h heq
  exact ⟨rfl, hrest⟩

/-! ## Records -/

def valuesText (fields : List (String × String)) : List (String × String) :=
  fields.map fun f => (f.1, stringText f.2)

def dataFields (d : Data) : List (String × String) :=
  [("ArrayIndex", d.arrayIndex), ("ArrayName", d.arrayName), ("ArraySize", d.arraySize),
    ("Condition", d.condition),
   ("Expression", d.expression), ("FunctionName", d.functionName),
   ("Initialization", d.initialization), ("Iteration", d.iteration), ("Operator", d.operator),
   ("Value", d.value), ("VariableName", d.variableName)]

def inputFields (i : Inputs) : List (String × String) :=
  [("Index", i.index), ("Left", i.left), ("Right", i.right), ("Value", i.value)]

/-- The fields of a record itself. -/
def ownFields (r : Record) : List (String × String) :=
  [("Category", r.category), ("False", r.onFalse), ("InstanceID", r.id), ("Next", r.next),
    ("Previous", r.previous),
   ("Template", r.template), ("Title", r.title), ("True", r.onTrue), ("Type", r.type)]

def AllClear (fields : List (String × String)) : Prop := ∀ f ∈ fields, isClear f.2.toList

/-- No text of the record imitates the boundary of two fields. -/
structure Clear (r : Record) : Prop where
  own : AllClear (ownFields r)
  inputs : AllClear (inputFields r.inputs)
  data : AllClear (dataFields r.data)

instance (fields : List (String × String)) : Decidable (AllClear fields) :=
  inferInstanceAs (Decidable (∀ f ∈ fields, isClear f.2.toList))

instance (r : Record) : Decidable (Clear r) :=
  decidable_of_iff (AllClear (ownFields r) ∧ AllClear (inputFields r.inputs) ∧
    AllClear (dataFields r.data))
    ⟨fun h => ⟨h.1, h.2.1, h.2.2⟩, fun h => ⟨h.own, h.inputs, h.data⟩⟩

theorem alike_valuesText {fields fields' : List (String × String)}
    (hnames : fields.map Prod.fst = fields'.map Prod.fst) (h : AllClear fields)
    (h' : AllClear fields') : Alike (valuesText fields) (valuesText fields') := by
  induction fields generalizing fields' with
  | nil =>
    cases fields' with
    | nil => exact .nil
    | cons f' fields' => cases hnames
  | cons f fields ih =>
    cases fields' with
    | nil => cases hnames
    | cons f' fields' =>
      rw [List.map_cons, List.map_cons, List.cons.injEq] at hnames
      obtain ⟨hf, hfields⟩ := List.forall_mem_cons.mp h
      obtain ⟨hf', hfields'⟩ := List.forall_mem_cons.mp h'
      exact .cons ⟨hnames.1, apart_stringText hf hf'⟩ (ih hnames.2 hfields hfields')

theorem valuesText_inj {fields fields' : List (String × String)} :
    valuesText fields = valuesText fields' ↔ fields = fields' := by
  refine List.map_inj_right fun f f' h => ?_
  rw [Prod.mk.injEq, stringText_inj] at h
  exact Prod.ext h.1 h.2

theorem eq_of_groupText_valuesText {fields fields' : List (String × String)}
    (hnames : fields.map Prod.fst = fields'.map Prod.fst) (h : AllClear fields)
    (h' : AllClear fields') (heq : groupText (valuesText fields) = groupText (valuesText fields')) :
    fields = fields' := by
  have halike := alike_valuesText hnames h h'
  have hlists : (groupText (valuesText fields)).toList ++ [] =
      (groupText (valuesText fields')).toList ++ [] := by rw [heq]
  exact valuesText_inj.mp (eq_of_groupText halike hlists).1

theorem dataText_eq_groupText (d : Data) : dataText d = groupText (valuesText (dataFields d)) := rfl

theorem inputsText_eq_groupText (i : Inputs) :
    inputsText i = groupText (valuesText (inputFields i)) := rfl

theorem names_dataFields (d e : Data) :
    (dataFields d).map Prod.fst = (dataFields e).map Prod.fst := rfl

theorem names_inputFields (i j : Inputs) :
    (inputFields i).map Prod.fst = (inputFields j).map Prod.fst := rfl

theorem dataFields_inj {d e : Data} (h : dataFields d = dataFields e) : d = e := by
  simp only [dataFields, List.cons.injEq, Prod.mk.injEq, true_and, and_true] at h
  cases d
  cases e
  simp_all

theorem inputFields_inj {i j : Inputs} (h : inputFields i = inputFields j) : i = j := by
  simp only [inputFields, List.cons.injEq, Prod.mk.injEq, true_and, and_true] at h
  cases i
  cases j
  simp_all

section Records

variable {x y : Record}

theorem eq_of_dataText (hx : Clear x) (hy : Clear y) (h : dataText x.data = dataText y.data) :
    x.data = y.data := by
  rw [dataText_eq_groupText, dataText_eq_groupText] at h
  exact dataFields_inj (eq_of_groupText_valuesText (names_dataFields _ _) hx.data hy.data h)

theorem eq_of_inputsText (hx : Clear x) (hy : Clear y)
    (h : inputsText x.inputs = inputsText y.inputs) :
    x.inputs = y.inputs := by
  rw [inputsText_eq_groupText, inputsText_eq_groupText] at h
  exact inputFields_inj (eq_of_groupText_valuesText (names_inputFields _ _) hx.inputs hy.inputs h)

theorem eq_of_recordText {r s : List Char} (hx : Clear x) (hy : Clear y)
    (heq : (recordText x).toList ++ r = (recordText y).toList ++ s) : x = y ∧ r = s := by
  have hdata : Apart (dataText x.data) (dataText y.data) := by
    rw [dataText_eq_groupText, dataText_eq_groupText]
    exact apart_groupText (alike_valuesText (names_dataFields _ _) hx.data hy.data)
  have hinputs : Apart (inputsText x.inputs) (inputsText y.inputs) := by
    rw [inputsText_eq_groupText, inputsText_eq_groupText]
    exact apart_groupText (alike_valuesText (names_inputFields _ _) hx.inputs hy.inputs)
  have hownx := hx.own
  have howny := hy.own
  simp only [AllClear, ownFields, List.forall_mem_cons] at hownx howny
  unfold recordText at heq
  obtain ⟨hfields, hrest⟩ :=
    eq_of_groupText (by simp [Alike, apart_stringText, hownx, howny, hdata, hinputs]) heq
  simp only [List.cons.injEq, Prod.mk.injEq, true_and, and_true, stringText_inj] at hfields
  refine ⟨?_, hrest⟩
  have hd := eq_of_dataText hx hy hfields.2.1
  have hi := eq_of_inputsText hx hy hfields.2.2.2.1
  cases x
  cases y
  simp_all

end Records

/-! ## Programs -/

def moreRecords (records : List Record) : List Char :=
  records.flatMap fun r => ',' :: (recordText r).toList

theorem toList_serial (r : Record) (records : List Record) :
    (serial (r :: records)).toList =
      '[' :: ((recordText r).toList ++ (moreRecords records ++ [']'])) := by
  have hmore : (records.map recordText).flatMap (fun y => ',' :: y.toList) =
      moreRecords records := by
    simp [moreRecords, List.flatMap_map]
  simp only [serial, List.map_cons, String.toList_append, toList_intercalate_comma, hmore]
  simp

theorem eq_of_moreRecords {xs ys : List Record} (hx : ∀ x ∈ xs, Clear x) (hy : ∀ y ∈ ys, Clear y)
    (heq : moreRecords xs ++ [']'] = moreRecords ys ++ [']']) : xs = ys := by
  induction xs generalizing ys with
  | nil =>
    cases ys with
    | nil => rfl
    | cons y ys => simp [moreRecords] at heq
  | cons x xs ih =>
    cases ys with
    | nil => simp [moreRecords] at heq
    | cons y ys =>
      obtain ⟨hx, hxs⟩ := List.forall_mem_cons.mp hx
      obtain ⟨hy, hys⟩ := List.forall_mem_cons.mp hy
      have htails : (recordText x).toList ++ (moreRecords xs ++ [']']) =
          (recordText y).toList ++ (moreRecords ys ++ [']']) := by
        simpa [moreRecords] using heq
      obtain ⟨rfl, hrest⟩ := eq_of_recordText hx hy htails
      rw [ih hxs hys hrest]

theorem serial_nil_ne (r : Record) (records : List Record) : serial [] ≠ serial (r :: records) := by
  intro h
  have hlists := congrArg String.toList h
  rw [toList_serial, recordText, toList_groupText] at hlists
  simp [serial] at hlists

theorem serial_inj {xs ys : List Record} (hx : ∀ x ∈ xs, Clear x) (hy : ∀ y ∈ ys, Clear y)
    (h : serial xs = serial ys) :
    xs = ys := by
  cases xs with
  | nil =>
    cases ys with
    | nil => rfl
    | cons y ys => exact absurd h (serial_nil_ne y ys)
  | cons x xs =>
    cases ys with
    | nil => exact absurd h.symm (serial_nil_ne x xs)
    | cons y ys =>
      obtain ⟨hx, hxs⟩ := List.forall_mem_cons.mp hx
      obtain ⟨hy, hys⟩ := List.forall_mem_cons.mp hy
      have hlists := congrArg String.toList h
      rw [toList_serial, toList_serial, List.cons.injEq] at hlists
      obtain ⟨rfl, hrest⟩ := eq_of_recordText hx hy hlists.2
      rw [eq_of_moreRecords hxs hys hrest]

/-! ## Digests -/

theorem hexDigit_inj :
    ∀ m < 16, ∀ n < 16, Text.hexDigit false m = Text.hexDigit false n → m = n := by decide

theorem byteText_inj {b c : UInt8} {r s : List Char}
    (h : Text.hexText false 2 b.toNat ++ r = Text.hexText false 2 c.toNat ++ s) :
    b = c ∧ r = s := by
  have hb := b.toNat_lt
  have hc := c.toNat_lt
  simp only [Text.hexText, List.nil_append, List.cons_append, List.cons.injEq] at h
  obtain ⟨hhigh, hlow, hrest⟩ := h
  have hhigh := hexDigit_inj _ (Nat.mod_lt _ (by decide)) _ (Nat.mod_lt _ (by decide)) hhigh
  have hlow := hexDigit_inj _ (Nat.mod_lt _ (by decide)) _ (Nat.mod_lt _ (by decide)) hlow
  exact ⟨UInt8.toNat_inj.mp (by omega), hrest⟩

theorem bytesText_inj {bs cs : List UInt8}
    (h : bs.flatMap (fun b => Text.hexText false 2 b.toNat) =
      cs.flatMap fun b => Text.hexText false 2 b.toNat) :
    bs = cs := by
  induction bs generalizing cs with
  | nil =>
    cases cs with
    | nil => rfl
    | cons c cs => simp [Text.hexText] at h
  | cons b bs ih =>
    cases cs with
    | nil => simp [Text.hexText] at h
    | cons c cs =>
      rw [List.flatMap_cons, List.flatMap_cons] at h
      obtain ⟨rfl, hrest⟩ := byteText_inj h
      rw [ih hrest]

theorem byteArray_toList_loop (bs : ByteArray) (i : Nat) (r : List UInt8) :
    ByteArray.toList.loop bs i r = r.reverse ++ bs.data.toList.drop i := by
  fun_induction ByteArray.toList.loop bs i r with
  | case1 i r h ih =>
    have hi : i < bs.data.toList.length := h
    have hget : bs.get! i = bs.data.toList[i] := by
      simp [ByteArray.get!, getElem!_pos bs.data i (by simpa using hi)]
    rw [ih, List.drop_eq_getElem_cons hi, List.reverse_cons, List.append_assoc, hget]
    rfl
  | case2 i r h =>
    have hi : bs.data.toList.length ≤ i := Nat.le_of_not_lt h
    simp [List.drop_eq_nil_of_le hi]

theorem byteArray_toList_inj {a b : ByteArray} (h : a.toList = b.toList) : a = b := by
  simp only [ByteArray.toList, byteArray_toList_loop, List.reverse_nil, List.drop_zero,
    List.nil_append, Array.toList_inj] at h
  exact ByteArray.ext h

/-- The bytes whose digest is the fingerprint. -/
def message (records : List Record) : List UInt8 := (serial records).toUTF8.toList

theorem digest_of_fingerprint {xs ys : List Record} (h : fingerprint xs = fingerprint ys) :
    digest (message xs) = digest (message ys) := by
  rw [fingerprint, fingerprint, String.append_right_inj] at h
  exact bytesText_inj (String.ofList_injective h)

/-- Two programs whose texts imitate no boundary differ in the listings that are digested, so that
their fingerprints differ, unless the digests of two different messages are the same. -/
theorem changes_are_noticed {xs ys : List Record} (hx : ∀ x ∈ xs, Clear x) (hy : ∀ y ∈ ys, Clear y)
    (hne : xs ≠ ys) :
    serial xs ≠ serial ys ∧
      (fingerprint xs = fingerprint ys →
        message xs ≠ message ys ∧ digest (message xs) = digest (message ys)) := by
  have hserial : serial xs ≠ serial ys := fun h => hne (serial_inj hx hy h)
  refine ⟨hserial, fun h => ⟨?_, digest_of_fingerprint h⟩⟩
  intro hmessage
  have hbytes := byteArray_toList_inj hmessage
  rw [String.toUTF8_eq_toByteArray, String.toUTF8_eq_toByteArray, String.toByteArray_inj] at hbytes
  exact hserial hbytes

/-- A block that shows a text, with a condition it does not use. -/
def shown (condition expression : String) : List Record :=
  [{ id := "s", type := "start", next := "o" },
   { id := "o", type := "output", data := { condition, expression } }]

/-- Quotes, commas and braces as such do no harm. -/
theorem changes_are_noticed_quotation :
    (∀ r ∈ shown "" "say \"a, b\" \x7bc\x7d", Clear r) ∧
      (∀ r ∈ shown "" "say \"a\" \x7bb, c\x7d", Clear r) ∧
      serial (shown "" "say \"a, b\" \x7bc\x7d") ≠ serial (shown "" "say \"a\" \x7bb, c\x7d") := by
  have hx : ∀ r ∈ shown "" "say \"a, b\" \x7bc\x7d", Clear r := by decide +kernel
  have hy : ∀ r ∈ shown "" "say \"a\" \x7bb, c\x7d", Clear r := by decide +kernel
  exact ⟨hx, hy, (changes_are_noticed hx hy (by decide)).1⟩

/-- A quote and a comma move the boundary between two fields, and no listing shows it. -/
theorem moved_boundary_is_not_noticed :
    shown "a\",Expression:\"b" "c" ≠ shown "a" "b\",Expression:\"c" ∧
      serial (shown "a\",Expression:\"b" "c") = serial (shown "a" "b\",Expression:\"c") ∧
      fingerprint (shown "a\",Expression:\"b" "c") =
      fingerprint (shown "a" "b\",Expression:\"c") := by
  have hserial : serial (shown "a\",Expression:\"b" "c") =
      serial (shown "a" "b\",Expression:\"c") := by decide +kernel
  refine ⟨by decide, hserial, ?_⟩
  rw [fingerprint, fingerprint, hserial]

end Flowchart.Fingerprint
