import Flowchart.Proofs.Document.Layout

/-!
# Nodes read back

The lines of a node are read as the lexemes of the node, and the lexemes are put together to the
node again. Texts have to be of one line and keys have to be words.
-/

namespace Flowchart.Document

/-! ## Nodes and their lexemes -/

/-- The nodes whose lines can be read back. -/
inductive Legible : Node → Prop
  | text {s : String} (hs : ∀ c ∈ s.toList, isBreak c = false) : Legible (.text s)
  | list {xs : List Node} (hitems : ∀ x ∈ xs, Legible x) : Legible (.list xs)
  | map {es : List (Node × Node)} (hkeys : ∀ e ∈ es, ∃ k, e.1 = .text k ∧ isKey k)
      (hvalues : ∀ e ∈ es, Legible e.2) : Legible (.map es)

/-- Nodes that are written in lines of their own. -/
def Node.isBlock : Node → Bool
  | .list (_ :: _) | .map (_ :: _) => true
  | _ => false

mutual

def nodeLexemes : Node → List Lexeme
  | .null s => [.scalar s true]
  | .text s => [.scalar s (Style.of s = .plain)]
  | .list [] => [.openList, .closeList]
  | .list (x :: xs) => .listStart :: itemLexemes (x :: xs) ++ [.blockEnd]
  | .map [] => [.openMap, .closeMap]
  | .map (e :: es) => .mapStart :: entryLexemes (e :: es) ++ [.blockEnd]

def itemLexemes : List Node → List Lexeme
  | [] => []
  | x :: xs => .entry :: nodeLexemes x ++ itemLexemes xs

def entryLexemes : List (Node × Node) → List Lexeme
  | [] => []
  | (k, v) :: es =>
    .key :: .scalar (String.ofList (keyText k)) true :: .value :: nodeLexemes v ++ entryLexemes es

end

/-! ## Lines of nodes -/

section Lines

variable (column : Nat) (x y : Node) (xs : List Node) (k v : Node) (e : Node × Node)
  (es : List (Node × Node))

theorem nodeLines_text (s : String) : nodeLines column (.text s) = scalarLines column s := rfl

theorem nodeLines_list : nodeLines column (.list (x :: xs)) = itemLines column (x :: xs) := rfl

theorem nodeLines_map : nodeLines column (.map (e :: es)) = entryLines column (e :: es) := rfl

theorem itemLines_singleton :
    itemLines column [x] = '-' :: ' ' :: nodeLines (column + 2) x := rfl

theorem itemLines_cons_cons :
    itemLines column (x :: y :: xs) =
      '-' :: ' ' :: nodeLines (column + 2) x ++ blanks column ++ itemLines column (y :: xs) := rfl

theorem entryLines_singleton :
    entryLines column [(k, v)] = keyText k ++ ':' :: valueLines column v := rfl

theorem entryLines_cons_cons :
    entryLines column ((k, v) :: e :: es) =
      keyText k ++ ':' :: valueLines column v ++ blanks column ++ entryLines column (e :: es) := rfl

theorem valueLines_eq :
    valueLines column v =
      if v.isBlock then '\n' :: (blanks (column + 2) ++ nodeLines (column + 2) v)
      else ' ' :: nodeLines (column + 2) v := by
  match v with
  | .null s => rfl
  | .text s => rfl
  | .list [] => rfl
  | .list (x :: xs) => rfl
  | .map [] => rfl
  | .map (e :: es) => rfl

end Lines

theorem endsWord_valueLines (column : Nat) (v : Node) (rest : List Char) :
    endsWord (valueLines column v ++ rest) := by
  rw [valueLines_eq]
  split <;> rfl

theorem writable_of_allowsSingle {cs : List Char} (h : allowsSingle cs) :
    ∀ c ∈ cs, isWritable c := by
  simp only [allowsSingle, hasSpecial, Bool.not_eq_true', Bool.or_eq_false_iff,
    List.contains_eq_mem, decide_eq_false_iff_not, List.any_eq_false] at h
  obtain ⟨⟨-, htab⟩, hspecial⟩ := h
  intro c hc
  have hne : c ≠ '\t' := by
    rintro rfl
    exact htab hc
  simpa [hne] using hspecial c hc

theorem visible_of_allowsPlain {c : Char} {cs : List Char} (h : allowsPlain (c :: cs))
    (hbreak : ∀ d ∈ c :: cs, isBreak d = false) : Visible c := by
  obtain ⟨hgap, hmark, -⟩ := Scanner.allowsPlain_cons h hbreak
  refine ⟨hbreak c (by simp), hgap, ?_, ?_⟩
  · rintro rfl
    exact hmark (by decide)
  · rintro rfl
    have hwritable := writable_of_allowsSingle (Bool.and_eq_true_iff.mp h).1 byteOrderMark (by simp)
    exact absurd hwritable (by decide)

theorem visible_scalarLines (indent : Nat) {s : String}
    (hbreak : ∀ c ∈ s.toList, isBreak c = false) :
    ∃ c cs, scalarLines indent s = c :: cs ∧ Visible c := by
  rcases Scanner.style_of_linear hbreak with ⟨hstyle, -, hplain⟩ | ⟨hstyle, -⟩ | hstyle
  · simp only [scalarLines, hstyle]
    cases hcs : s.toList with
    | nil => simp [hcs, allowsPlain, startsWithMark] at hplain
    | cons c cs =>
      rw [hcs] at hplain hbreak
      exact ⟨c, _, rfl, visible_of_allowsPlain hplain hbreak⟩
  · simp only [scalarLines, hstyle, singleQuoted, List.cons_append]
    exact ⟨_, _, rfl, by constructor <;> decide⟩
  · simp only [scalarLines, hstyle, doubleQuoted, List.cons_append]
    exact ⟨_, _, rfl, by constructor <;> decide⟩

theorem itemLines_cons (column : Nat) (x : Node) (xs : List Node) :
    ∃ cs, itemLines column (x :: xs) = '-' :: ' ' :: cs := by
  cases xs with
  | nil => exact ⟨_, rfl⟩
  | cons y ys => exact ⟨_, rfl⟩

theorem visible_key {key : String} (h : isKey key) : ∃ c cs, key.toList = c :: cs ∧ Visible c := by
  obtain ⟨⟨⟨hne, halpha⟩, -⟩, -⟩ := Scanner.isKey_iff.mp h
  cases hcs : key.toList with
  | nil => exact absurd (String.toList_eq_nil_iff.mp hcs) hne
  | cons c cs => exact ⟨c, cs, rfl, Scanner.visible_of_isAlpha (halpha c (by simp [hcs]))⟩

theorem visible_entryLines (column : Nat) {e : Node × Node} (he : ∃ k, e.1 = .text k ∧ isKey k)
    (es : List (Node × Node)) : ∃ c cs, entryLines column (e :: es) = c :: cs ∧ Visible c := by
  obtain ⟨k, v⟩ := e
  obtain ⟨key, rfl, hkey⟩ := he
  obtain ⟨c, cs, hcs, hc⟩ := visible_key hkey
  cases es with
  | nil =>
    rw [entryLines_singleton, keyText, hcs]
    exact ⟨c, _, rfl, hc⟩
  | cons e es =>
    rw [entryLines_cons_cons, keyText, hcs]
    exact ⟨c, _, rfl, hc⟩

theorem Legible.visible (column : Nat) {x : Node} (h : Legible x) :
    ∃ c cs, nodeLines column x = c :: cs ∧ Visible c := by
  cases h with
  | text hs => exact visible_scalarLines column hs
  | @list xs hitems =>
    cases xs with
    | nil => exact ⟨'[', _, rfl, by constructor <;> decide⟩
    | cons x xs =>
      obtain ⟨cs, hcs⟩ := itemLines_cons column x xs
      exact ⟨'-', _, hcs, by constructor <;> decide⟩
  | @map es hkeys hvalues =>
    cases es with
    | nil => exact ⟨'\x7b', _, rfl, by constructor <;> decide⟩
    | cons e es => exact visible_entryLines column (hkeys e (by simp)) es

/-! ## Characters of nodes -/

theorem writable_hexText (width n : Nat) : (Text.hexText true width n).all isWritable := by
  have hdigit : ∀ d < 16, isWritable (Text.hexDigit true d) := by decide
  induction width generalizing n with
  | zero => rfl
  | succ width ih => simp [Text.hexText, ih, hdigit (n % 16) (Nat.mod_lt n (by decide))]

theorem writable_escapeScalarChar (c : Char) : (escapeScalarChar c).all isWritable := by
  have hmarks : isWritable '\\' ∧ isWritable 'x' ∧ isWritable 'u' ∧ isWritable 'U' := by decide
  unfold escapeScalarChar
  cases hl : escapeLetter? c with
  | some l => simp [hmarks, (simpleEscape?_of_letter hl).2.2]
  | none =>
    dsimp only
    split_ifs with hwritable
    · simpa using hwritable
    · simp only [List.all_cons, hmarks, writable_hexText, Bool.and_self]
    · simp only [List.all_cons, hmarks, writable_hexText, Bool.and_self]
    · simp only [List.all_cons, hmarks, writable_hexText, Bool.and_self]

theorem writable_scalarLines (indent : Nat) {s : String}
    (hbreak : ∀ c ∈ s.toList, isBreak c = false) :
    (scalarLines indent s).all isWritable := by
  have hmarks : isWritable '\n' ∧ isWritable '\'' ∧ isWritable '"' := by decide
  rcases Scanner.style_of_linear hbreak with ⟨hstyle, -, hplain⟩ | ⟨hstyle, hsingle⟩ | hstyle
  · have hwritable := writable_of_allowsSingle (Bool.and_eq_true_iff.mp hplain).1
    simpa [scalarLines, hstyle, hmarks] using hwritable
  · have hwritable := writable_of_allowsSingle hsingle
    have hchar (c : Char) (hc : isWritable c) : (singleChar c).all isWritable := by
      unfold singleChar
      split <;> simp [hc, hmarks]
    simpa [scalarLines, hstyle, singleQuoted, singleBody_eq indent hbreak, hmarks] using
      fun c hc => List.all_eq_true.mp (hchar c (hwritable c hc))
  · simpa [scalarLines, hstyle, doubleQuoted, hmarks] using
      fun c _ => List.all_eq_true.mp (writable_escapeScalarChar c)

theorem writable_of_isAlpha {c : Char} (h : c.isAlpha) : isWritable c := by
  have hrange : 0x20 ≤ c.toNat ∧ c.toNat ≤ 0x7E := by
    unfold Char.isAlpha Char.isUpper Char.isLower at h
    simp only [Bool.or_eq_true, Bool.and_eq_true, decide_eq_true_eq, UInt32.le_iff_toNat_le,
      ge_iff_le] at h
    change 65 ≤ c.toNat ∧ c.toNat ≤ 90 ∨ 97 ≤ c.toNat ∧ c.toNat ≤ 122 at h
    omega
  simp [isWritable, hrange]

theorem writable_blanks (n : Nat) : (blanks n).all isWritable := by
  simp [blanks, show isWritable ' ' by decide]

theorem writable_valueLines {column : Nat} {v : Node}
    (h : (nodeLines (column + 2) v).all isWritable) :
    (valueLines column v).all isWritable := by
  have hmarks : isWritable '\n' ∧ isWritable ' ' := by decide
  rw [valueLines_eq]
  split
  · rw [List.all_cons, List.all_append, hmarks.1, writable_blanks, h]
    rfl
  · rw [List.all_cons, hmarks.2, h]
    rfl

theorem writable_itemLines {column : Nat} {xs : List Node}
    (h : ∀ x ∈ xs, (nodeLines (column + 2) x).all isWritable) :
    (itemLines column xs).all isWritable := by
  have hmarks : isWritable '-' ∧ isWritable ' ' := by decide
  induction xs with
  | nil => rfl
  | cons x xs ih =>
    rw [List.forall_mem_cons] at h
    cases xs with
    | nil => simp only [itemLines_singleton, List.all_cons, hmarks, h, Bool.and_self]
    | cons y ys =>
      simp only [itemLines_cons_cons, List.all_cons, List.all_append, hmarks, h.1, writable_blanks,
        ih h.2, Bool.and_self]

theorem writable_entryLines {column : Nat} {es : List (Node × Node)}
    (hkeys : ∀ e ∈ es, ∃ k, e.1 = .text k ∧ isKey k)
    (h : ∀ e ∈ es, (nodeLines (column + 2) e.2).all isWritable) :
    (entryLines column es).all isWritable := by
  have hcolon : isWritable ':' := by decide
  induction es with
  | nil => rfl
  | cons e es ih =>
    obtain ⟨k, v⟩ := e
    rw [List.forall_mem_cons] at hkeys h
    obtain ⟨⟨key, rfl, hkey⟩, hkeys⟩ := hkeys
    obtain ⟨⟨⟨-, halpha⟩, -⟩, -⟩ := Scanner.isKey_iff.mp hkey
    have hletters : key.toList.all isWritable :=
      List.all_eq_true.mpr fun c hc => writable_of_isAlpha (halpha c hc)
    cases es with
    | nil =>
      simp only [entryLines_singleton, keyText, List.all_append, List.all_cons, hletters, hcolon,
        writable_valueLines h.1, Bool.and_self]
    | cons f fs =>
      simp only [entryLines_cons_cons, keyText, List.all_append, List.all_cons, hletters, hcolon,
        writable_valueLines h.1, writable_blanks, ih hkeys h.2, Bool.and_self]

theorem Legible.writable {x : Node} (h : Legible x) (column : Nat) :
    (nodeLines column x).all isWritable := by
  induction h generalizing column with
  | text hs =>
    rw [nodeLines_text]
    exact writable_scalarLines column hs
  | @list xs hitems ih =>
    cases xs with
    | nil => rfl
    | cons x xs =>
      rw [nodeLines_list]
      exact writable_itemLines fun y hy => ih y hy (column + 2)
  | @map es hkeys hvalues ih =>
    cases es with
    | nil => rfl
    | cons e es =>
      rw [nodeLines_map]
      exact writable_entryLines hkeys fun f hf => ih f hf (column + 2)

/-! ## Lexemes of nodes -/

theorem Follows.mono {i j : Int} {follow tail : List Char} {n : Nat} (h : Follows i follow n tail)
    (hij : i ≤ j) :
    Follows j follow n tail := by
  cases h with
  | nothing => exact .nothing
  | line hc hn => exact .line hc (by omega)

namespace Scanner

theorem Reads.of_scans {s s₁ : Scanner} {high i : Int} {is : List Int} {ls : List Lexeme} {n : Nat}
    {tail : List Char} (hscans : Scans s s₁) (h : Reads s₁ high i is ls n tail) :
    Reads s high i is ls n tail := by
  obtain ⟨s₂, hlater, hafter⟩ := h
  exact ⟨s₂, hscans.trans hlater, hafter⟩

theorem before_value {v : Node} {column col : Nat} (hv : Legible v) (hcol : col ≤ column)
    (line offset : Nat) (ls : List Lexeme) (is : List Int) (follow : List Char) :
    ∃ column' keyAllowed, Before (nodeLines (col + 2) v ++ follow) column' ls col is keyAllowed
        ⟨⟨valueLines col v ++ follow, line, column, offset⟩, ls.toArray, col, is, 0,
          false, [none]⟩ ∧
      (v.isBlock → keyAllowed) ∧ (keyAllowed → column' = col + 2) := by
  obtain ⟨c, cs, hcs, hc⟩ := hv.visible (col + 2)
  rw [valueLines_eq, hcs]
  cases hblock : v.isBlock with
  | true =>
    refine ⟨col + 2, true, ?_, fun _ => rfl, fun _ => rfl⟩
    simpa using before_of_newline hc free_none (by omega)
  | false =>
    refine ⟨column + 1, false, ?_, by simp, by simp⟩
    simpa using before_of_blank hc free_none (by omega)

/-- Wherever a node is written, the scanner reads its lexemes. A node in lines of its own stands
where a key may start. -/
def Readable (x : Node) : Prop :=
  ∀ {s : Scanner} {col column n : Nat} {ls : List Lexeme} {i : Int} {is : List Int}
    {keyAllowed : Bool} {follow tail : List Char},
    Before (nodeLines col x ++ follow) column ls i is keyAllowed s → (x.isBlock → keyAllowed) →
    (keyAllowed → column = col) → i < col → Follows i follow n tail →
    Reads s col i is (ls ++ nodeLexemes x) n tail

section Blocks

variable {s : Scanner} {col n : Nat} {ls ls' : List Lexeme} {i j : Int} {is js : List Int}
  {follow tail : List Char}

theorem reads_item {x : Node} (hx : Legible x) (hread : Readable x)
    (h : Before ('-' :: ' ' :: (nodeLines (col + 2) x ++ follow)) col ls j js true s)
    (hopen : Opening .listStart col i is ls j js ls') (hfollow : Follows col follow n tail) :
    Reads s (col + 2) col (i :: is) (ls' ++ .entry :: nodeLexemes x) n tail := by
  obtain ⟨c, cs, hcs, hc⟩ := hx.visible (col + 2)
  rw [hcs, List.cons_append] at h
  obtain ⟨s₁, hentry, hbefore⟩ := scans_entry h hc hopen
  rw [← List.cons_append, ← hcs] at hbefore
  have hitem := hread hbefore (fun _ => rfl) (fun _ => rfl) (by omega) hfollow
  simpa using hitem.of_scans hentry

theorem reads_items {xs : List Node} (hne : xs ≠ []) (hlegible : ∀ x ∈ xs, Legible x)
    (hread : ∀ x ∈ xs, Readable x) (h : Before (itemLines col xs ++ follow) col ls j js true s)
    (hopen : Opening .listStart col i is ls j js ls') (hi : i < col)
    (hfollow : Follows i follow n tail) :
    Reads s col i is (ls' ++ itemLexemes xs ++ [.blockEnd]) n tail := by
  induction xs generalizing s ls ls' j js with
  | nil => exact absurd rfl hne
  | cons x xs ih =>
    rw [List.forall_mem_cons] at hlegible hread
    cases xs with
    | nil =>
      obtain ⟨s₁, hitem, hafter⟩ :=
        reads_item hlegible.1 hread.1 h hopen (hfollow.mono (Int.le_of_lt hi))
      refine ⟨s₁, hitem, ?_⟩
      simpa [itemLexemes] using hafter.outer (by omega)
    | cons y ys =>
      obtain ⟨cs, hcs⟩ := itemLines_cons col y ys
      have hnext : Follows col (blanks col ++ (itemLines col (y :: ys) ++ follow)) col
          (itemLines col (y :: ys) ++ follow) := by
        rw [hcs]
        exact .line (by constructor <;> decide) (Int.le_refl _)
      simp only [itemLines_cons_cons, List.append_assoc, List.cons_append] at h
      obtain ⟨s₁, hitem, hafter⟩ := reads_item hlegible.1 hread.1 h hopen hnext
      have hlater :=
        ih (by simp) hlegible.2 hread.2 (hafter.before (Int.le_refl _) (by omega)) .later
      simpa [itemLexemes] using hlater.of_scans hitem

theorem reads_entry {key : String} {v : Node} (hkey : isKey key) (hv : Legible v)
    (hread : Readable v)
    (h : Before (key.toList ++ ':' :: (valueLines col v ++ follow)) col ls j js true s)
    (hopen : Opening .mapStart col i is ls j js ls') (hfollow : Follows col follow n tail) :
    Reads s (col + 2) col (i :: is)
      (ls' ++ .key :: .scalar key true :: .value :: nodeLexemes v) n tail := by
  obtain ⟨line, offset, hscans⟩ := scans_key h hkey (endsWord_valueLines col v follow) hopen
  have hle : col ≤ col + key.length + 1 := by omega
  obtain ⟨column, keyAllowed, hbefore, hblock, hcolumn⟩ := before_value hv hle line offset
    (ls' ++ [Lexeme.key, .scalar key true, .value]) (i :: is) follow
  have hvalue := hread hbefore hblock hcolumn (by omega) hfollow
  simpa using hvalue.of_scans hscans

theorem reads_entries {es : List (Node × Node)} (hne : es ≠ [])
    (hkeys : ∀ e ∈ es, ∃ k, e.1 = .text k ∧ isKey k) (hlegible : ∀ e ∈ es, Legible e.2)
    (hread : ∀ e ∈ es, Readable e.2) (h : Before (entryLines col es ++ follow) col ls j js true s)
    (hopen : Opening .mapStart col i is ls j js ls') (hi : i < col)
    (hfollow : Follows i follow n tail) :
    Reads s col i is (ls' ++ entryLexemes es ++ [.blockEnd]) n tail := by
  induction es generalizing s ls ls' j js with
  | nil => exact absurd rfl hne
  | cons e es ih =>
    obtain ⟨k, v⟩ := e
    rw [List.forall_mem_cons] at hkeys hlegible hread
    obtain ⟨⟨key, rfl, hkey⟩, hkeys⟩ := hkeys
    cases es with
    | nil =>
      rw [entryLines_singleton, List.append_assoc] at h
      obtain ⟨s₁, hentry, hafter⟩ :=
        reads_entry hkey hlegible.1 hread.1 h hopen (hfollow.mono (Int.le_of_lt hi))
      refine ⟨s₁, hentry, ?_⟩
      simpa [entryLexemes, keyText] using hafter.outer (by omega)
    | cons f fs =>
      obtain ⟨c, cs, hcs, hc⟩ := visible_entryLines col (hkeys f (by simp)) fs
      have hnext : Follows col (blanks col ++ (entryLines col (f :: fs) ++ follow)) col
          (entryLines col (f :: fs) ++ follow) := by
        rw [hcs]
        exact .line hc (Int.le_refl _)
      simp only [entryLines_cons_cons, keyText, List.append_assoc, List.cons_append] at h
      obtain ⟨s₁, hentry, hafter⟩ := reads_entry hkey hlegible.1 hread.1 h hopen hnext
      have hlater :=
        ih (by simp) hkeys hlegible.2 hread.2 (hafter.before (Int.le_refl _) (by omega)) .later
      simpa [entryLexemes, keyText] using hlater.of_scans hentry

end Blocks

theorem reads_node {x : Node} (hx : Legible x) : Readable x := by
  induction hx with
  | text hs =>
    intro s col column n ls i is keyAllowed follow tail h hblock hcolumn hi hfollow
    rw [nodeLines_text] at h
    rw [nodeLexemes]
    exact reads_text hs h (fun hkey => hcolumn hkey ▸ hi) hfollow
  | @list xs hitems ih =>
    intro s col column n ls i is keyAllowed follow tail h hblock hcolumn hi hfollow
    cases xs with
    | nil =>
      exact reads_brackets h (fun hkey => hcolumn hkey ▸ hi) lexeme_openList lexeme_closeList
        (by constructor <;> decide) hfollow
    | cons x xs =>
      obtain rfl := hcolumn (hblock rfl)
      obtain rfl : keyAllowed = true := hblock rfl
      rw [nodeLines_list] at h
      simpa [nodeLexemes] using reads_items (by simp) hitems ih h (.first hi) hi hfollow
  | @map es hkeys hvalues ih =>
    intro s col column n ls i is keyAllowed follow tail h hblock hcolumn hi hfollow
    cases es with
    | nil =>
      exact reads_brackets h (fun hkey => hcolumn hkey ▸ hi) lexeme_openMap lexeme_closeMap
        (by constructor <;> decide) hfollow
    | cons e es =>
      obtain rfl := hcolumn (hblock rfl)
      obtain rfl : keyAllowed = true := hblock rfl
      rw [nodeLines_map] at h
      simpa [nodeLexemes] using reads_entries (by simp) hkeys hvalues ih h (.first hi) hi hfollow

end Scanner

/-! ## Lexemes of texts -/

theorem allowed_of_writable {c : Char} (h : isWritable c) : isAllowed c := by
  simp only [isWritable, Bool.or_eq_true, Bool.and_eq_true, beq_iff_eq, decide_eq_true_eq] at h
  simp only [isAllowed, Bool.or_eq_true, Bool.and_eq_true, beq_iff_eq, decide_eq_true_eq]
  omega

theorem normalize_of_writable {cs : List Char} (h : cs.all isWritable) : normalize cs = cs := by
  have hbreaks : isWritable '\r' = false ∧ isWritable '\x85' = false := by decide
  induction cs using normalize.induct with
  | case1 => rfl
  | case2 cs ih => simp [hbreaks] at h
  | case3 c cs hne ih =>
    rw [List.all_cons, Bool.and_eq_true] at h
    have hc : ¬ (c = '\r' ∨ c = '\x85') := by
      rintro (rfl | rfl)
      · simp [hbreaks] at h
      · simp [hbreaks] at h
    rw [normalize, if_neg hc, ih h.2]
    exact hne

/-- The text of a node is read as the lexemes of the node. -/
theorem lexemes_nodeLines {x : Node} (h : Legible x) :
    lexemes (String.ofList (nodeLines 0 x)) = nodeLexemes x ++ [.endOfText] := by
  have hwritable := h.writable 0
  have hallowed : (nodeLines 0 x).all isAllowed :=
    List.all_eq_true.mpr fun c hc => allowed_of_writable (List.all_eq_true.mp hwritable c hc)
  obtain ⟨c, cs, hcs, hc⟩ := h.visible 0
  have hmark : (nodeLines 0 x).head? ≠ some byteOrderMark := by
    rw [hcs]
    simpa using hc.unmarked
  have hbefore : Scanner.Before (nodeLines 0 x ++ []) 0 [] (-1) [] true
      ⟨.start (nodeLines 0 x), #[], -1, [], 0, true, [none]⟩ := by
    rw [List.append_nil, hcs]
    exact Scanner.before_of_settled Scanner.free_none (by decide)
      (Scanner.settled_of_visible rfl hc)
  obtain ⟨s, hscans, hafter⟩ :=
    Scanner.reads_node h hbefore (fun _ => rfl) (fun _ => rfl) (by decide) .nothing
  obtain ⟨final, hnext, hfinal⟩ := hafter.final
  have hrun := hscans.run_eq hnext (Nat.lt_succ_self (nodeLines 0 x).length)
  simp only [lexemes, String.toList_ofList, hallowed, if_true, if_neg hmark,
    normalize_of_writable hwritable]
  rw [hrun, hfinal]
  rfl

/-! ## Nodes of lexemes -/

mutual

theorem invalid_notMem_nodeLexemes : (x : Node) → .invalid ∉ nodeLexemes x
  | .null s => by simp [nodeLexemes]
  | .text s => by simp [nodeLexemes]
  | .list [] => by simp [nodeLexemes]
  | .list (x :: xs) => by simp [nodeLexemes, invalid_notMem_itemLexemes (x :: xs)]
  | .map [] => by simp [nodeLexemes]
  | .map (e :: es) => by simp [nodeLexemes, invalid_notMem_entryLexemes (e :: es)]

theorem invalid_notMem_itemLexemes : (xs : List Node) → .invalid ∉ itemLexemes xs
  | [] => by simp [itemLexemes]
  | x :: xs => by simp [itemLexemes, invalid_notMem_nodeLexemes x, invalid_notMem_itemLexemes xs]

theorem invalid_notMem_entryLexemes : (es : List (Node × Node)) → .invalid ∉ entryLexemes es
  | [] => by simp [entryLexemes]
  | (k, v) :: es =>
    by simp [entryLexemes, invalid_notMem_nodeLexemes v, invalid_notMem_entryLexemes es]

end

theorem look_cons {l : Lexeme} {ls : List Lexeme} (h : .invalid ∉ l :: ls) :
    look (l :: ls) = .ok l := by
  have hnear : ((l :: ls).take 3).contains .invalid = false := by
    rw [List.contains_eq_mem, decide_eq_false_iff_not]
    exact fun hmem => h (List.mem_of_mem_take hmem)
  simp only [look, hnear, Bool.false_eq_true, if_false]

/-- Lexemes that a node may start with. -/
def startsNode : Lexeme → Bool
  | .scalar _ _ | .openList | .openMap | .listStart | .mapStart => true
  | _ => false

theorem nodeLexemes_eq_cons (x : Node) : ∃ l ls, nodeLexemes x = l :: ls ∧ startsNode l := by
  match x with
  | .null s => exact ⟨_, _, rfl, rfl⟩
  | .text s => exact ⟨_, _, rfl, rfl⟩
  | .list [] => exact ⟨_, _, rfl, rfl⟩
  | .list (x :: xs) => exact ⟨_, _, rfl, rfl⟩
  | .map [] => exact ⟨_, _, rfl, rfl⟩
  | .map (e :: es) => exact ⟨_, _, rfl, rfl⟩

/-- With enough fuel a node is read from its lexemes. -/
def ReadsBack (x : Node) : Prop :=
  ∀ (unindented : Bool) (fuel : Nat) (rest : List Lexeme), (nodeLexemes x).length ≤ fuel →
    .invalid ∉ rest → readNode true unindented fuel (nodeLexemes x ++ rest) = .ok (x, rest)

theorem look_nodeLexemes {x : Node} {rest : List Lexeme} (hrest : .invalid ∉ rest) :
    ∃ l, look (nodeLexemes x ++ rest) = .ok l ∧ startsNode l := by
  obtain ⟨l, ls, hls, hl⟩ := nodeLexemes_eq_cons x
  have hvalid : .invalid ∉ nodeLexemes x ++ rest := by simp [invalid_notMem_nodeLexemes, hrest]
  rw [hls, List.cons_append] at hvalid ⊢
  exact ⟨l, look_cons hvalid, hl⟩

theorem readList_itemLexemes {xs : List Node} (hitems : ∀ x ∈ xs, ReadsBack x) {fuel : Nat}
    {rest : List Lexeme} (hfuel : (itemLexemes xs).length < fuel) (hrest : .invalid ∉ rest)
    (acc : List Node) :
    readList fuel acc (itemLexemes xs ++ .blockEnd :: rest) =
      .ok (.list (acc.reverse ++ xs), rest) := by
  induction xs generalizing fuel acc with
  | nil =>
    obtain ⟨fuel, rfl⟩ := Nat.exists_eq_add_one_of_ne_zero (Nat.ne_zero_of_lt hfuel)
    rw [itemLexemes, List.nil_append, readList, look_cons (by simp [hrest])]
    simp [bind, Except.bind]
  | cons x xs ih =>
    obtain ⟨fuel, rfl⟩ := Nat.exists_eq_add_one_of_ne_zero (Nat.ne_zero_of_lt hfuel)
    rw [List.forall_mem_cons] at hitems
    simp only [itemLexemes, List.length_cons, List.length_append] at hfuel
    have hlater : .invalid ∉ itemLexemes xs ++ .blockEnd :: rest := by
      simp [invalid_notMem_itemLexemes, hrest]
    obtain ⟨l, hlook, hl⟩ := look_nodeLexemes (x := x) hlater
    have hends : endsListItem l = false := by
      cases l <;> first | rfl | cases hl
    have hitem := hitems.1 false fuel _ (by omega) hlater
    have hentry : look (.entry :: (nodeLexemes x ++ (itemLexemes xs ++ .blockEnd :: rest))) =
        .ok .entry :=
      look_cons (by simp [invalid_notMem_nodeLexemes, invalid_notMem_itemLexemes, hrest])
    rw [itemLexemes, List.append_assoc, List.cons_append, readList, hentry]
    simp only [bind, Except.bind, List.tail_cons, hlook, hends, Bool.false_eq_true, if_false, hitem]
    rw [ih hitems.2 (by omega), List.reverse_cons, List.append_assoc, List.singleton_append]

theorem readBlockValue_nodeLexemes {x : Node} (hx : ReadsBack x) {fuel : Nat} {rest : List Lexeme}
    (hfuel : (nodeLexemes x).length < fuel) (hrest : .invalid ∉ rest) :
    readBlockValue fuel (nodeLexemes x ++ rest) = .ok (x, rest) := by
  obtain ⟨fuel, rfl⟩ := Nat.exists_eq_add_one_of_ne_zero (Nat.ne_zero_of_lt hfuel)
  obtain ⟨l, hlook, hl⟩ := look_nodeLexemes (x := x) hrest
  have hends : endsValue l = false := by
    cases l <;> first | rfl | cases hl
  rw [readBlockValue, hlook]
  simp only [bind, Except.bind, hends, Bool.false_eq_true, if_false]
  exact hx true fuel rest (by omega) hrest

theorem readBlockValue_key {key : String} (hkey : isKey key) {fuel : Nat} {rest : List Lexeme}
    (hfuel : 2 ≤ fuel) (hrest : .invalid ∉ rest) :
    readBlockValue fuel (.scalar key true :: rest) = .ok (.text key, rest) := by
  obtain ⟨fuel, rfl⟩ := Nat.exists_eq_add_of_le' hfuel
  obtain ⟨⟨-, hnull⟩, -⟩ := Scanner.isKey_iff.mp hkey
  have hlook : look (.scalar key true :: rest) = .ok (.scalar key true) :=
    look_cons (by simp [hrest])
  rw [readBlockValue, hlook]
  simp only [bind, Except.bind, endsValue]
  rw [readNode, hlook]
  simp [bind, Except.bind, Node.ofScalar, hnull]

theorem readMap_entryLexemes {es : List (Node × Node)}
    (hkeys : ∀ e ∈ es, ∃ k, e.1 = .text k ∧ isKey k) (hvalues : ∀ e ∈ es, ReadsBack e.2)
    {fuel : Nat} {rest : List Lexeme} (hfuel : (entryLexemes es).length < fuel)
    (hrest : .invalid ∉ rest) (acc : List (Node × Node)) :
    readMap fuel acc (entryLexemes es ++ .blockEnd :: rest) =
      .ok (.map (acc.reverse ++ es), rest) := by
  induction es generalizing fuel acc with
  | nil =>
    obtain ⟨fuel, rfl⟩ := Nat.exists_eq_add_one_of_ne_zero (Nat.ne_zero_of_lt hfuel)
    rw [entryLexemes, List.nil_append, readMap, look_cons (by simp [hrest])]
    simp [bind, Except.bind]
  | cons e es ih =>
    obtain ⟨fuel, rfl⟩ := Nat.exists_eq_add_one_of_ne_zero (Nat.ne_zero_of_lt hfuel)
    obtain ⟨k, v⟩ := e
    rw [List.forall_mem_cons] at hkeys hvalues
    obtain ⟨⟨key, rfl, hkey⟩, hkeys⟩ := hkeys
    simp only [entryLexemes, List.length_cons, List.length_append] at hfuel
    have hlater : .invalid ∉ entryLexemes es ++ .blockEnd :: rest := by
      simp [invalid_notMem_entryLexemes, hrest]
    have hvalue :
        .invalid ∉ .value :: (nodeLexemes v ++ (entryLexemes es ++ .blockEnd :: rest)) := by
      simp [invalid_notMem_nodeLexemes, invalid_notMem_entryLexemes, hrest]
    have hmark : look (.key :: .scalar key true :: .value ::
        (nodeLexemes v ++ (entryLexemes es ++ .blockEnd :: rest))) = .ok .key :=
      look_cons (by simpa using hvalue)
    have hread := readBlockValue_key hkey (by omega : 2 ≤ fuel) hvalue
    rw [entryLexemes, keyText, String.ofList_toList, List.append_assoc, List.cons_append,
      List.cons_append, List.cons_append, readMap, hmark]
    simp only [bind, Except.bind, List.tail_cons, hread, look_cons hvalue,
      beq_self_eq_true, if_true,
      readBlockValue_nodeLexemes hvalues.1 (by omega : (nodeLexemes v).length < fuel) hlater]
    rw [ih hkeys hvalues.2 (by omega), List.reverse_cons, List.append_assoc, List.singleton_append]

theorem ofScalar_of_style {s : String} (hbreak : ∀ c ∈ s.toList, isBreak c = false) :
    Node.ofScalar s (Style.of s = .plain) = .text s := by
  rcases Scanner.style_of_linear hbreak with ⟨hstyle, hmeaning, -⟩ | ⟨hstyle, -⟩ | hstyle
  · -- The spellings of a null have a meaning, so they are never written plain.
    have hnull : isNullSpelling s = false := by
      simp only [hasMeaning, Bool.or_eq_false_iff] at hmeaning
      have hword := hmeaning.1.1.1
      simp only [isWord, List.contains_eq_mem, decide_eq_false_iff_not, List.mem_cons,
        not_or] at hword
      simp [isNullSpelling, hword]
    simp [Node.ofScalar, hnull]
  · simp [Node.ofScalar, hstyle]
  · simp [Node.ofScalar, hstyle]

theorem Legible.readsBack {x : Node} (h : Legible x) : ReadsBack x := by
  induction h with
  | @text s hs =>
    intro unindented fuel rest hfuel hrest
    obtain ⟨fuel, rfl⟩ := Nat.exists_eq_add_of_le' hfuel
    rw [nodeLexemes, List.singleton_append, List.length_singleton, readNode,
      look_cons (by simp [hrest])]
    simp only [bind, Except.bind, ofScalar_of_style hs, List.tail_cons]
  | @list xs hitems ih =>
    intro unindented fuel rest hfuel hrest
    cases xs with
    | nil =>
      obtain ⟨fuel, rfl⟩ := Nat.exists_eq_add_of_le' hfuel
      simp only [nodeLexemes, List.cons_append, List.nil_append, List.length_cons, List.length_nil]
      rw [readNode, look_cons (by simp [hrest])]
      simp only [bind, Except.bind, List.tail_cons]
      rw [readFlowList, look_cons (by simp [hrest])]
      simp [bind, Except.bind]
    | cons x xs =>
      obtain ⟨fuel, rfl⟩ := Nat.exists_eq_add_of_le' (Nat.le_trans (Nat.le_add_left 1 _) hfuel)
      simp only [nodeLexemes, List.cons_append, List.length_cons, List.length_append] at hfuel
      simp only [nodeLexemes, List.cons_append, List.append_assoc, List.nil_append]
      rw [readNode, look_cons (by simp [invalid_notMem_itemLexemes, hrest])]
      simp only [bind, Except.bind, if_true, List.tail_cons]
      rw [readList_itemLexemes ih (by omega) hrest]
      rfl
  | @map es hkeys hvalues ih =>
    intro unindented fuel rest hfuel hrest
    cases es with
    | nil =>
      obtain ⟨fuel, rfl⟩ := Nat.exists_eq_add_of_le' hfuel
      simp only [nodeLexemes, List.cons_append, List.nil_append, List.length_cons, List.length_nil]
      rw [readNode, look_cons (by simp [hrest])]
      simp only [bind, Except.bind, List.tail_cons]
      rw [readFlowMap, look_cons (by simp [hrest])]
      simp [bind, Except.bind]
    | cons e es =>
      obtain ⟨fuel, rfl⟩ := Nat.exists_eq_add_of_le' (Nat.le_trans (Nat.le_add_left 1 _) hfuel)
      simp only [nodeLexemes, List.cons_append, List.length_cons, List.length_append] at hfuel
      simp only [nodeLexemes, List.cons_append, List.append_assoc, List.nil_append]
      rw [readNode, look_cons (by simp [invalid_notMem_entryLexemes, hrest])]
      simp only [bind, Except.bind, if_true, List.tail_cons]
      rw [readMap_entryLexemes hkeys ih (by omega) hrest]
      rfl

/-- The text of a node is read as the node. -/
theorem parse_nodeLines {x : Node} (h : Legible x) :
    parse (String.ofList (nodeLines 0 x)) = .ok (some x) := by
  have hvalid : .invalid ∉ [Lexeme.endOfText] := by simp
  have hfuel : (nodeLexemes x).length ≤ 4 * (nodeLexemes x ++ [Lexeme.endOfText]).length + 4 := by
    rw [List.length_append]
    omega
  have hread := h.readsBack false _ _ hfuel hvalid
  obtain ⟨l, hlook, hl⟩ := look_nodeLexemes (x := x) hvalid
  simp only [parse, lexemes_nodeLines h, hlook, hread, bind, Except.bind]
  cases l with
  | scalar _ _ | openList | openMap | listStart | mapStart => rfl
  | _ => cases hl

end Flowchart.Document
