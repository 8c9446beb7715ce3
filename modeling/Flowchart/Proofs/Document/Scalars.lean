import Flowchart.Document.Writer
import Mathlib.Data.List.Basic
import Mathlib.Tactic.Ring

/-!
# Scalars read back

A text without a line break is written as a scalar of one line, plain or in quotes. The scanner
finds the text again, whatever the next line is.
-/

namespace Flowchart.Document

/-! ## Folds of a single line -/

namespace Fold

variable {f : Fold}

/-- What was read so far, last character first. -/
def content (f : Fold) : List Char := f.gaps ++ f.text

/-- Takes a character of the text that is read. -/
def read (f : Fold) (c : Char) : Fold := if c = ' ' then f.gap c else f.join.push c

theorem join_of_flat (h : f.folding = false) : f.join = { text := f.content } := by
  simp [join, h, content]

theorem folding_read (h : f.folding = false) (c : Char) : (f.read c).folding = false := by
  unfold read
  split
  · simp [gap, h]
  · simp [push, join_of_flat h]

theorem content_read (h : f.folding = false) (c : Char) : (f.read c).content = c :: f.content := by
  unfold read
  split
  · simp [gap, h, content]
  · rw [join_of_flat h]
    rfl

theorem folding_foldl (h : f.folding = false) (cs : List Char) :
    (cs.foldl read f).folding = false := by
  induction cs generalizing f with
  | nil => exact h
  | cons c cs ih => exact ih (folding_read h c)

theorem content_foldl (h : f.folding = false) (cs : List Char) :
    (cs.foldl read f).content = cs.reverse ++ f.content := by
  induction cs generalizing f with
  | nil => rfl
  | cons c cs ih => simp [ih (folding_read h c), content_read h]

theorem text_foldl {cs : List Char} (hlast : cs.getLast? ≠ some ' ') :
    (cs.foldl read {}).text = cs.reverse := by
  have hcontent : (cs.foldl read {}).gaps ++ (cs.foldl read {}).text = cs.reverse := by
    simpa [content] using content_foldl (f := {}) rfl cs
  rcases cs.eq_nil_or_concat with rfl | ⟨cs, c, rfl⟩
  · rfl
  · have hc : c ≠ ' ' := by simpa using hlast
    have hgaps : ((cs.concat c).foldl read {}).gaps = [] := by
      rw [List.concat_eq_append, List.foldl_append, List.foldl_cons, List.foldl_nil, read,
        if_neg hc, join_of_flat (folding_foldl rfl cs)]
      rfl
    rwa [hgaps] at hcontent

end Fold

/-! ## Quoted scalars -/

/-- A text in quotes is read back if each of its characters is. -/
theorem scanQuoted_body {double : Bool} {write : Char → List Char} {quote : Char} {rest : List Char}
    (cs : List Char)
    (hread : ∀ c ∈ cs, ∀ (f : Fold) (line column offset : Nat) (rest : List Char), column ≠ 0 →
      scanQuoted double .text f line column offset (write c ++ rest) =
        scanQuoted double .text (f.read c) line (column + (write c).length)
          (offset + (write c).length) rest)
    (hclose : ∀ (f : Fold) (line column offset : Nat), column ≠ 0 →
      scanQuoted double .text f line column offset (quote :: rest) =
        .ok (f.join, ⟨rest, line, column + 1, offset + 1⟩))
    {f : Fold} (hf : f.folding = false) (line column offset : Nat) (hcolumn : column ≠ 0) :
    ∃ column' offset', scanQuoted double .text f line column offset
      (cs.flatMap write ++ quote :: rest) =
      .ok ({ text := cs.reverse ++ f.content }, ⟨rest, line, column', offset'⟩) := by
  induction cs generalizing f column offset with
  | nil =>
    rw [List.flatMap_nil, List.nil_append, hclose f line column offset hcolumn,
      Fold.join_of_flat hf]
    exact ⟨_, _, rfl⟩
  | cons c cs ih =>
    rw [List.flatMap_cons, List.append_assoc, hread c (by simp) f line column offset _ hcolumn]
    have hrest := ih (fun d hd => hread d (by simp [hd])) (Fold.folding_read hf c)
      (column + (write c).length) (offset + (write c).length) (by omega)
    simpa [Fold.content_read hf] using hrest

theorem atDocumentMarker_of_ne_zero {column : Nat} (h : column ≠ 0) (cs : List Char) :
    Cursor.atDocumentMarker column cs = false := by
  have hmarker (mark : Char) : Cursor.atMarker mark column cs = false := by
    unfold Cursor.atMarker
    split <;> simp [h]
  simp [Cursor.atDocumentMarker, hmarker]

section Quoted

variable {f : Fold} {line column offset : Nat} {c : Char} {rest : List Char}

/-- `closing` is what a single quote does: it ends the scalar or it is the first of two. -/
theorem scanQuoted_text (double : Bool) (f : Fold) (line column offset : Nat) (c : Char)
    (rest : List Char) : ∃ closing, scanQuoted double .text f line column offset (c :: rest) =
      if isBreak c then scanQuoted double .text (f.lineBreak c) (line + 1) 0 (offset + 1) rest
      else if isGap c then scanQuoted double .text (f.gap c) line (column + 1) (offset + 1) rest
      else if Cursor.atDocumentMarker column (c :: rest) then .error .scalar
      else if double then
        if c = '"' then .ok (f.join, ⟨rest, line, column + 1, offset + 1⟩)
        else if c = '\\' then scanQuoted double .escape f.join line (column + 1) (offset + 1) rest
        else scanQuoted double .text (f.join.push c) line (column + 1) (offset + 1) rest
      else if c = '\'' then closing
      else scanQuoted double .text (f.join.push c) line (column + 1) (offset + 1) rest := by
  delta scanQuoted
  exact ⟨_, rfl⟩

theorem scanQuoted_char {double : Bool} (hcolumn : column ≠ 0) (hbreak : isBreak c = false)
    (htab : c ≠ '\t') (hquote : if double then c ≠ '"' ∧ c ≠ '\\' else c ≠ '\'') :
    scanQuoted double .text f line column offset (c :: rest) =
      scanQuoted double .text (f.read c) line (column + 1) (offset + 1) rest := by
  obtain ⟨closing, htext⟩ := scanQuoted_text double f line column offset c rest
  rw [htext]
  by_cases hc : c = ' '
  · simp [hc, isBreak, isGap, Fold.read]
  · have hgap : isGap c = false := by simp [isGap, hc, htab]
    have hmarker := atDocumentMarker_of_ne_zero hcolumn (c :: rest)
    cases double with
    | true =>
      obtain ⟨hquote, hslash⟩ : c ≠ '"' ∧ c ≠ '\\' := hquote
      simp [hbreak, hgap, hmarker, hquote, hslash, Fold.read, hc]
    | false =>
      have hquote : c ≠ '\'' := hquote
      simp [hbreak, hgap, hmarker, hquote, Fold.read, hc]

/-! ### Single quotes -/

def singleChar (c : Char) : List Char := if c = '\'' then ['\'', c] else [c]

theorem singleBody_eq (indent : Nat) {cs : List Char} (h : ∀ c ∈ cs, isBreak c = false) :
    singleBody indent false cs = cs.flatMap singleChar := by
  induction cs with
  | nil => rfl
  | cons c cs ih =>
    rw [List.forall_mem_cons] at h
    rw [singleBody, List.flatMap_cons, ih h.2]
    by_cases hc : c = ' '
    · simp [hc, isBreak, singleChar]
    · simp [hc, h.1, singleChar]

theorem scanQuoted_quote (hcolumn : column ≠ 0) (rest : List Char) :
    scanQuoted false .text f line column offset ('\'' :: rest) =
      if rest.head? = some '\'' then
        scanQuoted false .text (f.read '\'') line (column + 2) (offset + 2) rest.tail
      else .ok (f.join, ⟨rest, line, column + 1, offset + 1⟩) := by
  have hmarker := atDocumentMarker_of_ne_zero hcolumn ('\'' :: rest)
  rw [scanQuoted.eq_def]
  match rest with
  | [] => simp [isBreak, isGap, hmarker]
  | c :: rest =>
    by_cases hc : c = '\''
    · subst hc
      simp [isBreak, isGap, hmarker, Fold.read]
    · simp [isBreak, isGap, hmarker, hc]

theorem scanQuoted_singleChar (hcolumn : column ≠ 0) (hbreak : isBreak c = false)
    (htab : c ≠ '\t') :
    scanQuoted false .text f line column offset (singleChar c ++ rest) =
      scanQuoted false .text (f.read c) line (column + (singleChar c).length)
        (offset + (singleChar c).length) rest := by
  by_cases hc : c = '\''
  · subst hc
    exact scanQuoted_quote hcolumn ('\'' :: rest)
  · rw [singleChar, if_neg hc]
    exact scanQuoted_char hcolumn hbreak htab hc

/-! ### Double quotes -/

theorem simpleEscape?_of_letter {l : Char} (h : escapeLetter? c = some l) :
    simpleEscape? l = some c ∧ isBreak l = false ∧ isWritable l := by
  simp only [escapeLetter?, Text.controlLetter?, ite_eq_iff, Option.some.injEq, reduceCtorEq,
    and_false, or_false] at h
  iterate 2
    rcases h with ⟨rfl, rfl⟩ | ⟨-, h⟩
    · decide
  rcases h with ⟨rfl | rfl, rfl⟩ | ⟨-, h⟩
  · decide
  · decide
  iterate 9
    rcases h with ⟨rfl, rfl⟩ | ⟨-, h⟩
    · decide
  obtain ⟨rfl, rfl⟩ := h
  decide

theorem hexDigit_reads : ∀ d < 16, Number.isHexDigit (Text.hexDigit true d) = true ∧
    Number.digitValue? (Text.hexDigit true d) = some d := by
  decide

theorem scanQuoted_digit {d : Nat} (hd : d < 16) (n value : Nat) :
    scanQuoted true (.code ⟨n, value⟩) f line column offset (Text.hexDigit true d :: rest) =
      if n ≤ 1 then
        (codeChar? (value * 16 + d)).elim (.error .scalar) fun x =>
          scanQuoted true .text (f.push x) line (column + 1) (offset + 1) rest
      else
        scanQuoted true (.code ⟨n - 1, value * 16 + d⟩) f line (column + 1) (offset + 1) rest := by
  obtain ⟨hhex, hvalue⟩ := hexDigit_reads d hd
  rw [scanQuoted.eq_def]
  cases hcode : codeChar? (value * 16 + d) <;> simp [hhex, hvalue, hcode]

theorem codeChar?_toNat (c : Char) : codeChar? c.toNat = some c := by
  have hvalid : c.toNat < 0xD800 ∨ 0xDFFF < c.toNat ∧ c.toNat < 0x110000 := c.valid
  rw [codeChar?, if_neg (by omega), Char.ofNat_toNat]

theorem scanQuoted_digits (width n e value : Nat) :
    scanQuoted true (.code ⟨width + e + 1, value⟩) f line column offset
      (Text.hexText true width n ++ rest) =
      scanQuoted true (.code ⟨e + 1, value * 16 ^ width + n % 16 ^ width⟩) f line (column + width)
        (offset + width) rest := by
  induction width generalizing n e rest with
  | zero => simp [Text.hexText, Nat.mod_one]
  | succ width ih =>
    have hdigits : width + 1 + e + 1 = width + (e + 1) + 1 := by omega
    rw [Text.hexText, List.append_assoc, List.singleton_append, hdigits, ih,
      scanQuoted_digit (Nat.mod_lt n (by decide)), if_neg (by omega)]
    have hvalue : (value * 16 ^ width + n / 16 % 16 ^ width) * 16 + n % 16 =
        value * 16 ^ (width + 1) + n % 16 ^ (width + 1) := by
      rw [Nat.pow_succ', Nat.mod_mul, Nat.add_mul]
      ring
    rw [hvalue, Nat.add_sub_cancel, Nat.add_assoc column, Nat.add_assoc offset]

theorem scanQuoted_code {width : Nat} (hwidth : c.toNat < 16 ^ (width + 1)) :
    scanQuoted true (.code ⟨width + 1, 0⟩) f line column offset
        (Text.hexText true (width + 1) c.toNat ++ rest) =
      scanQuoted true .text (f.push c) line (column + (width + 1)) (offset + (width + 1)) rest := by
  have hvalue : (0 * 16 ^ width + c.toNat / 16 % 16 ^ width) * 16 + c.toNat % 16 = c.toNat := by
    rw [Nat.pow_succ] at hwidth
    rw [Nat.zero_mul, Nat.zero_add, Nat.mod_eq_of_lt (Nat.div_lt_of_lt_mul (by rwa [Nat.mul_comm]))]
    omega
  rw [Text.hexText, List.append_assoc, List.singleton_append, scanQuoted_digits width _ 0,
    scanQuoted_digit (Nat.mod_lt _ (by decide)), if_pos (Nat.le_refl 1), hvalue, codeChar?_toNat]
  rfl

theorem scanQuoted_backslash (hcolumn : column ≠ 0) :
    scanQuoted true .text f line column offset ('\\' :: rest) =
      scanQuoted true .escape f.join line (column + 1) (offset + 1) rest := by
  have hmarker := atDocumentMarker_of_ne_zero hcolumn ('\\' :: rest)
  obtain ⟨closing, htext⟩ := scanQuoted_text true f line column offset '\\' rest
  simp [htext, isBreak, isGap, hmarker]

theorem scanQuoted_escape (hbreak : isBreak c = false) :
    scanQuoted true .escape f line column offset (c :: rest) =
      (simpleEscape? c).elim
        ((escapeDigits? c).elim (.error .scalar) fun n =>
          scanQuoted true (.code ⟨n, 0⟩) f line (column + 1) (offset + 1) rest)
        fun x => scanQuoted true .text (f.push x) line (column + 1) (offset + 1) rest := by
  rw [scanQuoted.eq_def]
  cases hsimple : simpleEscape? c <;> cases hdigits : escapeDigits? c <;>
    simp [hbreak, hsimple, hdigits]

theorem escapeLetter?_of_none (h : escapeLetter? c = none) :
    isBreak c = false ∧ c ≠ '\t' ∧ c ≠ '"' ∧ c ≠ '\\' := by
  have hne (d : Char) (hd : escapeLetter? d ≠ none) : c ≠ d := by
    rintro rfl
    exact hd h
  refine ⟨?_, hne _ (by decide), hne _ (by decide), hne _ (by decide)⟩
  simp [isBreak, hne '\n' (by decide), hne '\u2028' (by decide), hne '\u2029' (by decide)]

theorem scanQuoted_letter {l : Char} (hcolumn : column ≠ 0) (hl : escapeLetter? c = some l) :
    scanQuoted true .text f line column offset ('\\' :: l :: rest) =
      scanQuoted true .text (f.read c) line (column + 2) (offset + 2) rest := by
  obtain ⟨hescape, hbreak, -⟩ := simpleEscape?_of_letter hl
  have hc : c ≠ ' ' := by
    rintro rfl
    cases hl
  rw [scanQuoted_backslash hcolumn, scanQuoted_escape hbreak, hescape, Fold.read, if_neg hc]
  rfl

theorem scanQuoted_hex (mark : Char) {width : Nat} (hcolumn : column ≠ 0) (hc : c ≠ ' ')
    (hmark : simpleEscape? mark = none ∧ escapeDigits? mark = some (width + 1) ∧
      isBreak mark = false)
    (hwidth : c.toNat < 16 ^ (width + 1)) :
    scanQuoted true .text f line column offset
        ('\\' :: mark :: Text.hexText true (width + 1) c.toNat ++ rest) =
      scanQuoted true .text (f.read c) line (column + (width + 3)) (offset + (width + 3)) rest := by
  obtain ⟨hsimple, hdigits, hbreak⟩ := hmark
  rw [List.cons_append, List.cons_append, scanQuoted_backslash hcolumn, scanQuoted_escape hbreak,
    hsimple, Option.elim_none, hdigits, Option.elim_some, scanQuoted_code hwidth, Fold.read,
    if_neg hc]
  congr 1 <;> omega

theorem length_hexText (upper : Bool) (width n : Nat) :
    (Text.hexText upper width n).length = width := by
  induction width generalizing n with
  | zero => rfl
  | succ width ih => simp [Text.hexText, ih]

theorem scanQuoted_escapeScalarChar (hcolumn : column ≠ 0) :
    scanQuoted true .text f line column offset (escapeScalarChar c ++ rest) =
      scanQuoted true .text (f.read c) line (column + (escapeScalarChar c).length)
        (offset + (escapeScalarChar c).length) rest := by
  unfold escapeScalarChar
  cases hl : escapeLetter? c with
  | some l => exact scanQuoted_letter hcolumn hl
  | none =>
    dsimp only
    obtain ⟨hbreak, htab, hquote, hslash⟩ := escapeLetter?_of_none hl
    have hlt : c.toNat < 0x110000 := by
      have hvalid : c.toNat < 0xD800 ∨ 0xDFFF < c.toNat ∧ c.toNat < 0x110000 := c.valid
      omega
    by_cases hwritable : isWritable c
    · rw [if_pos hwritable]
      exact scanQuoted_char hcolumn hbreak htab ⟨hquote, hslash⟩
    · have hc : c ≠ ' ' := by
        rintro rfl
        exact hwritable (by decide)
      rw [if_neg hwritable]
      split_ifs with htwo hfour
      · simpa [length_hexText] using
          scanQuoted_hex 'x' hcolumn hc (by decide) (Nat.lt_succ_of_le htwo)
      · simpa [length_hexText] using
          scanQuoted_hex 'u' hcolumn hc (by decide) (Nat.lt_succ_of_le hfour)
      · simpa [length_hexText] using scanQuoted_hex 'U' hcolumn hc (by decide) (by omega)

/-! ### Texts in quotes -/

theorem scanQuoted_double (cs : List Char) (hcolumn : column ≠ 0) :
    ∃ column' offset', scanQuoted true .text {} line column offset
        (cs.flatMap escapeScalarChar ++ '"' :: rest) =
      .ok ({ text := cs.reverse }, ⟨rest, line, column', offset'⟩) := by
  have hclose : ∀ (f : Fold) (line column offset : Nat), column ≠ 0 →
      scanQuoted true .text f line column offset ('"' :: rest) =
        .ok (f.join, ⟨rest, line, column + 1, offset + 1⟩) := by
    intro f line column offset hcolumn
    have hmarker := atDocumentMarker_of_ne_zero hcolumn ('"' :: rest)
    obtain ⟨closing, htext⟩ := scanQuoted_text true f line column offset '"' rest
    simp [htext, isBreak, isGap, hmarker]
  simpa [Fold.content] using scanQuoted_body cs
    (fun c _ f line column offset rest h => scanQuoted_escapeScalarChar h) hclose (f := {}) rfl
    line column offset hcolumn

theorem scanQuoted_single {cs : List Char} (hbreak : ∀ c ∈ cs, isBreak c = false) (htab : '\t' ∉ cs)
    (hrest : rest.head? ≠ some '\'') (hcolumn : column ≠ 0) :
    ∃ column' offset', scanQuoted false .text {} line column offset
        (cs.flatMap singleChar ++ '\'' :: rest) =
      .ok ({ text := cs.reverse }, ⟨rest, line, column', offset'⟩) := by
  have hclose : ∀ (f : Fold) (line column offset : Nat), column ≠ 0 →
      scanQuoted false .text f line column offset ('\'' :: rest) =
        .ok (f.join, ⟨rest, line, column + 1, offset + 1⟩) := by
    intro f line column offset hcolumn
    rw [scanQuoted_quote hcolumn, if_neg hrest]
  have hread : ∀ c ∈ cs, ∀ (f : Fold) (line column offset : Nat) (rest : List Char), column ≠ 0 →
      scanQuoted false .text f line column offset (singleChar c ++ rest) =
        scanQuoted false .text (f.read c) line (column + (singleChar c).length)
          (offset + (singleChar c).length) rest :=
    fun c hc f line column offset rest h =>
      scanQuoted_singleChar h (hbreak c hc) fun heq => htab (heq ▸ hc)
  simpa [Fold.content] using
    scanQuoted_body cs hread hclose (f := {}) rfl line column offset hcolumn

end Quoted

/-! ## Plain scalars -/

/-- No character of a text ends a plain scalar that goes on with `rest`. Where it is `fresh`, a gap
stands in front. -/
def Runs (rest : List Char) : Bool → List Char → Prop
  | _, [] => True
  | fresh, c :: cs =>
    isBreak c = false ∧ c ≠ '\t' ∧ (fresh → c ≠ '#') ∧ (c = ':' → endsWord (cs ++ rest) = false) ∧
      Runs rest (c == ' ') cs

section Plain

variable {p : PlainContext} {fresh : Bool} {f : Fold} {line column offset : Nat}
  {cs rest : List Char}

theorem scanPlain_runs (hflow : p.flow = false) (h : Runs rest fresh cs) (hf : f.folding = false)
    (hmarker : Cursor.atDocumentMarker column (cs ++ rest) = false) (line offset : Nat) :
    ∃ fresh', scanPlain p fresh f line column offset (cs ++ rest) =
      scanPlain p fresh' (cs.foldl Fold.read f) line (column + cs.length) (offset + cs.length)
        rest := by
  induction cs generalizing fresh f column offset with
  | nil => exact ⟨fresh, rfl⟩
  | cons c cs ih =>
    obtain ⟨hbreak, htab, hcomment, hcolon, hrest⟩ := h
    have hnext : scanPlain p fresh f line column offset (c :: (cs ++ rest)) =
        scanPlain p (c == ' ') (f.read c) line (column + 1) (offset + 1) (cs ++ rest) := by
      rw [scanPlain]
      by_cases hc : c = ' '
      · simp [hc, isBreak, isGap, hf, Fold.read]
      · have hgap : isGap c = false := by simp [isGap, hc, htab]
        have hends : p.ends c (cs ++ rest) = false := by
          by_cases heq : c = ':'
          · simp [PlainContext.ends, hflow, hcolon heq]
          · simp [PlainContext.ends, hflow, heq]
        have hmarker' : Cursor.atDocumentMarker column (c :: (cs ++ rest)) = false := hmarker
        have hfresh : (fresh && c == '#') = false := by simpa using hcomment
        have hblank : (c == ' ') = false := by simpa using hc
        simp [hbreak, hgap, hf, hends, hmarker', hfresh, Fold.read, hc, hblank]
    obtain ⟨fresh', hlater⟩ := ih hrest (Fold.folding_read hf c)
      (atDocumentMarker_of_ne_zero (Nat.succ_ne_zero column) (cs ++ rest)) (offset + 1)
    refine ⟨fresh', ?_⟩
    rw [List.cons_append, hnext, hlater, List.foldl_cons, List.length_cons]
    congr 1 <;> omega

theorem scanPlain_colon (hrest : endsWord rest) :
    scanPlain p fresh f line column offset (':' :: rest) =
      .ok (f, ⟨':' :: rest, line, column, offset⟩) := by
  rw [scanPlain]
  simp [isBreak, isGap, PlainContext.ends, hrest]

theorem scanPlain_blanks (hf : f.folding) (n : Nat) :
    scanPlain p true f line column offset (blanks n ++ rest) =
      scanPlain p true f line (column + n) (offset + n) rest := by
  induction n generalizing column offset with
  | zero => rfl
  | succ n ih =>
    have hgap : f.gap ' ' = f := by simp [Fold.gap, hf]
    rw [blanks, List.replicate_succ, List.cons_append, ← blanks, scanPlain]
    simp only [isBreak, isGap, hgap, ih]
    simp
    congr 1 <;> omega

end Plain

/-- Characters that no reader passes over. -/
structure Visible (c : Char) : Prop where
  linear : isBreak c = false
  solid : isGap c = false
  content : c ≠ '#'
  unmarked : c ≠ byteOrderMark

/-- What may follow a node in a block with this indentation: the end of the text, or a line that is
not indented further. `n` is the indentation of the line and `tail` what stands behind it. -/
inductive Follows (indent : Int) : List Char → Nat → List Char → Prop
  | nothing : Follows indent [] 0 []
  | line {n : Nat} {c : Char} {cs : List Char} (hc : Visible c) (hn : (n : Int) ≤ indent) :
      Follows indent (blanks n ++ c :: cs) n (c :: cs)

theorem Follows.length_le {indent : Int} {follow tail : List Char} {n : Nat}
    (h : Follows indent follow n tail) :
    tail.length ≤ follow.length := by
  cases h with
  | nothing => exact Nat.le_refl _
  | line _ _ => simp

section Plain

variable {fresh : Bool} {f : Fold} {line column offset : Nat} {cs follow tail : List Char}
  {indent : Int} {n : Nat}

theorem scanPlain_newline (h : Follows indent follow n tail) (fresh : Bool) (f : Fold)
    (line column offset : Nat) :
    ∃ g offset', scanPlain ⟨false, indent + 1⟩ fresh f line column offset ('\n' :: follow) =
      .ok (g, ⟨tail, line + 1, n, offset'⟩) ∧ g.text = f.text ∧ g.folding := by
  have hbreak : scanPlain ⟨false, indent + 1⟩ fresh f line column offset ('\n' :: follow) =
      scanPlain ⟨false, indent + 1⟩ true (f.lineBreak '\n') (line + 1) 0 (offset + 1) follow := by
    rw [scanPlain]
    simp [isBreak]
  rw [hbreak]
  have hfolding : (f.lineBreak '\n').folding := by
    unfold Fold.lineBreak
    split
    · assumption
    · rfl
  have htext : (f.lineBreak '\n').text = f.text := by
    unfold Fold.lineBreak
    split <;> rfl
  cases h with
  | nothing => exact ⟨_, _, rfl, htext, hfolding⟩
  | line hc hn =>
    rw [scanPlain_blanks hfolding, scanPlain, hc.linear, hc.solid]
    have hend : (n : Int) < indent + 1 := by omega
    refine ⟨f.lineBreak '\n', offset + 1 + n, ?_, htext, hfolding⟩
    simp [hfolding, hend]

/-! ### Texts that are written plain -/

theorem hasPair_cons {a b : Char} {p q : Char → Bool} (h : hasPair p q (a :: b :: cs) = false) :
    (p a = true → q b = false) ∧ hasPair p q (b :: cs) = false := by
  simpa [hasPair, Bool.or_eq_false_iff, Bool.and_eq_false_imp] using h

theorem runs_of_unmarked (hbreak : ∀ c ∈ cs, isBreak c = false) (htab : '\t' ∉ cs)
    (hcomment : fresh → cs.head? ≠ some '#') (hmark : hasMark cs = false) :
    Runs ('\n' :: follow) fresh cs := by
  simp only [hasMark, Bool.or_eq_false_iff, beq_eq_false_iff_ne] at hmark
  obtain ⟨⟨hcolon, hlast⟩, hhash⟩ := hmark
  induction cs generalizing fresh with
  | nil => trivial
  | cons c cs ih =>
    rw [List.forall_mem_cons] at hbreak
    simp only [List.mem_cons, not_or] at htab
    refine ⟨hbreak.1, Ne.symm htab.1, fun h => by simpa using hcomment h, ?_, ?_⟩
    · rintro rfl
      cases cs with
      | nil => simp at hlast
      | cons d cs =>
        have hgap := (hasPair_cons hcolon).1 (by decide)
        have hline := hbreak.2 d (by simp)
        simp [endsWord, hgap, hline]
    · cases cs with
      | nil => trivial
      | cons d cs =>
        refine ih hbreak.2 htab.2 (fun hc => ?_) (hasPair_cons hhash).2 (hasPair_cons hcolon).2 ?_
        · have hd := (hasPair_cons hhash).1 (by simp [isGap, beq_iff_eq.mp hc])
          simpa using hd
        · simpa using hlast

theorem atDocumentMarker_of_unmarked (h : startsWithMark cs = false) :
    Cursor.atDocumentMarker column (cs ++ '\n' :: follow) = false := by
  have hmarker (mark : Char) (hmark : mark = '-' ∨ mark = '.') :
      Cursor.atMarker mark column (cs ++ '\n' :: follow) = false := by
    have hbreak : mark ≠ '\n' := by
      rintro rfl
      simp at hmark
    match cs with
    | [] => simp [startsWithMark] at h
    | [a] => cases follow <;> simp [Cursor.atMarker, hbreak.symm]
    | [a, b] => simp [Cursor.atMarker, hbreak.symm]
    | a :: b :: c :: cs =>
      by_contra hmarked
      simp only [Cursor.atMarker, List.cons_append, Bool.not_eq_false, Bool.and_eq_true,
        beq_iff_eq] at hmarked
      obtain ⟨⟨⟨⟨-, rfl⟩, rfl⟩, rfl⟩, -⟩ := hmarked
      rcases hmark with rfl | rfl <;> simp [startsWithMark] at h
  simp [Cursor.atDocumentMarker, hmarker]

/-- A text that is written plain is read up to the next line. -/
theorem scanPlain_text (hplain : allowsPlain cs) (hbreak : ∀ c ∈ cs, isBreak c = false)
    (hfollow : Follows indent follow n tail) (line column offset : Nat) :
    ∃ g offset', scanPlain ⟨false, indent + 1⟩ true {} line column offset (cs ++ '\n' :: follow) =
      .ok (g, ⟨tail, line + 1, n, offset'⟩) ∧ g.result = String.ofList cs ∧ g.folding := by
  simp only [allowsPlain, allowsSingle, Bool.and_eq_true, Bool.not_eq_true',
    Bool.or_eq_false_iff] at hplain
  obtain ⟨⟨⟨-, htab⟩, -⟩, ⟨⟨-, hspace⟩, hstart⟩, hmark⟩ := hplain
  have hhead : cs.head? ≠ some '#' := by
    rintro hhead
    obtain ⟨cs, rfl⟩ := List.head?_eq_some_iff.mp hhead
    simp [startsWithMark] at hstart
  have hlast : cs.getLast? ≠ some ' ' := by
    intro hlast
    simp [hasOuterSpace, hlast] at hspace
  have hruns : Runs ('\n' :: follow) true cs :=
    runs_of_unmarked hbreak (by simpa using htab) (fun _ => hhead) hmark
  obtain ⟨fresh', hscan⟩ := scanPlain_runs (p := ⟨false, indent + 1⟩) (f := {}) rfl hruns rfl
    (atDocumentMarker_of_unmarked hstart) line offset
  obtain ⟨g, offset', hline, htext, hfolding⟩ := scanPlain_newline hfollow fresh'
    (cs.foldl Fold.read {}) line (column + cs.length) (offset + cs.length)
  refine ⟨g, offset', hscan.trans hline, ?_, hfolding⟩
  rw [Fold.result, htext, Fold.text_foldl hlast, List.reverse_reverse]

end Plain

end Flowchart.Document
