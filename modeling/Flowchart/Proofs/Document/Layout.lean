import Flowchart.Proofs.Document.Scalars

/-!
# The layout of documents

What the scanner makes of the lines of a node: the lexemes of the node, and nothing else. Blocks are
opened when their first key or item is read, but closed only when a later line is indented less, so
every statement here says which blocks are still open.
-/

namespace Flowchart.Document

/-- Keys are words of letters, not too long, that do not spell a null. -/
def isKey (s : String) : Bool :=
  s != "" && s.toList.all Char.isAlpha && !isNullSpelling s && s.length ≤ Scanner.keyReach

namespace Scanner

/-! ## Steps of the scanner -/

/-- The scanner before the next visible character. -/
def settled (s : Scanner) : Scanner :=
  let c := s.cursor
  let r := skipGaps s.inFlow s.keyAllowed false c.line c.column c.offset c.rest
  { s with cursor := r.2, keyAllowed := r.1 }

/-- The scanner before the next visible character, with the blocks closed that end there. -/
def ready (s : Scanner) : Scanner := s.settled.closeBlocks s.settled.cursor.column

theorem next_of_nil {s : Scanner} (h : s.settled.cursor.rest = []) :
    s.next = do return (true, (← (s.ready.closeBlocks (-1)).dropKey).push .endOfText) := by
  unfold settled at h
  unfold next ready settled
  dsimp only at h ⊢
  rw [h]

theorem next_of_cons {s : Scanner} {c : Char} {cs : List Char}
    (h : s.settled.cursor.rest = c :: cs) :
    s.next = do return (false, ← s.ready.lexeme c cs) := by
  unfold settled at h
  unfold next ready settled
  dsimp only at h ⊢
  rw [h]

theorem length_skipGaps (flow keyAllowed comment : Bool) (line column offset : Nat)
    (cs : List Char) :
    (skipGaps flow keyAllowed comment line column offset cs).2.rest.length ≤ cs.length := by
  induction cs generalizing keyAllowed comment line column offset with
  | nil => simp [skipGaps]
  | cons c cs ih =>
    rw [skipGaps]
    split_ifs
    · exact Nat.le_succ_of_le (ih ..)
    · exact Nat.le_succ_of_le (ih ..)
    · exact Nat.le_succ_of_le (ih ..)
    · exact Nat.le_refl _

/-- The scanner comes from one state to another, with every lexeme closer to the end. -/
inductive Scans : Scanner → Scanner → Prop
  | refl (s : Scanner) : Scans s s
  | step {s s₁ s₂ : Scanner} (hnext : s.next = .ok (false, s₁))
      (hlt : s₁.cursor.rest.length < s.settled.cursor.rest.length) (hlater : Scans s₁ s₂) :
      Scans s s₂

theorem Scans.trans {s₁ s₂ s₃ : Scanner} (h : Scans s₁ s₂) (h' : Scans s₂ s₃) : Scans s₁ s₃ := by
  induction h with
  | refl => exact h'
  | step hnext hlt _ ih => exact .step hnext hlt (ih h')

theorem Scans.run_eq {s s' final : Scanner} (h : Scans s s') (hend : s'.next = .ok (true, final))
    {fuel : Nat} (hfuel : s.cursor.rest.length < fuel) : run fuel s = final.lexemes := by
  induction h generalizing fuel with
  | refl s =>
    obtain ⟨fuel, rfl⟩ := Nat.exists_eq_add_one_of_ne_zero (Nat.ne_zero_of_lt hfuel)
    simp only [run, hend]
  | @step s s₁ s₂ hnext hlt _ ih =>
    obtain ⟨fuel, rfl⟩ := Nat.exists_eq_add_one_of_ne_zero (Nat.ne_zero_of_lt hfuel)
    have hle : s.settled.cursor.rest.length ≤ s.cursor.rest.length := length_skipGaps ..
    simp only [run, hnext]
    exact ih hend (by omega)

/-! ## Open blocks -/

theorem dropIndents_of_le {column indent : Int} (h : indent ≤ column) (indents : List Int) :
    dropIndents column indent indents = (0, indent, indents) := by
  cases indents with
  | nil => rfl
  | cons i rest => rw [dropIndents, if_neg (by omega)]

theorem dropIndents_dropIndents {a b indent j : Int} {indents js : List Int} {m : Nat} (hle : b ≤ a)
    (h : dropIndents a indent indents = (m, j, js)) :
    dropIndents b indent indents = ((dropIndents b j js).1 + m, (dropIndents b j js).2) := by
  induction indents generalizing indent m with
  | nil =>
    cases h
    simp [dropIndents]
  | cons i rest ih =>
    rw [dropIndents] at h
    split_ifs at h with hlt
    · obtain ⟨m', hrest, rfl⟩ : ∃ m', dropIndents a i rest = (m', j, js) ∧ m' + 1 = m := by
        rcases hd : dropIndents a i rest with ⟨m', j', js'⟩
        rw [hd] at h
        cases h
        exact ⟨m', rfl, rfl⟩
      rw [dropIndents, if_pos (by omega), ih hrest]
      rfl
    · cases h
      simp

/-- Above the block with indentation `i` there are `m` open blocks, all from column `high` on. -/
def Opens (high i : Int) (is : List Int) (m : Nat) (indent : Int) (indents : List Int) : Prop :=
  ∀ column, i ≤ column → column < high → dropIndents column indent indents = (m, i, is)

theorem opens_nothing (high i : Int) (is : List Int) : Opens high i is 0 i is :=
  fun _ hle _ => dropIndents_of_le hle is

theorem Opens.outer {high i c indent : Int} {is indents : List Int} {m : Nat}
    (h : Opens high c (i :: is) m indent indents) (hc : c < high) :
    Opens c i is (m + 1) indent indents := by
  intro column hle hlt
  have hone : dropIndents column c (i :: is) = (1, i, is) := by
    rw [dropIndents, if_pos hlt, dropIndents_of_le hle]
  rw [dropIndents_dropIndents (Int.le_of_lt hlt) (h c (Int.le_refl c) hc), hone, Nat.add_comm]

/-! ## Before and after a node -/

section Gaps

variable {flow keyAllowed : Bool} {line column offset n : Nat} {c : Char}
  {cs follow tail : List Char} {i : Int}

theorem skipGaps_visible (hc : Visible c) :
    skipGaps flow keyAllowed false line column offset (c :: cs) =
      (keyAllowed, ⟨c :: cs, line, column, offset⟩) := by
  have hgap := hc.solid
  simp only [isGap, Bool.or_eq_false_iff] at hgap
  rw [skipGaps]
  simp [hc.linear, hgap, hc.content, hc.unmarked]

theorem skipGaps_blanks :
    skipGaps flow keyAllowed false line column offset (blanks n ++ cs) =
      skipGaps flow keyAllowed false line (column + n) (offset + n) cs := by
  induction n generalizing column offset with
  | zero => rfl
  | succ n ih =>
    rw [blanks, List.replicate_succ, List.cons_append, ← blanks, skipGaps]
    simp only [isBreak, ih]
    simp
    congr 1 <;> omega

theorem skipGaps_newline :
    skipGaps false keyAllowed false line column offset ('\n' :: cs) =
      skipGaps false true false (line + 1) 0 (offset + 1) cs := by
  rw [skipGaps]
  simp [isBreak]

theorem skipGaps_follows (h : Follows i follow n tail) (line offset : Nat) :
    ∃ offset', skipGaps false true false line 0 offset follow =
      (true, ⟨tail, line, n, offset'⟩) := by
  cases h with
  | nothing => exact ⟨offset, rfl⟩
  | line hc hn =>
    rw [skipGaps_blanks, skipGaps_visible hc, Nat.zero_add]
    exact ⟨_, rfl⟩

theorem skipGaps_tail (h : Follows i follow n tail) :
    skipGaps false keyAllowed false line column offset tail =
      (keyAllowed, ⟨tail, line, column, offset⟩) := by
  cases h with
  | nothing => rfl
  | line hc hn => exact skipGaps_visible hc

end Gaps

/-- A place for a key that may be given up. -/
def Free (k : Option KeyPlace) : Prop := ∀ place, k = some place → place.required = false

/-- The scanner is about to read `rest`, with the lexemes `ls` behind it. -/
inductive Before (rest : List Char) (column : Nat) (ls : List Lexeme) (i : Int) (is : List Int)
    (keyAllowed : Bool) (s : Scanner) : Prop
  | mk {line offset : Nat} {k : Option KeyPlace} (hk : Free k)
      (hs : s.ready = ⟨⟨rest, line, column, offset⟩, ls.toArray, i, is, 0, keyAllowed, [k]⟩) :
      Before rest column ls i is keyAllowed s

/-- The scanner has read a node at column `high` in the block with indentation `i`, and `ls` are all
lexemes up to its end. The ends of the blocks that are still open are the last of them. -/
inductive After (high i : Int) (is : List Int) (ls : List Lexeme) (n : Nat) (tail : List Char)
    (s : Scanner) : Prop
  | mk {line offset m : Nat} {lexemes : List Lexeme} {indent : Int} {indents : List Int}
      {k : Option KeyPlace} (hk : Free k) (hopen : Opens high i is m indent indents)
      (hls : lexemes ++ List.replicate m .blockEnd = ls)
      (hs : s.settled = ⟨⟨tail, line, n, offset⟩, lexemes.toArray, indent, indents, 0, true, [k]⟩) :
      After high i is ls n tail s

section States

variable {s s₁ : Scanner} {cursor : Cursor} {c : Char} {cs rest tail : List Char} {column m n : Nat}
  {ls lexemes : List Lexeme} {i high indent col : Int} {is indents : List Int} {keyAllowed : Bool}
  {keys : List (Option KeyPlace)}

theorem closeBlocks_eq (h : dropIndents col indent indents = (m, i, is)) :
    (⟨cursor, lexemes.toArray, indent, indents, 0, keyAllowed, keys⟩ : Scanner).closeBlocks col =
      ⟨cursor, (lexemes ++ List.replicate m Lexeme.blockEnd).toArray, i, is, 0, keyAllowed,
        keys⟩ := by
  simp [closeBlocks, inFlow, h]

theorem cursor_ready (s : Scanner) : s.ready.cursor = s.settled.cursor := by
  unfold ready closeBlocks
  split <;> rfl

theorem Before.settled_rest (h : Before rest column ls i is keyAllowed s) :
    s.settled.cursor.rest = rest := by
  obtain ⟨-, hs⟩ := h
  rw [← cursor_ready, hs]

theorem scans_of_lexeme (hrest : s.settled.cursor.rest = c :: cs)
    (hlex : s.ready.lexeme c cs = .ok s₁) (hle : s₁.cursor.rest.length ≤ cs.length) :
    Scans s s₁ := by
  refine .step ?_ ?_ (.refl s₁)
  · rw [next_of_cons hrest, hlex]
    rfl
  · rw [hrest]
    exact Nat.lt_succ_of_le hle

theorem settled_of_visible (hrest : s.cursor.rest = c :: cs) (hc : Visible c) : s.settled = s := by
  obtain ⟨⟨rest, line, column, offset⟩, lexemes, indent, indents, flow, keyAllowed, keys⟩ := s
  obtain rfl : rest = c :: cs := hrest
  simp only [settled, skipGaps_visible hc]

theorem After.before (h : After high i is ls n tail s) (hle : i ≤ n) (hlt : (n : Int) < high) :
    Before tail n ls i is true s := by
  obtain ⟨hk, hopen, rfl, hs⟩ := h
  have hready : s.ready = s.settled.closeBlocks s.settled.cursor.column := rfl
  rw [hs, closeBlocks_eq (hopen n hle hlt)] at hready
  exact .mk hk hready

theorem After.outer {c : Int} (h : After high c (i :: is) ls n tail s) (hc : c < high) :
    After c i is (ls ++ [.blockEnd]) n tail s := by
  obtain ⟨hk, hopen, rfl, hs⟩ := h
  refine .mk hk (hopen.outer hc) ?_ hs
  rw [List.replicate_succ', List.append_assoc]

theorem dropKey_eq {k : Option KeyPlace} (hk : Free k) :
    (⟨cursor, lexemes.toArray, i, is, 0, keyAllowed, [k]⟩ : Scanner).dropKey =
      .ok ⟨cursor, lexemes.toArray, i, is, 0, keyAllowed, [none]⟩ := by
  cases k with
  | none => rfl
  | some place => simp [dropKey, hk place rfl]

theorem After.final (h : After 0 (-1) [] ls n [] s) :
    ∃ final, s.next = .ok (true, final) ∧ final.lexemes.toList = ls ++ [.endOfText] := by
  obtain ⟨hk, hopen, rfl, hs⟩ := h
  rename_i line offset m lexemes indent indents k
  -- Some blocks end with the last line, the others with the text.
  rcases hdrop : dropIndents n indent indents with ⟨m₁, j, js⟩
  have hall := hopen (-1) (Int.le_refl _) (by decide)
  rw [dropIndents_dropIndents (by omega) hdrop] at hall
  rcases hrest : dropIndents (-1) j js with ⟨m₂, j', js'⟩
  rw [hrest] at hall
  cases hall
  rw [next_of_nil (by rw [hs]), ready, hs, closeBlocks_eq hdrop, closeBlocks_eq hrest,
    dropKey_eq hk]
  refine ⟨_, rfl, ?_⟩
  simp [push, Nat.add_comm]

end States

/-! ## Single lexemes -/

section Lexemes

variable {s : Scanner} {c : Char} {cs : List Char}

/-- The characters that no plain text starts with. -/
def marks : List Char := "#,[]\x7b\x7d&*!|>'\"%@\x60".toList

theorem startsPlain_of_unmarked (hgap : isGap c = false) (hmark : c ∉ marks)
    (hword : c = '-' ∨ c = '?' ∨ c = ':' → endsWord cs = false) :
    startsPlain false c cs = true := by
  by_cases hc : c = '-' ∨ c = '?' ∨ c = ':'
  · have hends := hword hc
    cases cs with
    | nil => cases hends
    | cons d cs =>
      have hd : isGap d = false := (Bool.or_eq_false_iff.mp hends).1
      rcases hc with rfl | rfl | rfl <;> simp [startsPlain, hends, hd]
  · have hall : ("-?:,[]\x7b\x7d#&*!|>'\"%@\x60".toList.all fun d =>
        decide (d ∈ marks ∨ d = '-' ∨ d = '?' ∨ d = ':')) = true := by decide
    have hlist : "-?:,[]\x7b\x7d#&*!|>'\"%@\x60".toList.contains c = false := by
      rw [List.contains_eq_mem, decide_eq_false_iff_not]
      intro hmem
      exact (of_decide_eq_true (List.all_eq_true.mp hall c hmem)).elim hmark hc
    rw [startsPlain, hgap, hlist]
    rfl

theorem startsWithMark_cons (h : startsWithMark (c :: cs) = false) :
    c ∉ marks ∧ (c = '-' ∨ c = '?' ∨ c = ':' → cs ≠ [] ∧ cs.head?.any isGap = false) := by
  have hor : (marks.contains c || (c == '?' || c == ':' || c == '-') &&
      (cs.isEmpty || cs.head?.any isGap)) = false := by
    unfold startsWithMark at h
    split at h
    · cases h
    · cases h
    · cases h
    · rename_i heq
      cases heq
      exact h
  rw [Bool.or_eq_false_iff, List.contains_eq_mem, decide_eq_false_iff_not] at hor
  refine ⟨hor.1, fun hc => ?_⟩
  have hone : (c == '?' || c == ':' || c == '-') = true := by
    rcases hc with rfl | rfl | rfl <;> rfl
  simpa [hone] using hor.2

theorem allowsPlain_cons (h : allowsPlain (c :: cs)) (hbreak : ∀ d ∈ c :: cs, isBreak d = false) :
    isGap c = false ∧ c ∉ marks ∧
      (c = '-' ∨ c = '?' ∨ c = ':' → ∀ follow, endsWord (cs ++ follow) = false) := by
  simp only [allowsPlain, allowsSingle, Bool.and_eq_true, Bool.not_eq_true',
    Bool.or_eq_false_iff] at h
  obtain ⟨⟨⟨-, htab⟩, -⟩, ⟨⟨-, hspace⟩, hstart⟩, -⟩ := h
  obtain ⟨hmark, hword⟩ := startsWithMark_cons hstart
  refine ⟨?_, hmark, fun hc follow => ?_⟩
  · have htab' : c ≠ '\t' := by
      rintro rfl
      simp at htab
    have hblank : c ≠ ' ' := by
      rintro rfl
      simp [hasOuterSpace] at hspace
    simp [isGap, htab', hblank]
  · obtain ⟨hne, hgap⟩ := hword hc
    cases cs with
    | nil => exact absurd rfl hne
    | cons d cs =>
      have hd : isGap d = false := by simpa using hgap
      simp [endsWord, hd, hbreak d (by simp)]

theorem lexeme_plain (hflow : s.flow = 0) (hgap : isGap c = false) (hmark : c ∉ marks)
    (hword : c = '-' ∨ c = '?' ∨ c = ':' → endsWord cs = false)
    (hmarker : Cursor.atDocumentMarker s.cursor.column (c :: cs) = false) :
    s.lexeme c cs = s.plainScalar := by
  have hne (d : Char) (hd : d ∈ marks) : (c == d) = false := by
    rw [beq_eq_false_iff_ne]
    rintro rfl
    exact hmark hd
  have hends (d : Char) (hd : d = '-' ∨ d = '?' ∨ d = ':') : (c == d && endsWord cs) = false := by
    by_cases hc : c = d
    · simp [hword (hc ▸ hd)]
    · simp [hc]
  simp only [Cursor.atDocumentMarker, Bool.or_eq_false_iff] at hmarker
  have hflow' : s.inFlow = false := by simp [inFlow, hflow]
  unfold lexeme
  simp only [hne '%' (by decide), hne '[' (by decide), hne '\x7b' (by decide), hne ']' (by decide),
    hne '\x7d' (by decide), hne ',' (by decide), hne '|' (by decide), hne '>' (by decide),
    hne '\'' (by decide), hne '"' (by decide), hends '-' (by simp), hends '?' (by simp),
    hends ':' (by simp), hmarker, hflow', startsPlain_of_unmarked hgap hmark hword, Bool.and_false,
    Bool.false_and, Bool.false_or, Bool.false_eq_true, if_false, if_true]

theorem atMarker_of_ne {mark : Char} (h : c ≠ mark) (column : Nat) :
    Cursor.atMarker mark column (c :: cs) = false := by
  unfold Cursor.atMarker
  split
  · rename_i heq
    cases heq
    simp [h]
  · rfl

theorem lexeme_entry : s.lexeme '-' (' ' :: cs) = s.entryMark := by
  have hmarker : Cursor.atMarker '-' s.cursor.column ('-' :: ' ' :: cs) = false := by
    unfold Cursor.atMarker
    split
    · rename_i heq
      cases heq
      simp
    · rfl
  unfold lexeme
  simp [hmarker, atMarker_of_ne, endsWord, isGap]

theorem lexeme_colon (h : endsWord cs) : s.lexeme ':' cs = s.valueMark := by
  unfold lexeme
  simp [atMarker_of_ne, h]

theorem lexeme_single : s.lexeme '\'' cs = s.quotedScalar false := by
  unfold lexeme
  simp [atMarker_of_ne]

theorem lexeme_double : s.lexeme '"' cs = s.quotedScalar true := by
  unfold lexeme
  simp [atMarker_of_ne]

/-! ### Texts -/

variable {ls : List Lexeme} {i high : Int} {is : List Int} {keyAllowed : Bool}
  {k : Option KeyPlace} {column n : Nat} {text : String} {follow tail : List Char}

theorem markKey_allowed (cursor : Cursor) (ls : List Lexeme) (i : Int) (is : List Int)
    (hk : Free k) :
    (⟨cursor, ls.toArray, i, is, 0, true, [k]⟩ : Scanner).markKey =
      .ok ⟨cursor, ls.toArray, i, is, 0, true,
        [some ⟨i == (cursor.column : Int), ls.length, cursor.line, cursor.column,
          cursor.offset⟩]⟩ := by
  simp only [markKey, inFlow, if_true, dropKey_eq hk]
  rfl

theorem markKey_eq (cursor : Cursor) (ls : List Lexeme) (is : List Int) (hk : Free k)
    (hi : keyAllowed → i < cursor.column) :
    ∃ k', Free k' ∧ (⟨cursor, ls.toArray, i, is, 0, keyAllowed, [k]⟩ : Scanner).markKey =
      .ok ⟨cursor, ls.toArray, i, is, 0, keyAllowed, [k']⟩ := by
  cases keyAllowed with
  | false => exact ⟨k, hk, rfl⟩
  | true =>
    refine ⟨_, ?_, markKey_allowed cursor ls i is hk⟩
    rintro place ⟨⟩
    exact beq_eq_false_iff_ne.mpr (Int.ne_of_lt (hi rfl))

theorem plainScalar_eq {line offset : Nat} {cursor' : Cursor} {f : Fold} {k' : Option KeyPlace}
    (hmark :
      (⟨⟨cs, line, column, offset⟩, ls.toArray, i, is, 0, keyAllowed, [k]⟩ : Scanner).markKey =
        .ok ⟨⟨cs, line, column, offset⟩, ls.toArray, i, is, 0, keyAllowed, [k']⟩)
    (hscan : scanPlain ⟨false, i + 1⟩ true {} line column offset cs = .ok (f, cursor')) :
    (⟨⟨cs, line, column, offset⟩, ls.toArray, i, is, 0, keyAllowed, [k]⟩ : Scanner).plainScalar =
      .ok ⟨cursor', (ls ++ [Lexeme.scalar f.result true]).toArray, i, is, 0, f.folding, [k']⟩ := by
  simp only [plainScalar, hmark, bind, Except.bind]
  simp [inFlow, hscan, push, pure, Except.pure]

theorem quotedScalar_eq (ls : List Lexeme) (is : List Int) {double : Bool} {line offset : Nat}
    {cursor' : Cursor} {f : Fold} (hk : Free k) (hi : keyAllowed → i < column)
    (hscan : scanQuoted double .text {} line (column + 1) (offset + 1) cs = .ok (f, cursor')) :
    ∃ k', Free k' ∧
      (⟨⟨c :: cs, line, column, offset⟩, ls.toArray, i, is, 0, keyAllowed,
        [k]⟩ : Scanner).quotedScalar double =
        .ok ⟨cursor', (ls ++ [Lexeme.scalar f.result false]).toArray, i, is, 0, false, [k']⟩ := by
  obtain ⟨k', hk', hmark⟩ := markKey_eq ⟨c :: cs, line, column, offset⟩ ls is hk hi
  refine ⟨k', hk', ?_⟩
  simp only [quotedScalar, hmark, Cursor.advance, List.drop_one, List.tail_cons, hscan, bind,
    Except.bind]
  simp [push, pure, Except.pure]

/-- From here the scanner comes to the end of a node. -/
def Reads (s : Scanner) (high i : Int) (is : List Int) (ls : List Lexeme) (n : Nat)
    (tail : List Char) : Prop :=
  ∃ s', Scans s s' ∧ After high i is ls n tail s'

theorem after_newline {line offset : Nat} (hk : Free k) (hfollow : Follows i follow n tail) :
    After high i is ls n tail
      ⟨⟨'\n' :: follow, line, column, offset⟩, ls.toArray, i, is, 0, keyAllowed, [k]⟩ := by
  obtain ⟨offset', hskip⟩ := skipGaps_follows hfollow (line + 1) (offset + 1)
  have hs : settled ⟨⟨'\n' :: follow, line, column, offset⟩, ls.toArray, i, is, 0,
      keyAllowed, [k]⟩ =
      ⟨⟨tail, line + 1, n, offset'⟩, ls.toArray, i, is, 0, true, [k]⟩ := by
    simp [settled, inFlow, skipGaps_newline, hskip]
  exact .mk hk (opens_nothing high i is) (List.append_nil ls) hs

theorem after_tail {line offset : Nat} (hk : Free k) (hfollow : Follows i follow n tail) :
    After high i is ls n tail ⟨⟨tail, line, n, offset⟩, ls.toArray, i, is, 0, true, [k]⟩ := by
  have hs : settled ⟨⟨tail, line, n, offset⟩, ls.toArray, i, is, 0, true, [k]⟩ =
      ⟨⟨tail, line, n, offset⟩, ls.toArray, i, is, 0, true, [k]⟩ := by
    simp [settled, inFlow, skipGaps_tail hfollow]
  exact .mk hk (opens_nothing high i is) (List.append_nil ls) hs

theorem reads_plain (h : Before (cs ++ '\n' :: follow) column ls i is keyAllowed s)
    (hi : keyAllowed → i < column) (hplain : allowsPlain cs) (hbreak : ∀ c ∈ cs, isBreak c = false)
    (hfollow : Follows i follow n tail) :
    Reads s high i is (ls ++ [.scalar (String.ofList cs) true]) n tail := by
  have hrest := h.settled_rest
  obtain @⟨line, offset, k, hk, hs⟩ := h
  obtain ⟨g, offset', hscan, hresult, hfolding⟩ :=
    scanPlain_text hplain hbreak hfollow line column offset
  obtain ⟨k', hk', hmark⟩ := markKey_eq ⟨cs ++ '\n' :: follow, line, column, offset⟩ ls is hk hi
  have hscalar := plainScalar_eq hmark hscan
  rw [← hs, hresult, hfolding] at hscalar
  cases cs with
  | nil => simp [allowsPlain, startsWithMark] at hplain
  | cons c cs =>
    obtain ⟨hgap, hmark, hword⟩ := allowsPlain_cons hplain hbreak
    have hstart : startsWithMark (c :: cs) = false := by
      simp only [allowsPlain, Bool.and_eq_true, Bool.not_eq_true', Bool.or_eq_false_iff] at hplain
      exact hplain.2.1.2
    have hlex : s.ready.lexeme c (cs ++ '\n' :: follow) = s.ready.plainScalar :=
      lexeme_plain (by rw [hs]) hgap hmark (fun hc => hword hc _)
        (atDocumentMarker_of_unmarked hstart)
    rw [List.cons_append] at hrest
    refine ⟨_, scans_of_lexeme hrest (hlex.trans hscalar) ?_, after_tail hk' hfollow⟩
    have hle := hfollow.length_le
    simp only [List.length_append, List.length_cons]
    omega

theorem reads_quoted {double : Bool} {quote : Char} {body : List Char}
    (h : Before (quote :: (body ++ quote :: '\n' :: follow)) column ls i is keyAllowed s)
    (hi : keyAllowed → i < column)
    (hlex : ∀ (t : Scanner) (rest : List Char), t.lexeme quote rest = t.quotedScalar double)
    (hscan : ∀ line offset, ∃ column' offset', scanQuoted double .text {} line (column + 1) offset
      (body ++ quote :: '\n' :: follow) =
        .ok ({ text := text.toList.reverse }, ⟨'\n' :: follow, line, column', offset'⟩))
    (hfollow : Follows i follow n tail) :
    Reads s high i is (ls ++ [.scalar text false]) n tail := by
  have hrest := h.settled_rest
  obtain @⟨line, offset, k, hk, hs⟩ := h
  obtain ⟨column', offset', hscan⟩ := hscan line (offset + 1)
  obtain ⟨k', hk', hscalar⟩ := quotedScalar_eq (c := quote) ls is hk hi hscan
  rw [← hs, ← hlex s.ready (body ++ quote :: '\n' :: follow), Fold.result, List.reverse_reverse,
    String.ofList_toList] at hscalar
  refine ⟨_, scans_of_lexeme hrest hscalar ?_, after_newline hk' hfollow⟩
  simp only [List.length_append, List.length_cons]
  omega

theorem style_of_linear (hbreak : ∀ c ∈ text.toList, isBreak c = false) :
    Style.of text = .plain ∧ hasMeaning text = false ∧ allowsPlain text.toList ∨
      Style.of text = .single ∧ allowsSingle text.toList ∨ Style.of text = .double := by
  have hline : text.toList.contains '\n' = false := by
    rw [List.contains_eq_mem, decide_eq_false_iff_not]
    intro hmem
    exact absurd (hbreak _ hmem) (by decide)
  simp only [Style.of, hline, Bool.false_eq_true, if_false]
  split_ifs with hmeaning hplain hsingle
  · exact .inr (.inr rfl)
  · exact .inl ⟨rfl, by simpa using hmeaning, hplain⟩
  · exact .inr (.inl ⟨rfl, hsingle⟩)
  · exact .inr (.inr rfl)

theorem reads_text {indent : Nat} (hbreak : ∀ c ∈ text.toList, isBreak c = false)
    (h : Before (scalarLines indent text ++ follow) column ls i is keyAllowed s)
    (hi : keyAllowed → i < column) (hfollow : Follows i follow n tail) :
    Reads s high i is (ls ++ [.scalar text (Style.of text = .plain)]) n tail := by
  rcases style_of_linear hbreak with ⟨hstyle, -, hplain⟩ | ⟨hstyle, hsingle⟩ | hstyle
  · simp only [scalarLines, hstyle, List.append_assoc, List.singleton_append] at h
    simpa [hstyle] using reads_plain h hi hplain hbreak hfollow
  · have htab : '\t' ∉ text.toList := by
      simp only [allowsSingle, Bool.not_eq_true', Bool.or_eq_false_iff] at hsingle
      simpa using hsingle.1.2
    have hlines : scalarLines indent text ++ follow =
        '\'' :: (text.toList.flatMap singleChar ++ '\'' :: '\n' :: follow) := by
      simp [scalarLines, hstyle, singleQuoted, singleBody_eq indent hbreak]
    rw [hlines] at h
    simpa [hstyle] using reads_quoted h hi (fun t rest => lexeme_single)
      (fun line offset => scanQuoted_single hbreak htab (by simp) (Nat.succ_ne_zero column)) hfollow
  · have hlines : scalarLines indent text ++ follow =
        '"' :: (text.toList.flatMap escapeScalarChar ++ '"' :: '\n' :: follow) := by
      simp [scalarLines, hstyle, doubleQuoted]
    rw [hlines] at h
    simpa [hstyle] using reads_quoted h hi (fun t rest => lexeme_double)
      (fun line offset => scanQuoted_double text.toList (Nat.succ_ne_zero column)) hfollow

/-! ### Empty collections -/

theorem reads_brackets {a b : Char} {opening closing : Lexeme}
    (h : Before (a :: b :: '\n' :: follow) column ls i is keyAllowed s)
    (hi : keyAllowed → i < column)
    (hopen : ∀ (t : Scanner) (rest : List Char), t.lexeme a rest = t.openBracket opening)
    (hclose : ∀ (t : Scanner) (rest : List Char), t.lexeme b rest = t.closeBracket closing)
    (hb : Visible b) (hfollow : Follows i follow n tail) :
    Reads s high i is (ls ++ [opening, closing]) n tail := by
  have hrest := h.settled_rest
  obtain @⟨line, offset, k, hk, hs⟩ := h
  obtain ⟨k', hk', hmark⟩ := markKey_eq ⟨a :: b :: '\n' :: follow, line, column, offset⟩ ls is hk hi
  have hfirst : s.ready.lexeme a (b :: '\n' :: follow) =
      .ok ⟨⟨b :: '\n' :: follow, line, column + 1, offset + 1⟩, (ls ++ [opening]).toArray, i,
        is, 1, true, [none, k']⟩ := by
    rw [hopen, hs, openBracket, hmark]
    simp [bind, Except.bind, pure, Except.pure, take, push, Cursor.advance]
  refine ⟨⟨⟨'\n' :: follow, line, column + 2, offset + 2⟩, (ls ++ [opening, closing]).toArray, i,
    is, 0, false, [k']⟩, ?_, after_newline hk' hfollow⟩
  refine (scans_of_lexeme hrest hfirst (Nat.le_refl _)).trans
    (scans_of_lexeme (c := b) ?_ ?_ (Nat.le_refl _))
  · rw [settled_of_visible rfl hb]
  · rw [hclose, ready, settled_of_visible rfl hb]
    simp [closeBlocks, inFlow, closeBracket, dropKey, bind, Except.bind, pure, Except.pure,
      take, push, Cursor.advance]

theorem lexeme_openList (t : Scanner) (rest : List Char) :
    t.lexeme '[' rest = t.openBracket .openList := by
  unfold lexeme
  simp [atMarker_of_ne]

theorem lexeme_closeList (t : Scanner) (rest : List Char) :
    t.lexeme ']' rest = t.closeBracket .closeList := by
  unfold lexeme
  simp [atMarker_of_ne]

theorem lexeme_openMap (t : Scanner) (rest : List Char) :
    t.lexeme '\x7b' rest = t.openBracket .openMap := by
  unfold lexeme
  simp [atMarker_of_ne]

theorem lexeme_closeMap (t : Scanner) (rest : List Char) :
    t.lexeme '\x7d' rest = t.closeBracket .closeMap := by
  unfold lexeme
  simp [atMarker_of_ne]

/-! ### Lines of blocks -/

theorem ready_of_settled {line offset : Nat} (hi : i ≤ n)
    (hs : s.settled = ⟨⟨cs, line, n, offset⟩, ls.toArray, i, is, 0, keyAllowed, [k]⟩) :
    s.ready = s.settled := by
  rw [ready, hs, closeBlocks_eq (dropIndents_of_le hi is), List.replicate_zero, List.append_nil]

theorem before_of_settled {line offset : Nat} (hk : Free k) (hi : i ≤ n)
    (hs : s.settled = ⟨⟨cs, line, n, offset⟩, ls.toArray, i, is, 0, keyAllowed, [k]⟩) :
    Before cs n ls i is keyAllowed s :=
  .mk hk ((ready_of_settled hi hs).trans hs)

theorem before_of_blank {line offset : Nat} (hc : Visible c) (hk : Free k) (hi : i ≤ column) :
    Before (c :: cs) (column + 1) ls i is keyAllowed
      ⟨⟨' ' :: c :: cs, line, column, offset⟩, ls.toArray, i, is, 0, keyAllowed, [k]⟩ := by
  have hskip : skipGaps false keyAllowed false line column offset (blanks 1 ++ c :: cs) =
      (keyAllowed, ⟨c :: cs, line, column + 1, offset + 1⟩) := by
    rw [skipGaps_blanks, skipGaps_visible hc]
  have hs : settled ⟨⟨blanks 1 ++ c :: cs, line, column, offset⟩, ls.toArray, i, is, 0,
      keyAllowed, [k]⟩ =
      ⟨⟨c :: cs, line, column + 1, offset + 1⟩, ls.toArray, i, is, 0, keyAllowed, [k]⟩ := by
    simp only [settled, inFlow, bne_self_eq_false, hskip]
  exact before_of_settled hk (by omega) hs

theorem before_of_newline {line offset : Nat} (hc : Visible c) (hk : Free k) (hi : i ≤ n) :
    Before (c :: cs) n ls i is true
      ⟨⟨'\n' :: (blanks n ++ c :: cs), line, column, offset⟩, ls.toArray, i, is, 0, keyAllowed,
        [k]⟩ := by
  have hs : settled ⟨⟨'\n' :: (blanks n ++ c :: cs), line, column, offset⟩, ls.toArray, i, is, 0,
      keyAllowed, [k]⟩ =
      ⟨⟨c :: cs, line + 1, 0 + n, offset + 1 + n⟩, ls.toArray, i, is, 0, true, [k]⟩ := by
    simp [settled, inFlow, skipGaps_newline, skipGaps_blanks, skipGaps_visible hc]
  rw [Nat.zero_add] at hs
  exact before_of_settled hk hi hs

/-- The block at column `c` is about to be opened by its first line, or it is open. In either case
the lexemes `ls` become `ls'`. -/
inductive Opening (mark : Lexeme) (c : Nat) (i : Int) (is : List Int) :
    List Lexeme → Int → List Int → List Lexeme → Prop
  | first {ls : List Lexeme} (hi : i < c) : Opening mark c i is ls i is (ls ++ [mark])
  | later {ls : List Lexeme} : Opening mark c i is ls c (i :: is) ls

variable {mark : Lexeme} {ls' : List Lexeme} {j : Int} {js : List Int} {col : Nat}

theorem Opening.le (h : Opening mark col i is ls j js ls') : j ≤ col := by
  cases h with
  | first hi => exact Int.le_of_lt hi
  | later => exact Int.le_refl _

theorem openBlock_eq {cursor : Cursor} {keys : List (Option KeyPlace)}
    (h : Opening mark col i is ls j js ls') :
    (⟨cursor, ls.toArray, j, js, 0, keyAllowed, keys⟩ : Scanner).openBlock col none mark =
      ⟨cursor, ls'.toArray, col, i :: is, 0, keyAllowed, keys⟩ := by
  cases h with
  | first hi =>
    have hle : ¬ (col : Int) ≤ i := Int.not_le.mpr hi
    simp [openBlock, inFlow, hle, push]
  | later => simp [openBlock, inFlow]

theorem insertIdx_length_append {α : Type} (xs ys : List α) (a : α) :
    (xs ++ ys).insertIdx xs.length a = xs ++ a :: ys := by
  induction xs with
  | nil => rfl
  | cons x xs ih => simp [ih]

theorem openBlock_insert {cursor : Cursor} {keys : List (Option KeyPlace)} {found : List Lexeme}
    (h : Opening mark col i is ls j js ls') :
    (⟨cursor, (ls ++ found).toArray, j, js, 0, keyAllowed, keys⟩ : Scanner).openBlock col
      (some ls.length) mark =
      ⟨cursor, (ls' ++ found).toArray, col, i :: is, 0, keyAllowed, keys⟩ := by
  cases h with
  | first hi =>
    have hle : ¬ (col : Int) ≤ i := Int.not_le.mpr hi
    simp [openBlock, inFlow, hle, insertAt, insertIdx_length_append]
  | later => simp [openBlock, inFlow]

theorem free_none : Free none := by
  rintro place ⟨⟩

theorem scans_entry (h : Before ('-' :: ' ' :: c :: cs) col ls j js true s) (hc : Visible c)
    (hopen : Opening .listStart col i is ls j js ls') :
    ∃ s₁, Scans s s₁ ∧ Before (c :: cs) (col + 2) (ls' ++ [.entry]) col (i :: is) true s₁ := by
  have hrest := h.settled_rest
  obtain @⟨line, offset, k, hk, hs⟩ := h
  have hlex : s.ready.lexeme '-' (' ' :: c :: cs) =
      .ok ⟨⟨' ' :: c :: cs, line, col + 1, offset + 1⟩, (ls' ++ [Lexeme.entry]).toArray, col,
        i :: is, 0, true, [none]⟩ := by
    rw [lexeme_entry, hs]
    simp only [entryMark, openBlock_eq hopen, dropKey_eq hk]
    simp [bind, Except.bind, pure, Except.pure, take, push, Cursor.advance]
  exact ⟨_, scans_of_lexeme hrest hlex (Nat.le_refl _), before_of_blank hc free_none (by omega)⟩

/-! ### Keys -/

theorem ne_of_isAlpha {d : Char} (hc : c.isAlpha) (hd : d.isAlpha = false) : c ≠ d := by
  rintro rfl
  exact absurd hc (by simp [hd])

theorem visible_of_isAlpha (hc : c.isAlpha) : Visible c := by
  have hne {d : Char} (hd : d.isAlpha = false) : c ≠ d := ne_of_isAlpha hc hd
  refine ⟨?_, ?_, hne (by decide), hne (by decide)⟩
  · simp [isBreak, hne (d := '\n') (by decide), hne (d := '\u2028') (by decide),
      hne (d := '\u2029') (by decide)]
  · simp [isGap, hne (d := ' ') (by decide), hne (d := '\t') (by decide)]

theorem runs_of_isAlpha {fresh : Bool} {rest : List Char} (h : ∀ c ∈ cs, c.isAlpha) :
    Runs rest fresh cs := by
  induction cs generalizing fresh with
  | nil => trivial
  | cons c cs ih =>
    rw [List.forall_mem_cons] at h
    have hvisible := visible_of_isAlpha h.1
    exact ⟨hvisible.linear, ne_of_isAlpha h.1 (by decide), fun _ => hvisible.content,
      fun heq => absurd heq (ne_of_isAlpha h.1 (by decide)), ih h.2⟩

theorem isKey_iff {key : String} : isKey key ↔
    ((key ≠ "" ∧ ∀ c ∈ key.toList, c.isAlpha) ∧ isNullSpelling key = false) ∧
    key.length ≤ keyReach := by
  simp [isKey]

theorem atDocumentMarker_of_isAlpha (hc : c.isAlpha) :
    Cursor.atDocumentMarker column (c :: cs) = false := by
  simp [Cursor.atDocumentMarker, atMarker_of_ne (ne_of_isAlpha hc (d := '-') (by decide)),
    atMarker_of_ne (ne_of_isAlpha hc (d := '.') (by decide))]

theorem scanPlain_key {key : String} {rest : List Char} (hkey : isKey key) (hrest : endsWord rest)
    (indent : Int) (line column offset : Nat) :
    ∃ f : Fold, scanPlain ⟨false, indent⟩ true {} line column offset (key.toList ++ ':' :: rest) =
      .ok (f, ⟨':' :: rest, line, column + key.length, offset + key.length⟩) ∧
        f.result = key ∧ f.folding = false := by
  obtain ⟨⟨⟨hne, halpha⟩, -⟩, -⟩ := isKey_iff.mp hkey
  have hmarker : Cursor.atDocumentMarker column (key.toList ++ ':' :: rest) = false := by
    cases hcs : key.toList with
    | nil => exact absurd (String.toList_eq_nil_iff.mp hcs) hne
    | cons c cs => exact atDocumentMarker_of_isAlpha (halpha c (by simp [hcs]))
  have hlast : key.toList.getLast? ≠ some ' ' := fun hlast =>
    absurd (halpha ' ' (List.mem_of_getLast? hlast)) (by decide)
  have hruns : Runs (':' :: rest) true key.toList := runs_of_isAlpha halpha
  obtain ⟨fresh', hscan⟩ :=
    scanPlain_runs (p := ⟨false, indent⟩) (f := {}) rfl hruns rfl hmarker line offset
  refine ⟨key.toList.foldl Fold.read {}, ?_, ?_, Fold.folding_foldl rfl key.toList⟩
  · rw [hscan, scanPlain_colon hrest, String.length_toList]
  · rw [Fold.result, Fold.text_foldl hlast, List.reverse_reverse, String.ofList_toList]

/-- A lexeme becomes a key when its colon is found. -/
theorem scans_colon {l : Lexeme} {required : Bool} {line offset offset' : Nat} {rest : List Char}
    (hopen : Opening .mapStart col i is ls j js ls') (hrest : endsWord rest) (hcol : col ≤ column)
    (hoffset : offset' ≤ offset + keyReach) :
    Scans ⟨⟨':' :: rest, line, column, offset'⟩, (ls ++ [l]).toArray, j, js, 0, false,
        [some ⟨required, ls.length, line, col, offset⟩]⟩
      ⟨⟨rest, line, column + 1, offset' + 1⟩, (ls' ++ [Lexeme.key, l, .value]).toArray, col,
        i :: is, 0, false, [none]⟩ := by
  have hvisible : Visible ':' := by constructor <;> decide
  have hle := hopen.le
  have hnear : ¬ (line < line ∨ offset + keyReach < offset') := by omega
  refine scans_of_lexeme (c := ':') (by rw [settled_of_visible rfl hvisible]) ?_ (Nat.le_refl _)
  rw [ready_of_settled (by omega) (settled_of_visible rfl hvisible),
    settled_of_visible rfl hvisible, lexeme_colon hrest]
  simp only [valueMark, currentKey, if_neg hnear, insertAt, List.insertIdxIfInBounds_toArray,
    insertIdx_length_append, openBlock_insert hopen, bind, Except.bind]
  simp [pure, Except.pure, take, push, Cursor.advance]

theorem scans_key {key : String} {rest : List Char}
    (h : Before (key.toList ++ ':' :: rest) col ls j js true s) (hkey : isKey key)
    (hrest : endsWord rest) (hopen : Opening .mapStart col i is ls j js ls') :
    ∃ line offset, Scans s ⟨⟨rest, line, col + key.length + 1, offset⟩,
      (ls' ++ [Lexeme.key, .scalar key true, .value]).toArray, col, i :: is, 0, false, [none]⟩ := by
  have hsettled := h.settled_rest
  obtain @⟨line, offset, k, hk, hs⟩ := h
  obtain ⟨⟨⟨hne, halpha⟩, -⟩, hlength⟩ := isKey_iff.mp hkey
  obtain ⟨f, hscan, hresult, hfolding⟩ := scanPlain_key hkey hrest (j + 1) line col offset
  have hscalar := plainScalar_eq (markKey_allowed _ ls j js hk) hscan
  rw [hresult, hfolding, ← hs] at hscalar
  -- The scalar is read first, and becomes a key when its colon is found.
  cases hcs : key.toList with
  | nil => exact absurd (String.toList_eq_nil_iff.mp hcs) hne
  | cons c cs =>
    rw [hcs, List.forall_mem_cons] at halpha
    rw [hcs, List.cons_append] at hsettled
    have hc := visible_of_isAlpha halpha.1
    have hmarks : (marks.all fun d => !d.isAlpha) = true := by decide
    have hplain : s.ready.lexeme c (cs ++ ':' :: rest) = s.ready.plainScalar := by
      refine lexeme_plain (by rw [hs]) hc.solid (fun hmem => ?_) ?_
        (atDocumentMarker_of_isAlpha halpha.1)
      · have hfalse := List.all_eq_true.mp hmarks c hmem
        simp [halpha.1] at hfalse
      · rintro (rfl | rfl | rfl) <;> exact absurd halpha.1 (by decide)
    have hfirst := scans_of_lexeme hsettled (hplain.trans hscalar) (by simp)
    exact ⟨line, offset + key.length + 1,
      hfirst.trans (scans_colon hopen hrest (Nat.le_add_right ..) (Nat.add_le_add_left hlength _))⟩

end Lexemes

end Scanner

end Flowchart.Document
