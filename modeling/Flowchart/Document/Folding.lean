import Flowchart.Document.Chars
import Flowchart.Number.Literal

/-!
# Scalars

Reading of plain, quoted and literal scalars. In plain and quoted scalars the lines are
folded: a single line break becomes a blank, and further ones are kept.
-/

namespace Flowchart.Document

/-- What is wrong with a document: a scalar cannot be read, or the layout around it. -/
inductive Malformed where
  | scalar
  | layout
deriving Repr, DecidableEq

/-! ## Folding -/

/-- Text read so far, and the gaps and breaks behind it, all last one first. `folding`
says that a line has ended since the last character. -/
structure Fold where
  text : List Char := []
  gaps : List Char := []
  folding : Bool := false
  firstBreak : Option Char := none
  breaks : List Char := []

namespace Fold

/-- Gaps at the start of a line do not count. -/
def gap (f : Fold) (c : Char) : Fold :=
  if f.folding then f else { f with gaps := c :: f.gaps }

def lineBreak (f : Fold) (c : Char) : Fold :=
  if f.folding then { f with breaks := c :: f.breaks }
  else { f with gaps := [], folding := true, firstBreak := some c }

/-- Takes what stands behind the text into it. -/
def join (f : Fold) : Fold :=
  if f.folding then
    let text := match f.firstBreak, f.breaks with
      | some '\n', [] => ' ' :: f.text
      | some '\n', breaks => breaks ++ f.text
      | some c, breaks => breaks ++ c :: f.text
      | none, breaks => breaks ++ f.text
    { text }
  else { text := f.gaps ++ f.text }

def push (f : Fold) (c : Char) : Fold := { f with text := c :: f.text }

def result (f : Fold) : String := String.ofList f.text.reverse

end Fold

/-! ## Plain scalars -/

/-- Where a plain scalar is read: inside of brackets or not, and how far its further lines
must be indented. -/
structure PlainContext where
  flow : Bool
  indent : Int

/-- Characters that end a plain scalar. -/
def PlainContext.ends (p : PlainContext) (c : Char) (rest : List Char) : Bool :=
  (c == ':' && endsWord rest) ||
    (p.flow && (c == ',' || c == '?' || c == '[' || c == ']' || c == '\x7b' || c == '\x7d'))

/-- `fresh` says that the character stands at the start or behind a gap or break. -/
def scanPlain (p : PlainContext) (fresh : Bool) (f : Fold) (line column offset : Nat) :
    List Char → Except Malformed (Fold × Cursor)
  | [] => .ok (f, ⟨[], line, column, offset⟩)
  | c :: cs =>
    if isBreak c then
      scanPlain p true (f.lineBreak c) (line + 1) 0 (offset + 1) cs
    else if isGap c then
      if f.folding && c == '\t' && decide ((column : Int) < p.indent) then .error .scalar
      else scanPlain p true (f.gap c) line (column + 1) (offset + 1) cs
    else
      let stop : Bool :=
        (fresh && (c == '#' || Cursor.atDocumentMarker column (c :: cs) ||
          (f.folding && !p.flow && decide ((column : Int) < p.indent)))) || p.ends c cs
      if stop then .ok (f, ⟨c :: cs, line, column, offset⟩)
      else scanPlain p false (f.join.push c) line (column + 1) (offset + 1) cs

/-! ## Quoted scalars -/

/-- The character of an escape that needs no digits. -/
def simpleEscape? (c : Char) : Option Char :=
  match c with
  | '0' => some '\x00'
  | 'a' => some '\x07'
  | 'b' => some '\x08'
  | 't' => some '\t'
  | '\t' => some '\t'
  | 'n' => some '\n'
  | 'v' => some '\x0b'
  | 'f' => some '\x0c'
  | 'r' => some '\r'
  | 'e' => some '\x1b'
  | ' ' => some ' '
  | '"' => some '"'
  | '\'' => some '\''
  | '\\' => some '\\'
  | 'N' => some '\x85'
  | '_' => some '\xa0'
  | 'L' => some '\u2028'
  | 'P' => some '\u2029'
  | _ => none

/-- How many hexadecimal digits an escape takes. -/
def escapeDigits? (c : Char) : Option Nat :=
  match c with
  | 'x' => some 2
  | 'u' => some 4
  | 'U' => some 8
  | _ => none

/-- Digits of an escape that are still to come, and the value so far. -/
structure Pending where
  digits : Nat
  value : Nat

/-- The character of a code; surrogates and numbers that are too large have none. -/
def codeChar? (n : Nat) : Option Char :=
  if (0xD800 ≤ n ∧ n ≤ 0xDFFF) ∨ 0x10FFFF < n then none else some (Char.ofNat n)

/-- What a quoted scalar is in the middle of. -/
inductive QuoteState where
  | text
  | escape
  | code (pending : Pending)

/-- Reads up to the closing quote. In double quotes a backslash starts an escape; in
single quotes a doubled quote stands for one. -/
def scanQuoted (double : Bool) (q : QuoteState) (f : Fold) (line column offset : Nat) :
    List Char → Except Malformed (Fold × Cursor)
  | [] => .error .scalar
  | c :: cs =>
    match q with
    | .code pending =>
      match Number.isHexDigit c, Number.digitValue? c with
      | true, some d =>
        let value := pending.value * 16 + d
        if pending.digits ≤ 1 then
          match codeChar? value with
          | some x => scanQuoted double .text (f.push x) line (column + 1) (offset + 1) cs
          | none => .error .scalar
        else
          scanQuoted double (.code ⟨pending.digits - 1, value⟩) f line (column + 1) (offset + 1) cs
      | _, _ => .error .scalar
    | .escape =>
      if isBreak c then
        scanQuoted double .text { f with folding := true } (line + 1) 0 (offset + 1) cs
      else match simpleEscape? c, escapeDigits? c with
        | some x, _ => scanQuoted double .text (f.push x) line (column + 1) (offset + 1) cs
        | none, some n => scanQuoted double (.code ⟨n, 0⟩) f line (column + 1) (offset + 1) cs
        | none, none => .error .scalar
    | .text =>
      if isBreak c then
        scanQuoted double .text (f.lineBreak c) (line + 1) 0 (offset + 1) cs
      else if isGap c then
        scanQuoted double .text (f.gap c) line (column + 1) (offset + 1) cs
      else if Cursor.atDocumentMarker column (c :: cs) then .error .scalar
      else if double then
        if c = '"' then .ok (f.join, ⟨cs, line, column + 1, offset + 1⟩)
        else if c = '\\' then scanQuoted double .escape f.join line (column + 1) (offset + 1) cs
        else scanQuoted double .text (f.join.push c) line (column + 1) (offset + 1) cs
      else if c = '\'' then
        match cs with
        | '\'' :: rest =>
          scanQuoted double .text (f.join.push '\'') line (column + 2) (offset + 2) rest
        | _ => .ok (f.join, ⟨cs, line, column + 1, offset + 1⟩)
      else scanQuoted double .text (f.join.push c) line (column + 1) (offset + 1) cs

/-! ## Literal scalars -/

/-- What becomes of the line breaks at the end of a block. -/
inductive Chomping where
  | strip
  | clip
  | keep
deriving DecidableEq

/-- What the header of a block says. -/
structure BlockHeader where
  folded : Bool
  chomping : Chomping
  /-- Zero if the indentation is to be found out. -/
  increment : Nat

def chomping? (c : Char) : Option Chomping :=
  if c = '+' then some .keep else if c = '-' then some .strip else none

/-- An indentation of zero is none. -/
def increment? (c : Char) : Option Nat :=
  if Number.isDigit c && c != '0' then some (c.toNat - '0'.toNat) else none

/-- The indicators behind the mark of a block, in either order. -/
def blockHeader (folded : Bool) : List Char → BlockHeader × List Char
  | [] => (⟨folded, .clip, 0⟩, [])
  | c :: cs =>
    match chomping? c, increment? c with
    | some chomping, _ =>
      match cs with
      | d :: rest =>
        match increment? d with
        | some n => (⟨folded, chomping, n⟩, rest)
        | none => (⟨folded, chomping, 0⟩, cs)
      | [] => (⟨folded, chomping, 0⟩, [])
    | none, some n =>
      match cs with
      | d :: rest =>
        match chomping? d with
        | some chomping => (⟨folded, chomping, n⟩, rest)
        | none => (⟨folded, .clip, n⟩, cs)
      | [] => (⟨folded, .clip, n⟩, [])
    | none, none => (⟨folded, .clip, 0⟩, c :: cs)

/-- The rest of a header line: gaps and a comment. -/
def headerEnd (cs : List Char) : Option (List Char) :=
  match cs.dropWhile isGap with
  | [] => some []
  | '#' :: rest =>
    match rest.dropWhile fun c => !isBreak c with
    | [] => some []
    | _ :: rest => some rest
  | c :: rest => if isBreak c then some rest else none

/-- Empty lines and indentation before a line with content: the breaks, last one first,
the largest indentation seen, the column reached and what follows. An indentation of
zero takes any number of blanks. -/
def skipIndent (indent : Nat) (breaks : List Char) (most lines column : Nat) :
    List Char → Except Malformed (List Char × Nat × Nat × Nat × List Char)
  | [] => .ok (breaks, max most column, lines, column, [])
  | c :: cs =>
    let inside := indent = 0 ∨ column < indent
    if c = ' ' ∧ inside then skipIndent indent breaks most lines (column + 1) cs
    else if c = '\t' ∧ inside then .error .scalar
    else if isBreak c then skipIndent indent (c :: breaks) (max most column) (lines + 1) 0 cs
    else .ok (breaks, max most column, lines, column, c :: cs)

/-- The lines of a block so far: its text and the break that ends the last line, whether
that line started with a gap, and the empty lines behind it; texts last character first. -/
structure BlockText where
  text : List Char := []
  lastBreak : Option Char := none
  indented : Bool := false
  breaks : List Char := []

/-- Takes a further line into a block. In a folded one, breaks between lines that are not
indented are folded. -/
def BlockText.line (b : BlockText) (folded : Bool) (content : List Char) : BlockText :=
  let gapFirst := (content.head?.map isGap).getD false
  let joined : List Char :=
    if folded && !b.indented && !gapFirst && b.lastBreak == some '\n' then
      if b.breaks.isEmpty then ' ' :: b.text else b.text
    else b.lastBreak.toList ++ b.text
  { text := content.reverse ++ (b.breaks ++ joined), indented := gapFirst }

def BlockText.result (b : BlockText) (chomping : Chomping) : String :=
  let text := match chomping with
    | .strip => b.text
    | .clip => b.lastBreak.toList ++ b.text
    | .keep => b.breaks ++ (b.lastBreak.toList ++ b.text)
  String.ofList text.reverse

/-- Reads the lines of a block at most `fuel` of them, from one that is indented on. -/
def scanLines (h : BlockHeader) (indent : Nat) :
    Nat → BlockText → (line column : Nat) → List Char → Except Malformed (BlockText × Cursor)
  | 0, b, line, column, cs => .ok (b, ⟨cs, line, column, 0⟩)
  | fuel + 1, b, line, column, cs =>
    if column ≠ indent ∨ cs.isEmpty then .ok (b, ⟨cs, line, column, 0⟩)
    else
      let content := cs.takeWhile fun c => !isBreak c
      let b := b.line h.folded content
      match cs.dropWhile fun c => !isBreak c with
      | [] => .ok (b, ⟨[], line, column + content.length, 0⟩)
      | c :: rest => do
        let b := { b with lastBreak := some c }
        let (breaks, _, lines, column, rest) ← skipIndent indent [] 0 0 0 rest
        scanLines h indent fuel { b with breaks } (line + 1 + lines) column rest

/-- Reads a block scalar behind its mark, inside of a block with the given indentation. -/
def scanBlock (folded : Bool) (parent : Int) (c : Cursor) : Except Malformed (String × Cursor) := do
  let (header, rest) := blockHeader folded c.rest
  match headerEnd rest with
  | none => .error .scalar
  | some rest =>
    let given : Nat := if header.increment = 0 then 0 else (max parent 0).toNat + header.increment
    let (breaks, most, lines, column, rest) ← skipIndent given [] 0 0 0 rest
    let indent := if given = 0 then max most (max (parent + 1).toNat 1) else given
    let (b, cursor) ←
      scanLines header indent (rest.length + 1) { breaks } (c.line + 1 + lines) column rest
    .ok (b.result header.chomping,
      { cursor with offset := c.offset + (c.rest.length - cursor.rest.length) })

end Flowchart.Document
