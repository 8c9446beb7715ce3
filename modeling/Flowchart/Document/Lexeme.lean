import Flowchart.Document.Folding

/-!
# Lexemes of documents

A document is read as a sequence of scalars, brackets and marks. Blocks have no brackets
of their own: where a line is indented further a block starts, and where it is indented
less blocks end. A scalar becomes a key only when a colon follows it in the same line, so
the mark of a key is put in front of it afterwards.
-/

namespace Flowchart.Document

inductive Lexeme where
  | documentStart
  | documentEnd
  | listStart
  | mapStart
  | blockEnd
  | entry
  | key
  | value
  | openList
  | closeList
  | openMap
  | closeMap
  | comma
  | scalar (text : String) (plain : Bool)
  | endOfText
  /-- The text goes on in a way that cannot be read. -/
  | invalid
deriving Repr, DecidableEq

/-! ## The state of the scanner -/

/-- A place where a key may start: the lexeme it would stand in front of, and its position.
A required key must be followed by its colon. -/
structure KeyPlace where
  required : Bool
  lexeme : Nat
  line : Nat
  column : Nat
  offset : Nat

/-- Indentations of the enclosing blocks, the innermost first, and a place for a key for
each level of brackets, the innermost first. -/
structure Scanner where
  cursor : Cursor
  lexemes : Array Lexeme := #[]
  indent : Int := -1
  indents : List Int := []
  flow : Nat := 0
  keyAllowed : Bool := true
  keys : List (Option KeyPlace) := [none]

namespace Scanner

def push (s : Scanner) (l : Lexeme) : Scanner := { s with lexemes := s.lexemes.push l }

def inFlow (s : Scanner) : Bool := s.flow != 0

def insertAt (s : Scanner) (i : Nat) (l : Lexeme) : Scanner :=
  { s with lexemes := s.lexemes.insertIdxIfInBounds i l }

/-! ## Indentation -/

/-- Starts a block at a column that is indented further; the mark goes to position `i`, or
to the end. -/
def openBlock (s : Scanner) (column : Nat) (i : Option Nat) (l : Lexeme) : Scanner :=
  if s.inFlow || decide ((column : Int) ≤ s.indent) then s
  else
    let s := match i with
      | some i => s.insertAt i l
      | none => s.push l
    { s with indents := s.indent :: s.indents, indent := column }

/-- The indentations left when all that exceed a column are dropped, and their number. -/
def dropIndents (column : Int) (indent : Int) : List Int → Nat × Int × List Int
  | [] => (0, indent, [])
  | i :: rest =>
    if column < indent then
      let (n, indent, indents) := dropIndents column i rest
      (n + 1, indent, indents)
    else (0, indent, i :: rest)

/-- Ends the blocks that are indented further than a column. -/
def closeBlocks (s : Scanner) (column : Int) : Scanner :=
  if s.inFlow then s
  else
    let (n, indent, indents) := dropIndents column s.indent s.indents
    { s with indent, indents, lexemes := s.lexemes ++ Array.replicate n .blockEnd }

/-! ## Keys -/

/-- Gives up the place for a key, unless the key is required. -/
def dropKey (s : Scanner) : Except Malformed Scanner :=
  match s.keys with
  | some place :: rest =>
    if place.required then .error .layout else .ok { s with keys := none :: rest }
  | _ => .ok s

/-- Notes that a key may start here. -/
def markKey (s : Scanner) : Except Malformed Scanner := do
  if s.keyAllowed then
    let required := !s.inFlow && s.indent == (s.cursor.column : Int)
    let s ← s.dropKey
    let place : KeyPlace :=
      ⟨required, s.lexemes.size, s.cursor.line, s.cursor.column, s.cursor.offset⟩
    return { s with keys := some place :: s.keys.drop 1 }
  else return s

/-- The longest distance between the start of a key and its colon. -/
def keyReach : Nat := 1024

/-- The place of a key in the current line; one in an earlier line is given up. -/
def currentKey (s : Scanner) : Except Malformed (Option KeyPlace) :=
  match s.keys with
  | some place :: _ =>
    if place.line < s.cursor.line ∨ place.offset + keyReach < s.cursor.offset then
      if place.required then .error .layout else .ok none
    else .ok (some place)
  | _ => .ok none

/-! ## Single lexemes -/

/-- Takes a lexeme of `n` characters off the text. -/
def take (s : Scanner) (n : Nat) (l : Lexeme) : Scanner :=
  { s with cursor := s.cursor.advance n }.push l

def documentMark (s : Scanner) (l : Lexeme) : Except Malformed Scanner := do
  let s ← (s.closeBlocks (-1)).dropKey
  return { s with keyAllowed := false }.take 3 l

def openBracket (s : Scanner) (l : Lexeme) : Except Malformed Scanner := do
  let s ← s.markKey
  return { s with keys := none :: s.keys, flow := s.flow + 1, keyAllowed := true }.take 1 l

def closeBracket (s : Scanner) (l : Lexeme) : Except Malformed Scanner := do
  let s ← s.dropKey
  let s := if s.inFlow then { s with keys := s.keys.drop 1, flow := s.flow - 1 } else s
  return { s with keyAllowed := false }.take 1 l

def commaMark (s : Scanner) : Except Malformed Scanner := do
  let s ← s.dropKey
  return { s with keyAllowed := true }.take 1 .comma

def entryMark (s : Scanner) : Except Malformed Scanner := do
  if !s.inFlow && !s.keyAllowed then .error .layout
  else
    let s ← (s.openBlock s.cursor.column none .listStart).dropKey
    return { s with keyAllowed := true }.take 1 .entry

def keyMark (s : Scanner) : Except Malformed Scanner := do
  if !s.inFlow && !s.keyAllowed then .error .layout
  else
    let s ← (s.openBlock s.cursor.column none .mapStart).dropKey
    return { s with keyAllowed := !s.inFlow }.take 1 .key

/-- A colon makes a key of the scalar or collection before it in the same line, or starts
the value of a key that was marked as such. -/
def valueMark (s : Scanner) : Except Malformed Scanner := do
  match ← s.currentKey with
  | some place =>
    let s := (s.insertAt place.lexeme .key).openBlock place.column (some place.lexeme) .mapStart
    return { s with keys := none :: s.keys.drop 1, keyAllowed := false }.take 1 .value
  | none =>
    let s := { s with keys := none :: s.keys.drop 1 }
    if s.inFlow then return { s with keyAllowed := false }.take 1 .value
    else if !s.keyAllowed then .error .layout
    else return { s.openBlock s.cursor.column none .mapStart with keyAllowed := true }.take 1 .value

def plainScalar (s : Scanner) : Except Malformed Scanner := do
  let s ← s.markKey
  let c := s.cursor
  let (f, cursor) ← scanPlain ⟨s.inFlow, s.indent + 1⟩ true {} c.line c.column c.offset c.rest
  return { s with cursor, keyAllowed := f.folding }.push (.scalar f.result true)

def quotedScalar (s : Scanner) (double : Bool) : Except Malformed Scanner := do
  let s ← s.markKey
  let c := s.cursor.advance 1
  let (f, cursor) ← scanQuoted double .text {} c.line c.column c.offset c.rest
  return { s with cursor, keyAllowed := false }.push (.scalar f.result false)

def blockScalar (s : Scanner) (folded : Bool) : Except Malformed Scanner := do
  let s ← s.dropKey
  let (text, cursor) ← scanBlock folded s.indent (s.cursor.advance 1)
  return { s with cursor, keyAllowed := true }.push (.scalar text false)

/-! ## The next lexeme -/

/-- Passes over gaps, comments and line breaks. A tab is a gap only where no key can start,
and after a break outside of brackets a key can. -/
def skipGaps (flow keyAllowed comment : Bool) (line column offset : Nat) :
    List Char → Bool × Cursor
  | [] => (keyAllowed, ⟨[], line, column, offset⟩)
  | c :: cs =>
    if isBreak c then
      skipGaps flow (keyAllowed || !flow) false (line + 1) 0 (offset + 1) cs
    else if comment || c == ' ' || (c == '\t' && (flow || !keyAllowed)) ||
        (c == byteOrderMark && column == 0) then
      skipGaps flow keyAllowed comment line (column + 1) (offset + 1) cs
    else if c == '#' then skipGaps flow keyAllowed true line (column + 1) (offset + 1) cs
    else (keyAllowed, ⟨c :: cs, line, column, offset⟩)

/-- A plain scalar may start with any character that is no mark; with some marks too, if no
gap follows them. -/
def startsPlain (flow : Bool) (c : Char) (cs : List Char) : Bool :=
  !(isGap c || "-?:,[]\x7b\x7d#&*!|>'\"%@\x60".toList.contains c) ||
    (c == '-' && !(cs.head?.map isGap).getD false) ||
    (!flow && (c == '?' || c == ':') && !endsWord cs)

/-- Reads one lexeme that starts with `c`. -/
def lexeme (s : Scanner) (c : Char) (cs : List Char) : Except Malformed Scanner :=
  let column := s.cursor.column
  if column == 0 && c == '%' then .error .layout
  else if Cursor.atMarker '-' column (c :: cs) then s.documentMark .documentStart
  else if Cursor.atMarker '.' column (c :: cs) then s.documentMark .documentEnd
  else if c == '[' then s.openBracket .openList
  else if c == '\x7b' then s.openBracket .openMap
  else if c == ']' then s.closeBracket .closeList
  else if c == '\x7d' then s.closeBracket .closeMap
  else if c == ',' then s.commaMark
  else if c == '-' && endsWord cs then s.entryMark
  else if c == '?' && (s.inFlow || endsWord cs) then s.keyMark
  else if c == ':' && (s.inFlow || endsWord cs) then s.valueMark
  else if c == '|' && !s.inFlow then s.blockScalar false
  else if c == '>' && !s.inFlow then s.blockScalar true
  else if c == '\'' then s.quotedScalar false
  else if c == '"' then s.quotedScalar true
  else if startsPlain s.inFlow c cs then s.plainScalar
  else .error .layout

/-- The scanner after one more lexeme; at the end of the text all blocks end. -/
def next (s : Scanner) : Except Malformed (Bool × Scanner) := do
  let c := s.cursor
  let (keyAllowed, cursor) :=
    skipGaps s.inFlow s.keyAllowed false c.line c.column c.offset c.rest
  let s := { s with cursor, keyAllowed }.closeBlocks cursor.column
  match cursor.rest with
  | [] =>
    let s ← (s.closeBlocks (-1)).dropKey
    return (true, s.push .endOfText)
  | c :: cs => return (false, ← s.lexeme c cs)

/-- Reads at most `fuel` lexemes. What cannot be read ends the sequence. -/
def run : Nat → Scanner → Array Lexeme
  | 0, s => s.lexemes.push .invalid
  | fuel + 1, s =>
    match s.next with
    | .ok (true, s) => s.lexemes
    | .ok (false, s) => run fuel s
    | .error _ => s.lexemes.push .invalid

end Scanner

/-- The lexemes of a text. Each one takes at least one character. -/
def lexemes (text : String) : List Lexeme :=
  let cs := text.toList
  if cs.all isAllowed then
    let cs := normalize (if cs.head? = some byteOrderMark then cs.tail else cs)
    (Scanner.run (cs.length + 1) { cursor := Cursor.start cs }).toList
  else [.invalid]

end Flowchart.Document
