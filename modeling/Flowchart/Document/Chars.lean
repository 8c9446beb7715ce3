/-!
# Characters of documents

Which characters a document may hold, which of them end a line, and where in a document
one stands.
-/

namespace Flowchart.Document

/-- Line breaks come in several spellings; most are read as a newline. -/
def normalize : List Char → List Char
  | [] => []
  | '\r' :: '\n' :: cs => '\n' :: normalize cs
  | c :: cs => (if c = '\r' ∨ c = '\x85' then '\n' else c) :: normalize cs

/-- The line and the paragraph separator end a line too, but are kept. -/
def isBreak (c : Char) : Bool := c == '\n' || c == '\u2028' || c == '\u2029'

def isGap (c : Char) : Bool := c == ' ' || c == '\t'

/-- A gap, a break or the end. -/
def endsWord : List Char → Bool
  | [] => true
  | c :: _ => isGap c || isBreak c

/-- Control characters are not allowed in a document. -/
def isAllowed (c : Char) : Bool :=
  let n := c.toNat
  n == 0x09 || n == 0x0A || n == 0x0D || (0x20 ≤ n && n ≤ 0x7E) || n == 0x85 ||
    (0xA0 ≤ n && n ≤ 0xFFFD) || 0x10000 ≤ n

/-- The mark that may stand in front of a text. -/
def byteOrderMark : Char := '\ufeff'

/-- What is left of a document, and where it starts. -/
structure Cursor where
  rest : List Char
  line : Nat
  column : Nat
  offset : Nat

namespace Cursor

def start (cs : List Char) : Cursor := ⟨cs, 0, 0, 0⟩

/-- Moves on by `n` characters of the same line. -/
def advance (c : Cursor) (n : Nat) : Cursor :=
  { c with rest := c.rest.drop n, column := c.column + n, offset := c.offset + n }

/-- Three dashes or three points at the start of a line, and nothing behind them. -/
def atMarker (mark : Char) (column : Nat) : List Char → Bool
  | a :: b :: c :: rest => column == 0 && a == mark && b == mark && c == mark && endsWord rest
  | _ => false

def atDocumentMarker (column : Nat) (cs : List Char) : Bool :=
  atMarker '-' column cs || atMarker '.' column cs

end Cursor

end Flowchart.Document
