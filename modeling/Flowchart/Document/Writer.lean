import Flowchart.Document.Chars
import Flowchart.Document.Program
import Flowchart.Document.Spelling
import Flowchart.Text.Quoted

/-!
# Writing documents

Nodes are written as indented blocks, two columns a level. A text is written plain if it
reads back as itself, else in single quotes, else in double quotes with escapes. A text
of several lines is written as a literal block if its lines allow it.
-/

namespace Flowchart.Document

/-! ## Styles -/

/-- Every character that ends a line for some reader. -/
def isAnyBreak (c : Char) : Bool := isBreak c || c == '\r' || c == '\x85'

/-- Characters that are written as they are. -/
def isWritable (c : Char) : Bool :=
  let n := c.toNat
  n == 0x0A || (0x20 ≤ n && n ≤ 0x7E) || (0xA0 ≤ n && n ≤ 0xFFFD && c != byteOrderMark)

def hasSpecial (cs : List Char) : Bool := cs.any fun c => c != '\t' && !isWritable c

/-- A character with `p` stands right before one with `q`. -/
def hasPair (p q : Char → Bool) : List Char → Bool
  | a :: b :: cs => p a && q b || hasPair p q (b :: cs)
  | _ => false

/-- A blank before a line's end cannot be told from none in a block. -/
def hasBlankBreak (cs : List Char) : Bool := hasPair (· == ' ') isAnyBreak cs

def hasBreakBlank (cs : List Char) : Bool := hasPair isAnyBreak (· == ' ') cs

/-- A mark at the start that makes a text something other than a plain one. -/
def startsWithMark : List Char → Bool
  | [] => true
  | '-' :: '-' :: '-' :: _ => true
  | '.' :: '.' :: '.' :: _ => true
  | c :: cs =>
    "#,[]\x7b\x7d&*!|>'\"%@\x60".toList.contains c ||
      (c == '?' || c == ':' || c == '-') && (cs.isEmpty || cs.head?.any isGap)

/-- A colon that ends a key, or the start of a comment. -/
def hasMark (cs : List Char) : Bool :=
  hasPair (· == ':') isGap cs || cs.getLast? == some ':' ||
    hasPair (fun c => isGap c || isAnyBreak c) (· == '#') cs

/-- A blank or break at one of the ends, which a plain text would lose. -/
def hasOuterSpace (cs : List Char) : Bool :=
  let space := fun c => c == ' ' || isAnyBreak c
  cs.head?.any space || cs.getLast?.any space

def allowsSingle (cs : List Char) : Bool :=
  !(hasBreakBlank cs || hasBlankBreak cs || cs.contains '\t' || hasSpecial cs)

def allowsPlain (cs : List Char) : Bool :=
  allowsSingle cs && !(cs.any isAnyBreak || hasOuterSpace cs || startsWithMark cs || hasMark cs)

def allowsLiteral (cs : List Char) : Bool :=
  !(cs.getLast? == some ' ' || hasBlankBreak cs || hasSpecial cs)

inductive Style where
  | plain
  | single
  | double
  | literal
deriving Repr, DecidableEq

def Style.of (s : String) : Style :=
  let cs := s.toList
  if cs.contains '\n' then if allowsLiteral cs then .literal else .double
  else if hasMeaning s then .double
  else if allowsPlain cs then .plain
  else if allowsSingle cs then .single
  else .double

/-! ## Scalars -/

def blanks (n : Nat) : List Char := List.replicate n ' '

/-- The letter that stands for a character behind a backslash. -/
def escapeLetter? (c : Char) : Option Char :=
  if c = '\x00' then some '0'
  else if c = '\x1b' then some 'e'
  else if c = '"' ∨ c = '\\' then some c
  else if c = '\x85' then some 'N'
  else if c = '\u2028' then some 'L'
  else if c = '\u2029' then some 'P'
  else Text.controlLetter? c

def escapeScalarChar (c : Char) : List Char :=
  match escapeLetter? c with
  | some l => ['\\', l]
  | none =>
    if isWritable c then [c]
    else
      let n := c.toNat
      if n ≤ 0xFF then '\\' :: 'x' :: Text.hexText true 2 n
      else if n ≤ 0xFFFF then '\\' :: 'u' :: Text.hexText true 4 n
      else '\\' :: 'U' :: Text.hexText true 8 n

def doubleQuoted (cs : List Char) : List Char := '"' :: cs.flatMap escapeScalarChar ++ ['"']

/-- The inside of single quotes; behind a break the next line is indented. -/
def singleBody (indent : Nat) (behindBreak : Bool) : List Char → List Char
  | [] => []
  | c :: cs =>
    if isBreak c then c :: singleBody indent true cs
    else if c = ' ' then c :: singleBody indent behindBreak cs
    else
      (if behindBreak then blanks indent else []) ++ (if c = '\'' then ['\'', c] else [c]) ++
        singleBody indent false cs

def singleQuoted (indent : Nat) (cs : List Char) : List Char :=
  '\'' :: singleBody indent false cs ++ ['\'']

/-- The lines of a literal block; only lines with content are indented. -/
def literalBody (indent : Nat) (behindBreak : Bool) : List Char → List Char
  | [] => []
  | c :: cs =>
    if isBreak c then c :: literalBody indent true cs
    else (if behindBreak then blanks indent else []) ++ c :: literalBody indent false cs

/-- How the break at the end of a literal block is to be read: it is cut off, or there
are several to keep. -/
def chomping (cs : List Char) : List Char :=
  match cs.reverse with
  | a :: b :: _ => if !isBreak a then ['-'] else if isBreak b then ['+'] else []
  | [a] => if isBreak a then ['+'] else ['-']
  | [] => ['-']

/-- A literal block. The break that a text starts with is the one behind the mark. -/
def literalBlock (indent : Nat) (cs : List Char) : List Char :=
  let starts := cs.head?.any isBreak
  let hint := if starts || cs.head? == some ' ' then ['2'] else []
  let ends := if cs.getLast?.any isBreak then [] else ['\n']
  '|' :: hint ++ chomping cs ++ (if starts then [] else ['\n']) ++
    literalBody indent true cs ++ ends

/-- A text and the end of its line. -/
def scalarLines (indent : Nat) (s : String) : List Char :=
  let cs := s.toList
  match Style.of s with
  | .plain => cs ++ ['\n']
  | .single => singleQuoted indent cs ++ ['\n']
  | .double => doubleQuoted cs ++ ['\n']
  | .literal => literalBlock indent cs

/-! ## Nodes -/

/-- The text of a key. -/
def keyText : Node → List Char
  | .text s | .null s => s.toList
  | .list _ | .map _ => []

mutual

/-- A value behind the colon of a key at `column`. -/
def valueLines (column : Nat) : Node → List Char
  | .null _ => " null\n".toList
  | .text s => ' ' :: scalarLines (column + 2) s
  | .list [] => " []\n".toList
  | .list (x :: xs) => '\n' :: blanks (column + 2) ++ itemLines (column + 2) (x :: xs)
  | .map [] => " \x7b\x7d\n".toList
  | .map (e :: es) => '\n' :: blanks (column + 2) ++ entryLines (column + 2) (e :: es)

/-- A node where the line has come to `column`. -/
def nodeLines (column : Nat) : Node → List Char
  | .null _ => "null\n".toList
  | .text s => scalarLines column s
  | .list [] => "[]\n".toList
  | .list (x :: xs) => itemLines column (x :: xs)
  | .map [] => "\x7b\x7d\n".toList
  | .map (e :: es) => entryLines column (e :: es)

def itemLines (column : Nat) : List Node → List Char
  | [] => []
  | [x] => '-' :: ' ' :: nodeLines (column + 2) x
  | x :: xs => '-' :: ' ' :: nodeLines (column + 2) x ++ blanks column ++ itemLines column xs

def entryLines (column : Nat) : List (Node × Node) → List Char
  | [] => []
  | [(k, v)] => keyText k ++ ':' :: valueLines column v
  | (k, v) :: es =>
    keyText k ++ ':' :: valueLines column v ++ blanks column ++ entryLines column es

end

/-- The text of a program. -/
def encode (name : String) (records : List Record) : String :=
  String.ofList (nodeLines 0 (ofProgram name records))

end Flowchart.Document
