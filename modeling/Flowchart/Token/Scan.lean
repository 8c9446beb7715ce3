import Flowchart.Expr.Error
import Flowchart.Number.Literal
import Flowchart.Token

/-!
# Scanning

Splits the text of an expression into tokens by longest match. Blanks separate
tokens; every other character that cannot start a token is stray.
-/

namespace Flowchart.Token

/-! ## Character classes -/

def isSpace (c : Char) : Bool := c == ' ' || c == '\t' || c == '\n' || c == '\r'

def isNameStart (c : Char) : Bool :=
  ('a' ≤ c && c ≤ 'z') || ('A' ≤ c && c ≤ 'Z') || c == '_'

def isNameChar (c : Char) : Bool := isNameStart c || Number.isDigit c

def isSingleOperator (c : Char) : Bool :=
  c == '+' || c == '-' || c == '*' || c == '/' || c == '%' || c == '^'

/-! ## One lexeme -/

/-- The lexeme of a number that starts with the given digit: all digits, and a point
with the digits behind it. -/
def numberTail (cs : List Char) : List Char :=
  let whole := cs.takeWhile Number.isDigit
  match cs.dropWhile Number.isDigit with
  | '.' :: rest => whole ++ '.' :: rest.takeWhile Number.isDigit
  | _ => whole

/-- Class and tail of the longest lexeme that starts with `c`. -/
def lexemeAt? (c : Char) (cs : List Char) : Option (TokenClass × List Char) :=
  if Number.isDigit c then some (.number, numberTail cs)
  else if isNameStart c then some (.name, cs.takeWhile isNameChar)
  else if c = '(' ∨ c = '[' then some (.opening, [])
  else if c = ')' ∨ c = ']' then some (.closing, [])
  else if isSingleOperator c then
    match c, cs with
    | '/', '/' :: _ => some (.operator, ['/'])
    | _, _ => some (.operator, [])
  else none

/-! ## The whole text -/

/-- What scanning yields: a token without its value, or a stray character of so many
bytes. -/
inductive Piece where
  | token (cls : TokenClass) (lexeme : String) (pos : Nat)
  | stray (bytes : Nat)
deriving Repr, DecidableEq

/-- The pieces from position `pos` on, after the first `skip` characters, which belong
to a lexeme already taken. -/
def piecesFrom : (skip pos : Nat) → List Char → List Piece
  | _, _, [] => []
  | skip + 1, pos, c :: cs => piecesFrom skip (pos + c.utf8Size) cs
  | 0, pos, c :: cs =>
    if isSpace c then piecesFrom 0 (pos + c.utf8Size) cs
    else match lexemeAt? c cs with
      | some (cls, tail) =>
        .token cls (String.ofList (c :: tail)) pos :: piecesFrom tail.length (pos + c.utf8Size) cs
      | none => .stray c.utf8Size :: piecesFrom 0 (pos + c.utf8Size) cs

def pieces (text : String) : List Piece := piecesFrom 0 0 text.toList

/-! ## Results -/

/-- All tokens up to and including the end of the text, without values, and the number
of stray bytes. -/
def scan (text : String) : List Token × Nat :=
  let found := pieces text
  let tokens := found.filterMap fun
    | .token cls lexeme pos => some (Token.mk cls lexeme 0 pos)
    | .stray _ => none
  let stray := found.foldr (fun | .token .., n => n | .stray bytes, n => bytes + n) 0
  (tokens ++ [⟨.endOfText, "", 0, text.utf8ByteSize⟩], stray)

/-- A number may end in its point. -/
def numberValue? (lexeme : String) : Option Float :=
  let cs := lexeme.toList
  Number.literal? (String.ofList (if cs.getLast? = some '.' then cs.dropLast else cs))

/-- The tokens of the pieces. A number out of range is reported where it stands, stray
characters only at the end. -/
def collect (stray : Bool) : List Piece → Except Expr.Error (List Token)
  | [] => if stray then .error .invalidCharacters else .ok []
  | .stray _ :: rest => collect true rest
  | .token cls lexeme pos :: rest =>
    match cls with
    | .number =>
      match numberValue? lexeme with
      | none => .error (.numberOutOfRange lexeme)
      | some v => (collect stray rest).map (⟨.number, lexeme, v, pos⟩ :: ·)
    | _ => (collect stray rest).map (⟨cls, lexeme, 0, pos⟩ :: ·)

def tokenize (text : String) : Except Expr.Error (List Token) :=
  collect false (pieces text)

end Flowchart.Token
