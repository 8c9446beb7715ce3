import Flowchart.Text.Quoted

/-!
# Tokens

The pieces of an arithmetic expression. Square brackets group like parentheses.
-/

namespace Flowchart

inductive TokenClass where
  | endOfText
  | illegal
  | number
  | name
  | operator
  | opening
  | closing
deriving Repr, DecidableEq

namespace TokenClass

/-- A number that is not in the list stands for an illegal token. -/
def ofCode : Int → TokenClass
  | -1 => endOfText
  | 1 => number
  | 2 => name
  | 3 => operator
  | 4 => opening
  | 5 => closing
  | _ => illegal

def code : TokenClass → Int
  | endOfText => -1
  | illegal => 0
  | number => 1
  | name => 2
  | operator => 3
  | opening => 4
  | closing => 5

def label : TokenClass → String
  | endOfText => "EOF"
  | illegal => "illegal"
  | number => "number"
  | name => "identifier"
  | operator => "operator"
  | opening => "("
  | closing => ")"

end TokenClass

/-- A number carries its value, and so does a name that has been replaced by a number.
The position counts bytes. -/
structure Token where
  cls : TokenClass
  lexeme : String
  value : Float
  pos : Nat
deriving Repr, DecidableEq

def Token.summary (t : Token) : String :=
  s!"<{t.cls.label} {Text.quoted t.lexeme} @{t.pos}>"

end Flowchart
