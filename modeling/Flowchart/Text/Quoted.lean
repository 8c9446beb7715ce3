import Flowchart.Text.Printable

/-!
# Quoted text

A text between double quotes, with escapes for quotes, backslashes and everything
that is not printable.
-/

namespace Flowchart.Text

def hexDigit (upper : Bool) (n : Nat) : Char :=
  if n < 10 then Char.ofNat ('0'.toNat + n)
  else Char.ofNat ((if upper then 'A' else 'a').toNat + (n - 10))

/-- `width` hexadecimal digits, the last ones of `n`. -/
def hexText (upper : Bool) : Nat → Nat → List Char
  | 0, _ => []
  | width + 1, n => hexText upper width (n / 16) ++ [hexDigit upper (n % 16)]

/-- The letter of a control character with an escape of its own. -/
def controlLetter? (c : Char) : Option Char :=
  if c = '\x07' then some 'a'
  else if c = '\x08' then some 'b'
  else if c = '\x0c' then some 'f'
  else if c = '\n' then some 'n'
  else if c = '\r' then some 'r'
  else if c = '\t' then some 't'
  else if c = '\x0b' then some 'v'
  else none

def escapeChar (c : Char) : List Char :=
  if c = '"' ∨ c = '\\' then ['\\', c]
  else if isPrintable c then [c]
  else match controlLetter? c with
    | some l => ['\\', l]
    | none =>
      let n := c.toNat
      if n < 0x80 then '\\' :: 'x' :: hexText false 2 n
      else if n < 0x10000 then '\\' :: 'u' :: hexText false 4 n
      else '\\' :: 'U' :: hexText false 8 n

def quoted (s : String) : String :=
  String.ofList ('"' :: s.toList.flatMap escapeChar ++ ['"'])

end Flowchart.Text
