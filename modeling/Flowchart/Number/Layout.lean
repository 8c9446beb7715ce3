import Flowchart.Number.Shortest

/-!
# Number layouts

Two ways to write a double with its shortest digits: positional, however long
that gets, and general, which changes to an exponent for large and small
magnitudes.
-/

namespace Flowchart.Number

/-- How magnitudes are written that are not shown positionally. -/
structure Layout where
  /-- The range of exponents of the leading digit that is written positionally. -/
  positional : Int → Bool
  /-- Whether the sign of a zero is shown. -/
  signedZero : Bool

/-- Values shown to users: never an exponent, and zero has no sign. -/
def plainLayout : Layout where
  positional _ := true
  signedZero := false

/-- Values in summaries of symbols: an exponent below `1e-4` and from `1e6` on. -/
def generalLayout : Layout where
  positional e := -4 ≤ e && e < 6
  signedZero := true

def zeros (n : Nat) : List Char := List.replicate n '0'

/-- The digits with the decimal point after `point` of them. -/
def positionalText (digits : List Char) (point : Int) : List Char :=
  if point ≤ 0 then '0' :: '.' :: (zeros (-point).toNat ++ digits)
  else
    let whole := point.toNat
    if digits.length ≤ whole then digits ++ zeros (whole - digits.length)
    else digits.take whole ++ '.' :: digits.drop whole

/-- At least two digits. -/
def exponentText (e : Int) : List Char :=
  let digits := Nat.toDigits 10 e.natAbs
  (if e < 0 then '-' else '+') :: (if digits.length < 2 then '0' :: digits else digits)

/-- One digit before the point, and no point without further digits. -/
def scientificText (digits : List Char) (e : Int) : List Char :=
  match digits with
  | [] => []
  | [d] => d :: 'e' :: exponentText e
  | d :: ds => d :: '.' :: ds ++ 'e' :: exponentText e

def Layout.magnitudeText (l : Layout) (m : Nat) (q : Int) : List Char :=
  if m = 0 then ['0']
  else
    let d := shortest m q
    let digits := d.digitText
    let point := digits.length + d.exponent
    if l.positional (point - 1) then positionalText digits point
    else scientificText digits (point - 1)

def Layout.text (l : Layout) (x : Float) : String :=
  match parts x with
  | .nan => "NaN"
  | .infinite negative => if negative then "-Inf" else "+Inf"
  | .finite negative m q =>
    let sign := if negative && (l.signedZero || m != 0) then ['-'] else []
    String.ofList (sign ++ l.magnitudeText m q)

/-- The text of a value in outputs and listings. -/
def format (x : Float) : String := plainLayout.text x

/-- The text of a value in the summary of a symbol. -/
def general (x : Float) : String := generalLayout.text x

end Flowchart.Number
