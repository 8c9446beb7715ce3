import Flowchart.Number.Binary

/-!
# Shortest decimals

The decimal with the fewest digits among those that read back as a given
double, and of these the one nearest to it.

The reals that round to `m * 2 ^ q` form an interval around it. For one digit,
two digits and so on, the two neighbours of the value on that decimal grid are
tested against the interval in exact arithmetic; the first hit wins.
-/

namespace Flowchart.Number

/-- The number `digits * 10 ^ exponent`. -/
structure Decimal where
  digits : Nat
  exponent : Int
deriving Repr, DecidableEq

namespace Decimal

/-- Drops trailing zeros of the digits, at most `fuel` many. -/
def strip : Nat → Decimal → Decimal
  | 0, d => d
  | fuel + 1, d =>
    if d.digits ≠ 0 ∧ d.digits % 10 = 0 then strip fuel ⟨d.digits / 10, d.exponent + 1⟩ else d

/-- The digits as text; zero is the single digit `0`. -/
def digitText (d : Decimal) : List Char := Nat.toDigits 10 d.digits

end Decimal

/-- A fraction of natural numbers. -/
structure Ratio where
  num : Nat
  den : Nat

namespace Ratio

/-- The ratio times `10 ^ k`. -/
def scale (r : Ratio) (k : Int) : Ratio :=
  if 0 ≤ k then ⟨r.num * Nat.pow 10 k.toNat, r.den⟩ else ⟨r.num, r.den * Nat.pow 10 (-k).toNat⟩

def floor (r : Ratio) : Nat := r.num / r.den

end Ratio

/-- The reals that round to a double, as fractions over `scale` with the value
between them. -/
structure Interval where
  low : Nat
  value : Nat
  high : Nat
  scale : Nat
  closed : Bool

/-- Below a power of two the neighbour is only half as far away. -/
def roundingInterval (m : Nat) (q : Int) : Interval :=
  let factor := Nat.pow 2 q.toNat
  let below := if m = hiddenBit ∧ -1074 < q then 1 else 2
  { low := (4 * m - below) * factor
    value := 4 * m * factor
    high := (4 * m + 2) * factor
    scale := 4 * Nat.pow 2 (-q).toNat
    closed := m % 2 = 0 }

namespace Interval

/-- Does `n * 10 ^ k` lie in the interval? -/
def holds (i : Interval) (n : Nat) (k : Int) : Bool :=
  let up := Nat.pow 10 k.toNat
  let down := Nat.pow 10 (-k).toNat
  let point := n * up * i.scale
  if i.closed then i.low * down ≤ point && point ≤ i.high * down
  else i.low * down < point && point < i.high * down

/-- The exponent of the leading decimal digit of the value. -/
def magnitude (i : Interval) : Int :=
  if i.scale ≤ i.value then ((Nat.toDigits 10 (i.value / i.scale)).length : Int) - 1
  else -((Nat.toDigits 10 (i.scale / i.value)).length : Int)

/-- The point of the grid `10 ^ k` to use, if one of the value's neighbours on it
lies in the interval: the nearer one if both do, the even one of two equally near. -/
def neighbour? (i : Interval) (k : Int) : Option Decimal :=
  let scaled := Ratio.scale ⟨i.value, i.scale⟩ (-k)
  let n := scaled.floor
  let rest := 2 * (scaled.num - n * scaled.den)
  let upward := scaled.den < rest ∨ (rest = scaled.den ∧ n % 2 = 1)
  if i.holds n k then
    if i.holds (n + 1) k && upward then some ⟨n + 1, k⟩ else some ⟨n, k⟩
  else if i.holds (n + 1) k then some ⟨n + 1, k⟩
  else none

/-- Tries the grids with `count` digits and more; seventeen digits always suffice. -/
def search (i : Interval) (top : Int) : Nat → Nat → Decimal
  | 0, count =>
    (Decimal.mk (Ratio.scale ⟨i.value, i.scale⟩ (count - 1 - top)).floor (top + 1 - count))
  | fuel + 1, count =>
    match i.neighbour? (top + 1 - count) with
    | some d => d
    | none => search i top fuel (count + 1)

end Interval

/-- The shortest decimal of the positive double `m * 2 ^ q`. -/
def shortest (m : Nat) (q : Int) : Decimal :=
  if m = 0 then ⟨0, 0⟩
  else
    let i := roundingInterval m q
    (i.search i.magnitude 17 1).strip 400

example : shortest 1 (-1074) = ⟨5, -324⟩ := by decide +kernel
example : shortest 7205759403792794 (-56) = ⟨1, -1⟩ := by decide +kernel

end Flowchart.Number
