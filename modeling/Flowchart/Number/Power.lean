import Flowchart.Number.Binary

/-!
# Powers

A power with an integral exponent is computed by repeated squaring of the
mantissa with the binary exponent kept apart, and is rounded to a double once at
the end; the intermediate products are rounded as doubles are.
-/

namespace Flowchart.Number

/-- A number `fraction * 2 ^ exponent` whose fraction is a double of modest size. -/
structure Scaled where
  fraction : Float
  exponent : Int

/-- The fraction has a magnitude in `[0.5, 1)`, unless the number is zero. -/
def Scaled.ofParts (negative : Bool) (m : Nat) (q : Int) : Scaled :=
  if m = 0 then ⟨nearest negative 0 0, 0⟩
  else ⟨nearest negative m (-(m.log2 + 1)), q + m.log2 + 1⟩

/-- The product, rounded once. -/
def Scaled.toFloat (s : Scaled) : Float :=
  match parts s.fraction with
  | .finite negative m q => nearest negative m (q + s.exponent)
  | _ => s.fraction

/-- Beyond this binary exponent a square is out of range for certain. -/
def exponentBound : Int := 4096

/-- `result * base ^ n`, for an `n` of at most `fuel` bits. -/
def powScaled : Nat → Nat → Scaled → Scaled → Scaled
  | 0, _, _, result => result
  | fuel + 1, n, base, result =>
    if n = 0 then result
    else if base.exponent < -exponentBound ∨ exponentBound < base.exponent then
      { result with exponent := result.exponent + base.exponent }
    else
      let result : Scaled :=
        if n % 2 = 1 then
          ⟨result.fraction * base.fraction, result.exponent + base.exponent⟩
        else result
      let square := base.fraction * base.fraction
      let base : Scaled :=
        if square < 0.5 then ⟨square + square, 2 * base.exponent - 1⟩
        else ⟨square, 2 * base.exponent⟩
      powScaled fuel (n / 2) base result

/-- The integral part of a magnitude, and the fraction that is left. -/
def splitWhole (m : Nat) (q : Int) : Nat × Float :=
  if 0 ≤ q then (m <<< q.toNat, 0)
  else
    let whole := m >>> (-q).toNat
    (whole, nearest false (m - whole <<< (-q).toNat) q)

/-- An odd integer, small enough for odd and even to differ. -/
def isOddInteger (x : Float) : Bool :=
  match parts x with
  | .finite _ m q =>
    let (whole, fraction) := splitWhole m q
    fraction == 0 && whole % 2 == 1 && whole < 2 * hiddenBit
  | _ => false

/-- A zero to a power other than zero. -/
def zeroPow (x y : Float) : Float :=
  let signed := isNegative x && isOddInteger y
  if y < 0 then infinity signed else ofMagnitude signed 0

/-- What the power of a magnitude above or below one tends to. -/
def limitPow (x : Float) (growing : Bool) : Float :=
  if x == -1 then 1
  else if (x.abs < 1) == growing then 0
  else infinity false

/-- `x ^ y` for a finite `x` that is not zero and `y = ± m * 2 ^ q`. -/
def finitePow (x : Float) (base : Scaled) (negative : Bool) (m : Nat) (q : Int) : Float :=
  let (whole, fraction) := splitWhole m q
  if fraction != 0 && x < 0 then nan
  else if maxInteger < whole then limitPow x (!negative)
  else
    let (whole, fraction) :=
      if 0.5 < fraction then (whole + 1, fraction - 1) else (whole, fraction)
    let start : Float := if fraction != 0 then (fraction * x.log).exp else 1
    let power := powScaled 64 whole base ⟨start, 0⟩
    if negative then (Scaled.mk (1 / power.fraction) (-power.exponent)).toFloat
    else power.toFloat

def pow (x y : Float) : Float :=
  if y == 0 || x == 1 then 1
  else if y == 1 then x
  else match parts x, parts y with
    | .nan, _ => nan
    | _, .nan => nan
    | .finite _ 0 _, _ => zeroPow x y
    | _, .infinite negative => limitPow x (!negative)
    | .infinite negative, _ =>
      if negative then zeroPow (1 / x) (-y) else if y < 0 then 0 else infinity false
    | .finite negative m q, .finite yNegative n r =>
      if y == 0.5 then x.sqrt
      else if y == -0.5 then 1 / x.sqrt
      else finitePow x (Scaled.ofParts negative m q) yNegative n r

example : pow 2 10 = 1024 := by decide +kernel
example : pow (-2) (-1) = -0.5 := by decide +kernel

end Flowchart.Number
