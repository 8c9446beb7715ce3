/-!
# Doubles as scaled integers

A finite double is a sign and a product `mantissa * 2 ^ exponent`. Reading and
rounding are done on these integers, so that every result is exact or rounded
once.
-/

namespace Flowchart.Number

inductive Parts where
  | nan
  | infinite (negative : Bool)
  | finite (negative : Bool) (mantissa : Nat) (exponent : Int)
deriving Repr, DecidableEq

/-- One more than the largest fraction that is stored. -/
def hiddenBit : Nat := Nat.pow 2 52

/-- The bits of a negative zero. -/
def signBit : Nat := Nat.pow 2 63

def parts (x : Float) : Parts :=
  let bits := x.toBits.toNat
  let negative := decide (signBit ≤ bits)
  let field : Nat := bits / hiddenBit % 2048
  let fraction := bits % hiddenBit
  if field = 2047 then
    if fraction = 0 then .infinite negative else .nan
  else if field = 0 then .finite negative fraction (-1074)
  else .finite negative (hiddenBit + fraction) (field - 1075)

/-! ## Building -/

/-- The double with the given sign and the given 63 bits below it. -/
def ofMagnitude (negative : Bool) (bits : Nat) : Float :=
  Float.ofBits (UInt64.ofNat (if negative then signBit + bits else bits))

def infinity (negative : Bool) : Float := ofMagnitude negative (2047 * hiddenBit)

def nan : Float := Float.ofBits 0x7FF8000000000001

/-- The quotient by `2 ^ shift`, a half going to the even neighbour. -/
def shiftRounded (m shift : Nat) : Nat :=
  let quotient := m >>> shift
  let rest := m - quotient <<< shift
  let half := Nat.pow 2 shift
  if 2 * rest > half ∨ (2 * rest = half ∧ quotient % 2 = 1) then quotient + 1 else quotient

/-- The double nearest to `± m * 2 ^ q`, ties to even, with gradual underflow.

The magnitude is read off as bits: a carry out of the mantissa moves on to the
exponent by itself. -/
def nearest (negative : Bool) (m : Nat) (q : Int) : Float :=
  if m = 0 then ofMagnitude negative 0
  else
    let top := m.log2 + q
    if top > 1023 then infinity negative
    else if top < -1080 then ofMagnitude negative 0
    else
      let unit := max (top - 52) (-1074)
      let mantissa :=
        if unit ≤ q then m <<< (q - unit).toNat else shiftRounded m (unit - q).toNat
      let bits := (unit + 1074).toNat * hiddenBit + mantissa
      if 2047 * hiddenBit ≤ bits then infinity negative else ofMagnitude negative bits

/-! ## Tests and integral parts -/

def isFinite (x : Float) : Bool := !(x.isNaN || x.isInf)

def isNegative (x : Float) : Bool := decide (signBit ≤ x.toBits.toNat)

/-- The largest integral double that is not above `x`. -/
def floor (x : Float) : Float :=
  match parts x with
  | .finite negative m q =>
    if 0 ≤ q then x
    else
      let shift := (-q).toNat
      let whole := m >>> shift
      if whole <<< shift = m then x
      else nearest negative (if negative then whole + 1 else whole) 0
  | _ => x

/-- The largest and the least number of 64 bits, sign included. -/
def maxInteger : Int := 9223372036854775807

def minInteger : Int := -9223372036854775808

/-- The floor as a 64-bit integer; what does not fit becomes the least one. -/
def floorInt (x : Float) : Int :=
  match parts x with
  | .finite negative m q =>
    let value : Int :=
      if 0 ≤ q then (m <<< q.toNat : Nat)
      else if negative then ((m + Nat.pow 2 (-q).toNat - 1) >>> (-q).toNat : Nat)
      else (m >>> (-q).toNat : Nat)
    let signed := if negative then -value else value
    if minInteger ≤ signed ∧ signed ≤ maxInteger then signed else minInteger
  | _ => minInteger

/-- The exact remainder of the division, with the sign of the dividend. -/
def remainder (x y : Float) : Float :=
  match parts x, parts y with
  | .finite negative m q, .finite _ n r =>
    if n = 0 then nan
    else
      let unit := min q r
      nearest negative (m <<< (q - unit).toNat % n <<< (r - unit).toNat) unit
  | .finite .., .infinite _ => x
  | _, _ => nan

/-! ## Examples -/

example : floor (-3.5) = -4.0 := by decide +kernel
example : floorInt (-3.5) = -4 := by decide +kernel
example : remainder (-7.0) 2.0 = -1.0 := by decide +kernel
example : remainder 5.5 2.0 = 1.5 := by decide +kernel
example : nearest false 1 (-1074) = 5e-324 := by decide +kernel
example : nearest true 18014398509481985 0 = -18014398509481984.0 := by decide +kernel

end Flowchart.Number
