import Flowchart.Number.Binary

/-!
# Number literals

The texts that denote numbers: decimal and hexadecimal floating-point literals,
the words for infinity and "not a number", and integers. Underscores may stand
between digits.
-/

namespace Flowchart.Number

def isDigit (c : Char) : Bool := '0' ≤ c && c ≤ '9'

/-- ASCII letters only. -/
def lower (c : Char) : Char := if 'A' ≤ c && c ≤ 'Z' then Char.ofNat (c.toNat + 32) else c

def isHexDigit (c : Char) : Bool := isDigit c || ('a' ≤ lower c && lower c ≤ 'f')

/-- The value of a digit or letter; letters count on from ten. -/
def digitValue? (c : Char) : Option Nat :=
  if isDigit c then some (c.toNat - '0'.toNat)
  else if 'a' ≤ lower c && lower c ≤ 'z' then some ((lower c).toNat - 'a'.toNat + 10)
  else none

/-- A sign in front, `true` for minus. -/
def takeSign : List Char → Bool × List Char
  | '+' :: cs => (false, cs)
  | '-' :: cs => (true, cs)
  | cs => (false, cs)

/-! ## Underscores -/

/-- What stands before the character looked at. -/
inductive Before where
  | digit
  | underscore
  | other
deriving DecidableEq

/-- Every underscore stands between two digits. -/
def separatorsOk (digit : Char → Bool) : Before → List Char → Bool
  | before, [] => before != .underscore
  | before, c :: cs =>
    if digit c then separatorsOk digit .digit cs
    else if c = '_' then before == .digit && separatorsOk digit .underscore cs
    else before != .underscore && separatorsOk digit .other cs

/-- Where underscores may stand in a number with an optional sign and base mark;
the mark counts as a digit. -/
def underscoresOk (cs : List Char) : Bool :=
  match (takeSign cs).2 with
  | '0' :: x :: rest =>
    if lower x = 'x' then separatorsOk isHexDigit .digit rest
    else if lower x = 'b' ∨ lower x = 'o' then separatorsOk isDigit .digit rest
    else separatorsOk isDigit .other ('0' :: x :: rest)
  | rest => separatorsOk isDigit .other rest

/-! ## Floating point -/

/-- Digits read so far: their value, how many stand behind the point, and whether
there was any digit and a point. -/
structure Mantissa where
  value : Nat
  places : Nat
  anyDigit : Bool
  point : Bool

/-- Reads digits with one optional point; underscores are passed over. -/
def takeMantissa (base : Nat) (digit : Char → Bool) (m : Mantissa) :
    List Char → Mantissa × List Char
  | [] => (m, [])
  | c :: cs =>
    if digit c then
      let d := (digitValue? c).getD 0
      takeMantissa base digit
        { m with
          value := m.value * base + d
          places := if m.point then m.places + 1 else m.places
          anyDigit := true } cs
    else if c = '_' then takeMantissa base digit m cs
    else if c = '.' ∧ m.point = false then takeMantissa base digit { m with point := true } cs
    else (m, c :: cs)

/-- Reads the digits of an exponent. An exponent of more than five digits is as good
as infinite and stops growing. -/
def takeExponent (e : Nat) : List Char → Nat × List Char
  | [] => (e, [])
  | c :: cs =>
    if isDigit c then
      takeExponent (if e < 10000 then e * 10 + (c.toNat - '0'.toNat) else e) cs
    else if c = '_' then takeExponent e cs
    else (e, c :: cs)

/-- The exponent behind its mark, which needs at least one digit; nothing if there is
no mark. -/
def exponent? (mark : Char) : List Char → Option (Option Int × List Char)
  | [] => some (none, [])
  | c :: cs =>
    if lower c = mark then
      let (negative, digits) := takeSign cs
      match digits with
      | d :: _ =>
        if isDigit d then
          let (e, rest) := takeExponent 0 digits
          some (some (if negative then -(e : Int) else e), rest)
        else none
      | [] => none
    else some (none, c :: cs)

/-- The double nearest to `± m * 10 ^ e`. Magnitudes far out of range are not computed. -/
def nearestDecimal (negative : Bool) (m : Nat) (e : Int) : Float :=
  if m = 0 then ofMagnitude negative 0
  else
    let top := ((Nat.toDigits 10 m).length : Int) + e
    let magnitude :=
      if top > 400 then infinity false
      else if top < -400 then 0
      else if 0 ≤ e then Float.ofScientific m false e.toNat
      else Float.ofScientific m true (-e).toNat
    if negative then -magnitude else magnitude

def word? (negative signed : Bool) (cs : List Char) : Option Float :=
  let text := cs.map lower
  if text = "inf".toList ∨ text = "infinity".toList then some (infinity negative)
  else if text = "nan".toList ∧ signed = false then some nan
  else none

/-- A literal of digits: its sign, its mantissa and the exponent with its base. -/
def digits? (negative : Bool) (cs : List Char) : Option Float :=
  match cs with
  | '0' :: x :: c :: rest =>
    if lower x = 'x' then hexadecimal? (c :: rest) else decimal? cs
  | _ => decimal? cs
where
  /-- A hexadecimal literal must have an exponent, of two. -/
  hexadecimal? (cs : List Char) : Option Float :=
    let (m, rest) := takeMantissa 16 isHexDigit ⟨0, 0, false, false⟩ cs
    match m.anyDigit, exponent? 'p' rest with
    | true, some (some e, []) => some (nearest negative m.value (e - 4 * m.places))
    | _, _ => none
  decimal? (cs : List Char) : Option Float :=
    let (m, rest) := takeMantissa 10 isDigit ⟨0, 0, false, false⟩ cs
    match m.anyDigit, exponent? 'e' rest with
    | true, some (e, []) => some (nearestDecimal negative m.value (e.getD 0 - m.places))
    | _, _ => none

/-- The value of a literal, rounded to the nearest double. A literal too large for a
double has none. -/
def literal? (text : String) : Option Float :=
  let cs := text.toList
  let (negative, body) := takeSign cs
  match word? negative (body.length != cs.length) body with
  | some x => some x
  | none =>
    if cs.contains '_' && !underscoresOk cs then none
    else match digits? negative body with
      | some x => if x.isInf then none else some x
      | none => none

/-! ## Integers -/

inductive IntegerError where
  | malformed
  /-- Beyond 64 bits; `nearest` is the closest number that fits. -/
  | outOfRange (nearest : Int)
deriving Repr, DecidableEq

/-- The largest number of 64 bits without a sign. -/
def maxNatural : Nat := 18446744073709551615

/-- Reads a natural number of at most 64 bits. A number that grows too large is
reported before later characters are looked at. -/
def takeNatural (base : Nat) (separators : Bool) (n : Nat) :
    List Char → Except IntegerError Nat
  | [] => .ok n
  | c :: cs =>
    if separators && c == '_' then takeNatural base separators n cs
    else match digitValue? c with
      | none => .error .malformed
      | some d =>
        if base ≤ d then .error .malformed
        else
          let n' := n * base + d
          if maxNatural < n' then .error (.outOfRange maxNatural)
          else takeNatural base separators n' cs

def signedInteger (negative : Bool) (n : Int) : Except IntegerError Int :=
  if negative then
    if -minInteger < n then .error (.outOfRange minInteger) else .ok (-n)
  else if maxInteger < n then .error (.outOfRange maxInteger)
  else .ok n

def applySign (negative : Bool) : Except IntegerError Nat → Except IntegerError Int
  | .ok n => signedInteger negative n
  | .error (.outOfRange n) => signedInteger negative n
  | .error .malformed => .error .malformed

/-- A decimal integer with an optional sign. -/
def integer (text : String) : Except IntegerError Int :=
  match takeSign text.toList with
  | (_, []) => .error .malformed
  | (negative, cs) => applySign negative (takeNatural 10 false 0 cs)

/-- The natural number of a text with an optional base mark: `0x`, `0b`, `0o`, or a
leading zero for octal. -/
def markedNatural (cs : List Char) : Except IntegerError Nat :=
  let value := match cs with
    | '0' :: x :: c :: rest =>
      if lower x = 'b' then takeNatural 2 true 0 (c :: rest)
      else if lower x = 'o' then takeNatural 8 true 0 (c :: rest)
      else if lower x = 'x' then takeNatural 16 true 0 (c :: rest)
      else takeNatural 8 true 0 (x :: c :: rest)
    | '0' :: rest => takeNatural 8 true 0 rest
    | [] => .error .malformed
    | _ => takeNatural 10 true 0 cs
  match value with
  | .ok n => if cs.contains '_' && !underscoresOk cs then .error .malformed else .ok n
  | e => e

/-- An integer with an optional sign and base mark. -/
def markedInteger (text : String) : Except IntegerError Int :=
  let (negative, cs) := takeSign text.toList
  applySign negative (markedNatural cs)

example : literal? "0x1.8p1" = some 3.0 := by decide +kernel
example : literal? "1_000" = some 1000.0 := by decide +kernel
example : literal? "1__0" = none := by decide +kernel

end Flowchart.Number
