import Flowchart.Number.Literal

/-!
# Spellings with a meaning

A text written without quotes may read as something else: a null, a truth value, a
number or a point in time. Such texts need quotes. So do some words and numbers that
older readers take for truth values and for numbers of base sixty.
-/

namespace Flowchart.Document

open Number (isDigit)

def isWord (s : String) : Bool :=
  ["", "~", "null", "Null", "NULL", "true", "True", "TRUE", "false", "False", "FALSE",
    ".nan", ".NaN", ".NAN", ".inf", ".Inf", ".INF", "+.inf", "+.Inf", "+.INF",
    "-.inf", "-.Inf", "-.INF"].contains s

def isOldWord (s : String) : Bool :=
  ["y", "Y", "yes", "Yes", "YES", "on", "On", "ON",
    "n", "N", "no", "No", "NO", "off", "Off", "OFF"].contains s

/-! ## Numbers -/

def isSign (c : Char) : Bool := c == '+' || c == '-'

def isOk : Except Number.IntegerError α → Bool
  | .ok _ => true
  | .error _ => false

/-- An integer of 64 bits, with or without a sign. -/
def isInteger (cs : List Char) : Bool :=
  isOk (Number.markedInteger (String.ofList cs)) || isOk (Number.markedNatural cs)

/-- Behind a mark in lower case the digits may have a sign. -/
def isSignedDigits : List Char → Bool
  | '0' :: 'b' :: cs => digits 2 cs
  | '0' :: 'o' :: cs => digits 8 cs
  | _ => false
where
  digits (base : Nat) (cs : List Char) : Bool :=
    match Number.takeSign cs with
    | (_, []) => false
    | (negative, ds) => isOk (Number.applySign negative (Number.takeNatural base false 0 ds))

/-- A decimal number in the range of a double. -/
def isDecimal (cs : List Char) : Bool :=
  cs.all (fun c => isDigit c || isSign c || c == '.' || c == 'e' || c == 'E') &&
    (Number.literal? (String.ofList cs)).isSome

/-- Underscores in a number do not count. -/
def isNumber (cs : List Char) : Bool :=
  let plain := cs.filter (· != '_')
  isInteger plain || isDecimal plain || isSignedDigits plain

/-- The groups of a number of base sixty behind the first one, and a fraction. -/
def isSexagesimalTail (any : Bool) : List Char → Bool
  | [] => any
  | ':' :: a :: b :: cs =>
    if isDigit a && isDigit b then a ≤ '5' && isSexagesimalTail true cs
    else isDigit a && isSexagesimalTail true (b :: cs)
  | [':', a] => isDigit a
  | '.' :: cs => any && cs.all fun c => isDigit c || c == '_'
  | _ => false

/-- Numbers of base sixty, such as `1:30`. -/
def isSexagesimal (cs : List Char) : Bool :=
  match (Number.takeSign cs).2 with
  | c :: rest =>
    isDigit c && isSexagesimalTail false (rest.dropWhile fun c => isDigit c || c == '_')
  | [] => false

/-! ## Points in time -/

/-- The number of one or two digits. -/
def shortNumber? : List Char → Option (Nat × List Char)
  | a :: cs =>
    if isDigit a then
      let n := a.toNat - '0'.toNat
      match cs with
      | b :: rest =>
        if isDigit b then some (10 * n + (b.toNat - '0'.toNat), rest) else some (n, cs)
      | [] => some (n, [])
    else none
  | [] => none

def expect? (c : Char) : List Char → Option (List Char)
  | d :: cs => if c = d then some cs else none
  | [] => none

def isLeapYear (year : Nat) : Bool := year % 4 == 0 && (year % 100 != 0 || year % 400 == 0)

def daysOf (year month : Nat) : Nat :=
  if month = 2 then if isLeapYear year then 29 else 28
  else if month = 4 ∨ month = 6 ∨ month = 9 ∨ month = 11 then 30
  else 31

/-- What follows a date: a year of four digits, a month and a day of the calendar. -/
def afterDate? (cs : List Char) : Option (List Char) := do
  let (digits, rest) := cs.span isDigit
  guard (digits.length = 4)
  let year := digits.foldl (fun n d => 10 * n + (d.toNat - '0'.toNat)) 0
  let (month, rest) ← shortNumber? (← expect? '-' rest)
  let (day, rest) ← shortNumber? (← expect? '-' rest)
  guard (1 ≤ month && month ≤ 12 && 1 ≤ day && day ≤ daysOf year month)
  return rest

/-- What follows the parts of a second, if there are any. -/
def afterFraction : List Char → List Char
  | p :: d :: cs =>
    if (p == '.' || p == ',') && isDigit d then cs.dropWhile isDigit else p :: d :: cs
  | cs => cs

/-- What follows a time of the day. -/
def afterClock? (cs : List Char) : Option (List Char) := do
  let (hour, cs) ← shortNumber? cs
  let (minute, cs) ← shortNumber? (← expect? ':' cs)
  let (second, cs) ← shortNumber? (← expect? ':' cs)
  guard (hour < 24 && minute < 60 && second < 60)
  return afterFraction cs

/-- A time zone, as a letter or a distance in hours and minutes. -/
def isZone : List Char → Bool
  | ['Z'] => true
  | [s, a, b, ':', c, d] =>
    match shortNumber? [a, b], shortNumber? [c, d] with
    | some (hours, []), some (minutes, []) => isSign s && hours ≤ 24 && minutes ≤ 60
    | _, _ => false
  | _ => false

/-- A date, with a time of the day in a zone, or after blanks with one in no zone. -/
def isTime (cs : List Char) : Bool :=
  match afterDate? cs with
  | none => false
  | some [] => true
  | some (c :: rest) =>
    if c == 'T' || c == 't' then (afterClock? rest).any isZone
    else c == ' ' && (afterClock? (rest.dropWhile (· == ' '))).any (·.isEmpty)

/-! ## Texts -/

/-- A plain text that reads as something else, now or to older readers. -/
def hasMeaning (s : String) : Bool :=
  let cs := s.toList
  isWord s || isOldWord s || isSexagesimal cs ||
    match cs with
    | [] => true
    | c :: _ =>
      if c = '.' then (Number.literal? s).isSome
      else if isDigit c || isSign c then isTime cs || isNumber cs
      else false

example : hasMeaning "1_0:30.5" := by decide +kernel
example : hasMeaning "2024-2-29" && !hasMeaning "2023-2-29" := by decide +kernel
example : !hasMeaning "1e999" && hasMeaning "0b-101" := by decide +kernel

end Flowchart.Document
