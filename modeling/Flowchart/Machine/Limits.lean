import Flowchart.Number.Literal
import Flowchart.Table

/-!
# Limits

The ceilings that guard against runaway programs: how often a path may go through loop
bodies, and how many calls may be nested.
-/

namespace Flowchart

structure Limits where
  maxIterations : Nat
  maxCallDepth : Nat
deriving Repr, DecidableEq

/-- Ceilings as a host states them; only positive numbers count. -/
structure LimitSettings where
  maxIterations : Int := 0
  maxCallDepth : Int := 0
deriving Repr, DecidableEq

namespace Limits

def standard : Limits := ⟨1000, 50⟩

/-- Replaces a ceiling if a positive one is stated. -/
def override (ceiling : Nat) (stated : Int) : Nat :=
  if 0 < stated then stated.toNat else ceiling

def adjust (l : Limits) (s : LimitSettings) : Limits :=
  ⟨override l.maxIterations s.maxIterations, override l.maxCallDepth s.maxCallDepth⟩

end Limits

/-! ## Configuration -/

/-- A value in a configuration. -/
inductive Setting where
  | text (value : String)
  | integer (value : Int)
  | flag (value : Bool)
deriving Repr, DecidableEq

/-- A text is read as a decimal number; out of range it gives the nearest one, and zero if
it is none. -/
def Setting.toInt : Setting → Int
  | .text value =>
    match Number.integer value with
    | .ok n => n
    | .error (.outOfRange nearest) => nearest
    | .error .malformed => 0
  | .integer value => value
  | .flag _ => 0

namespace LimitSettings

def maxIterationsKey : String := "blockflow.max-iterations"

def maxCallDepthKey : String := "blockflow.max-call-depth"

/-- Keys that are not set count as zero. -/
def ofConfig (config : Table Setting) : LimitSettings :=
  let read (key : String) : Int := ((config.get? key).map Setting.toInt).getD 0
  ⟨read maxIterationsKey, read maxCallDepthKey⟩

end LimitSettings

end Flowchart
