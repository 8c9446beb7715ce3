/-!
# Kinds of failures

The category of a failure, on which hosts decide what to do, and the reason that
refines a failed expression. Both travel as small numbers; a number that is not in
the list is kept as it is.
-/

namespace Flowchart

inductive FailureKind where
  | ok
  | graph
  | declaration
  | reference
  | bounds
  | expression
  | recursion
  | iterationLimit
  | linkage
  | unlisted (code : Int)
deriving Repr, DecidableEq

namespace FailureKind

def ofCode : Int → FailureKind
  | 0 => ok
  | 1 => graph
  | 2 => declaration
  | 3 => reference
  | 4 => bounds
  | 5 => expression
  | 6 => recursion
  | 7 => iterationLimit
  | 8 => linkage
  | code => unlisted code

def code : FailureKind → Int
  | ok => 0
  | graph => 1
  | declaration => 2
  | reference => 3
  | bounds => 4
  | expression => 5
  | recursion => 6
  | iterationLimit => 7
  | linkage => 8
  | unlisted code => code

def name : FailureKind → String
  | ok => "ok"
  | graph => "graph"
  | declaration => "declaration"
  | reference => "reference"
  | bounds => "bounds"
  | expression => "expression"
  | recursion => "recursion"
  | iterationLimit => "iteration-limit"
  | linkage => "linkage"
  | unlisted code => s!"<error-kind {code}>"

theorem code_ofCode (n : Int) : (ofCode n).code = n := by
  unfold ofCode
  split <;> rfl

end FailureKind

/-- Why an expression failed. -/
inductive Reason where
  | unspecified
  | invalidCharacters
  | malformed
  | divisionByZero
  | integerDivisionByZero
  | moduloByZero
  | invalidResult
  | emptyExpression
  | unknownOperator
  | unlisted (code : Int)
deriving Repr, DecidableEq

namespace Reason

def ofCode : Int → Reason
  | 0 => unspecified
  | 1 => invalidCharacters
  | 2 => malformed
  | 3 => divisionByZero
  | 4 => integerDivisionByZero
  | 5 => moduloByZero
  | 6 => invalidResult
  | 7 => emptyExpression
  | 8 => unknownOperator
  | code => unlisted code

def code : Reason → Int
  | unspecified => 0
  | invalidCharacters => 1
  | malformed => 2
  | divisionByZero => 3
  | integerDivisionByZero => 4
  | moduloByZero => 5
  | invalidResult => 6
  | emptyExpression => 7
  | unknownOperator => 8
  | unlisted code => code

theorem code_ofCode (n : Int) : (ofCode n).code = n := by
  unfold ofCode
  split <;> rfl

end Reason

end Flowchart
