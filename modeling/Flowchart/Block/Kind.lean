/-!
# Block kinds

What a block does. Hosts write the kind as a type tag; kinds also travel as small
numbers.
-/

namespace Flowchart

inductive BlockKind where
  | unknown
  | declaration
  | assignment
  | arithmetic
  | branch
  | whileLoop
  | forLoop
  | start
  | stop
  | output
  | functionStart
  | functionCall
  | functionEnd
  | arrayDeclaration
  | arrayAssignment
  | arrayElement
deriving Repr, DecidableEq

namespace BlockKind

/-- All kinds in the order of their numbers. -/
def all : List BlockKind :=
  [unknown, declaration, assignment, arithmetic, branch, whileLoop, forLoop, start, stop, output,
    functionStart, functionCall, functionEnd, arrayDeclaration, arrayAssignment, arrayElement]

def code (k : BlockKind) : Nat := all.idxOf k

def ofCode? (n : Int) : Option BlockKind := if n < 0 then none else all[n.toNat]?

/-- The type tag of a kind. -/
def tag : BlockKind → String
  | unknown => ""
  | declaration => "variable"
  | assignment => "assignment"
  | arithmetic => "arithmetic"
  | branch => "if"
  | whileLoop => "while"
  | forLoop => "for"
  | start => "start"
  | stop => "end"
  | output => "output"
  | functionStart => "functionStart"
  | functionCall => "functionCall"
  | functionEnd => "functionEnd"
  | arrayDeclaration => "arrayDeclaration"
  | arrayAssignment => "arrayAssignment"
  | arrayElement => "arrayElement"

/-- The text for the number of a kind, in or out of the list. -/
def tagOfCode (n : Int) : String :=
  match ofCode? n with
  | some k => k.tag
  | none => s!"<kind {n}>"

/-- The kind of a type tag; no tag stands for an unknown kind. -/
def ofTag? (tag : String) : Option BlockKind :=
  all.tail.find? fun k => k.tag = tag

def ofTag (tag : String) : BlockKind := (ofTag? tag).getD unknown

/-- May blocks of this kind be bound to a data input? -/
def isProducer : BlockKind → Bool
  | arithmetic | arrayElement => true
  | _ => false

/-- Does this kind use the links for true and false? -/
def isBranching : BlockKind → Bool
  | branch | whileLoop | forLoop => true
  | _ => false

theorem ofTag_tag (k : BlockKind) : ofTag k.tag = k := by
  cases k <;> decide

theorem tag_of_ofTag? {t : String} {k : BlockKind} (h : ofTag? t = some k) : k.tag = t := by
  simpa using List.find?_some h

theorem ofTag_eq_iff {t : String} {k : BlockKind} (hk : k ≠ unknown) : ofTag t = k ↔ k.tag = t := by
  constructor
  · intro h
    unfold ofTag at h
    cases htag : ofTag? t with
    | none =>
      rw [htag] at h
      exact absurd h.symm hk
    | some k' =>
      rw [htag] at h
      exact h ▸ tag_of_ofTag? htag
  · rintro rfl
    exact ofTag_tag k

end BlockKind

end Flowchart
