import Flowchart.Proofs.Expr.Yard

/-!
# The value of an expression

The stack of values holds, after the postorder of a tree, the value of the tree. The
first division by zero in postorder, and a value that is not finite, are errors.
-/

namespace Flowchart.Expr

/-! ## Operators -/

/-- The value, unless something fails. -/
def unlessFailed {α : Type} : Option Error → α → Except Error α
  | some e, _ => .error e
  | none, a => .ok a

namespace Operator

def apply : Operator → Float → Float → Float
  | add, a, b => a + b
  | sub, a, b => a - b
  | mul, a, b => a * b
  | div, a, b => a / b
  | intDiv, a, b => Number.floor (a / b)
  | mod, a, b => Number.remainder a b
  | pow, a, b => Number.pow a b

/-- What is wrong with a divisor that is zero. -/
def zeroError? : Operator → Option Error
  | div => some .divisionByZero
  | intDiv => some .integerDivisionByZero
  | mod => some .moduloByZero
  | _ => none

def failure? (o : Operator) (right : Float) : Option Error :=
  if right == 0 then o.zeroError? else none

theorem applyOperator_lexeme (o : Operator) (a b : Float) :
    applyOperator o.lexeme a b = unlessFailed (o.failure? b) (o.apply a b) := by
  by_cases hb : b == 0 <;> cases o <;> simp [applyOperator, lexeme, failure?, zeroError?, apply,
    unlessFailed, hb]

end Operator

/-! ## Trees -/

namespace Tree

/-- The value of a tree from the bottom up, whatever its divisors are. -/
def value (resolve : Resolver) : Tree → Float
  | .number t _ => t.value
  | .name t _ => (resolve t.lexeme).getD 0
  | .negation _ _ a => -a.value resolve
  | .operation o _ _ l r => o.apply (l.value resolve) (r.value resolve)

/-- The operations in postorder, each with the value of its right operand. -/
def operations (resolve : Resolver) : Tree → List (Operator × Float)
  | .number .. | .name .. => []
  | .negation _ _ a => a.operations resolve
  | .operation o _ _ l r => l.operations resolve ++ (r.operations resolve ++ [(o, r.value resolve)])

/-- The first operation that has no result. -/
def failure? (resolve : Resolver) (e : Tree) : Option Error :=
  (e.operations resolve).findSome? fun operation => operation.1.failure? operation.2

def outcome (resolve : Resolver) (e : Tree) : Except Error Float :=
  match e.failure? resolve with
  | some error => .error error
  | none =>
    if Number.isFinite (e.value resolve) then .ok (e.value resolve) else .error .invalidResult

theorem failure?_operation (resolve : Resolver) {o : Operator} {t : Token} (h : Spells t o)
    (l r : Tree) :
    (operation o t h l r).failure? resolve =
      (l.failure? resolve).or ((r.failure? resolve).or (o.failure? (r.value resolve))) := by
  simp [failure?, operations, List.findSome?_append]

end Tree

/-! ## Single tokens -/

section EvalToken

variable {t : Token} {o : Operator}

theorem evalToken_number (h : t.cls = .number) (stack : List Float) :
    evalToken stack t = .ok (t.value :: stack) := if_pos h

theorem evalToken_negation (h : Spells t .sub) (a : Float) (stack : List Float) :
    evalToken (a :: stack) { t with lexeme := negation } = .ok (-a :: stack) := by
  simp [evalToken, h.1]

theorem evalToken_operator (h : Spells t o) (a b : Float) (stack : List Float) :
    evalToken (b :: a :: stack) t = unlessFailed (o.failure? b) (o.apply a b :: stack) := by
  simp only [evalToken, h.1, reduceCtorEq, if_false, h.2, o.lexeme_ne_negation,
    Operator.applyOperator_lexeme]
  cases o.failure? b <;> rfl

end EvalToken

/-! ## Whole expressions -/

theorem Denotes.known {resolve : Resolver} {c : Phrase} {e : Tree} {ts : List Token}
    (h : Denotes c e ts) (hknown : Known resolve ts) : Known resolve e.postorder := by
  induction h with
  | number _ | name _ => exact hknown
  | group _ _ ih => exact ih hknown.tail.left
  | power h _ _ ihl ihr | product _ h _ _ ihl ihr | sum _ h _ _ ihl ihr =>
    exact (ihl hknown.left).append ((ihr hknown.right.tail).append (known_singleton h.ne_name))
  | @signedPower _ m _ _ _ _ h hm _ _ ihl ihr =>
    have hr :=
      (ihr hknown.right.tail.tail).append
        (known_singleton (t := { m with lexeme := negation }) hm.ne_name)
    exact (ihl hknown.left).append (hr.append (known_singleton h.ne_name))
  | negated hm _ ih => exact (ih hknown.tail).append (known_singleton hm.ne_name)
  | atom _ ih | chain _ ih | unsigned _ ih | signed _ ih | term _ ih => exact ih hknown

theorem Tree.foldlM_postorder {resolve : Resolver} {e : Tree} (hknown : Known resolve e.postorder)
    (stack : List Float) :
    (substitute resolve e.postorder).foldlM evalToken stack =
      unlessFailed (e.failure? resolve) (e.value resolve :: stack) := by
  induction e generalizing stack with
  | number t h =>
    rw [postorder, substitute_cons_of_ne (by rw [h]; decide), substitute_nil, List.foldlM_cons,
      evalToken_number h]
    rfl
  | name t h =>
    obtain ⟨v, hv⟩ := Option.isSome_iff_exists.mp (hknown t List.mem_cons_self h)
    have hres : resolved resolve t = ⟨.number, t.lexeme, v, t.pos⟩ := by simp [resolved, h, hv]
    rw [postorder, substitute_cons, substitute_nil, hres, List.foldlM_cons, evalToken_number rfl,
      value, hv]
    rfl
  | negation t h a ih =>
    rw [substitute_negation, List.foldlM_append, ih hknown.left]
    change _ = unlessFailed (a.failure? resolve) (-a.value resolve :: stack)
    cases a.failure? resolve with
    | some error => rfl
    | none =>
      change List.foldlM evalToken (a.value resolve :: stack) _ = _
      rw [List.foldlM_cons, evalToken_negation h]
      rfl
  | operation o t h l r ihl ihr =>
    rw [substitute_operation, List.foldlM_append, ihl hknown.left, failure?_operation]
    cases l.failure? resolve with
    | some error => rfl
    | none =>
      change List.foldlM evalToken (l.value resolve :: stack) _ = _
      rw [Option.none_or, List.foldlM_append, ihr hknown.right.left]
      cases r.failure? resolve with
      | some error => rfl
      | none =>
        change List.foldlM evalToken (r.value resolve :: l.value resolve :: stack) _ = _
        rw [Option.none_or, List.foldlM_cons, evalToken_operator h, value]
        cases o.failure? (r.value resolve) <;> rfl

theorem evalPostfix_of_denotes {resolve : Resolver} {e : Tree} {ts : List Token}
    (h : Denotes .sum e (erasePlus true ts)) (hknown : Known resolve ts) :
    evalPostfix (substitute resolve e.postorder) = e.outcome resolve := by
  have hknown' : Known resolve e.postorder := h.known fun t ht => hknown t (mem_of_mem_erasePlus ht)
  rw [evalPostfix, Tree.foldlM_postorder hknown', Tree.outcome]
  cases e.failure? resolve <;> rfl

/-- An expression is brought into the postorder of its tree, and has the value of the tree. -/
theorem postorder_and_value {resolve : Resolver} {e : Tree} {ts : List Token}
    (h : Denotes .sum e (erasePlus true ts)) (hknown : Known resolve ts) :
    toPostfix (substitute resolve ts) = .ok (substitute resolve e.postorder) ∧
      evalPostfix (substitute resolve e.postorder) = e.outcome resolve :=
  ⟨toPostfix_of_denotes h hknown, evalPostfix_of_denotes h hknown⟩

/-- The tokens of `x ^ -y % +(2)`. -/
def remainderOfPower : List Token :=
  [⟨.name, "x", 0, 0⟩, ⟨.operator, "^", 0, 2⟩, ⟨.operator, "-", 0, 4⟩, ⟨.name, "y", 0, 5⟩,
    ⟨.operator, "%", 0, 7⟩,
    ⟨.operator, "+", 0, 9⟩, ⟨.opening, "(", 0, 10⟩, ⟨.number, "2", 2, 11⟩, ⟨.closing, ")", 0, 12⟩]

def remainderOfPowerTree : Tree :=
  .operation .mod ⟨.operator, "%", 0, 7⟩ ⟨rfl, rfl⟩
    (.operation .pow ⟨.operator, "^", 0, 2⟩ ⟨rfl, rfl⟩ (.name ⟨.name, "x", 0, 0⟩ rfl)
      (.negation ⟨.operator, "-", 0, 4⟩ ⟨rfl, rfl⟩ (.name ⟨.name, "y", 0, 5⟩ rfl)))
    (.number ⟨.number, "2", 2, 11⟩ rfl)

theorem denotes_remainderOfPower :
    Denotes .sum remainderOfPowerTree (erasePlus true remainderOfPower) := by
  have hx : Denotes .chain _ [⟨.name, "x", 0, 0⟩] := .atom (.name rfl)
  have hy : Denotes .signed _ [⟨.name, "y", 0, 5⟩] := .unsigned (.chain (.atom (.name rfl)))
  have htwo : Denotes .sum _ [⟨.number, "2", 2, 11⟩] :=
    .term (.signed (.unsigned (.chain (.atom (.number rfl)))))
  exact .term (.product (o := .mod) rfl ⟨rfl, rfl⟩
    (.signed (.unsigned (.signedPower ⟨rfl, rfl⟩ ⟨rfl, rfl⟩ hx hy)))
    (.unsigned (.chain (.atom (.group ⟨rfl, rfl, .inl ⟨rfl, rfl⟩⟩ htwo)))))

theorem postorder_and_value_remainderOfPower :
    Denotes .sum remainderOfPowerTree (erasePlus true remainderOfPower) ∧
      Known (fun _ => some 1) remainderOfPower ∧
      toPostfix (substitute (fun _ => some 1) remainderOfPower) =
        .ok (substitute (fun _ => some 1) remainderOfPowerTree.postorder) ∧
      evalPostfix (substitute (fun _ => some 1) remainderOfPowerTree.postorder) =
        remainderOfPowerTree.outcome (fun _ => some 1) :=
  have hknown : Known (fun _ => some 1) remainderOfPower := fun _ _ _ => rfl
  ⟨denotes_remainderOfPower, hknown, postorder_and_value denotes_remainderOfPower hknown⟩

end Flowchart.Expr
