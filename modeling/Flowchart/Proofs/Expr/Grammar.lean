import Flowchart.Expr.Value

/-!
# The grammar of expressions

Which sequences of tokens are expressions, and the tree that each of them denotes. From
strong to weak the operators are `^`, negation, `*` `/` `//` `%`, and `+` `-`; all binary
ones associate to the left, `^` too. A `-` behind `^` negates all powers that follow.
-/

namespace Flowchart.Expr

/-! ## Operators and brackets -/

inductive Operator where
  | add | sub | mul | div | intDiv | mod | pow
deriving Repr, DecidableEq

namespace Operator

def lexeme : Operator → String
  | add => "+"
  | sub => "-"
  | mul => "*"
  | div => "/"
  | intDiv => "//"
  | mod => "%"
  | pow => "^"

def additive : Operator → Bool
  | add | sub => true
  | _ => false

def multiplicative : Operator → Bool
  | mul | div | intDiv | mod => true
  | _ => false

theorem lexeme_ne_negation (o : Operator) : o.lexeme ≠ negation := by
  cases o <;> decide

theorem precedence_of_additive {o : Operator} (h : o.additive) : precedence o.lexeme = 2 := by
  revert h
  cases o <;> decide

theorem precedence_of_multiplicative {o : Operator} (h : o.multiplicative) :
    precedence o.lexeme = 3 := by
  revert h
  cases o <;> decide

theorem rows (o : Operator) : o.additive ∨ o.multiplicative ∨ o = .pow := by
  cases o <;> decide

end Operator

/-- The token is the operator, as a sign or between two operands. -/
def Spells (t : Token) (o : Operator) : Prop := t.cls = .operator ∧ t.lexeme = o.lexeme

/-- Two brackets of the same kind. -/
def Encloses (o c : Token) : Prop :=
  o.cls = .opening ∧ c.cls = .closing ∧
    (o.lexeme = "(" ∧ c.lexeme = ")" ∨ o.lexeme = "[" ∧ c.lexeme = "]")

/-! ## Trees -/

/-- What an expression says, with the tokens that say it. -/
inductive Tree where
  | number (t : Token) (h : t.cls = .number)
  | name (t : Token) (h : t.cls = .name)
  | negation (t : Token) (h : Spells t .sub) (operand : Tree)
  | operation (o : Operator) (t : Token) (h : Spells t o) (left right : Tree)

/-- The tokens of a tree, each operator behind its operands. -/
def Tree.postorder : Tree → List Token
  | .number t _ | .name t _ => [t]
  | .negation t _ a => a.postorder ++ [{ t with lexeme := Expr.negation }]
  | .operation _ t _ l r => l.postorder ++ (r.postorder ++ [t])

/-! ## Phrases -/

inductive Phrase where
  | atom
  /-- Atoms joined by `^`. -/
  | chain
  /-- A chain of atoms, the last of which may be a power with a sign in front. -/
  | power
  | signed
  | term
  | sum
deriving Repr, DecidableEq

inductive Denotes : Phrase → Tree → List Token → Prop where
  | number {t : Token} (h : t.cls = .number) : Denotes .atom (.number t h) [t]
  | name {t : Token} (h : t.cls = .name) : Denotes .atom (.name t h) [t]
  | group {o c : Token} {e : Tree} {ts : List Token} (h : Encloses o c) (he : Denotes .sum e ts) :
      Denotes .atom e (o :: (ts ++ [c]))
  | atom {e : Tree} {ts : List Token} (he : Denotes .atom e ts) : Denotes .chain e ts
  | power {t : Token} {l r : Tree} {ts us : List Token} (h : Spells t .pow)
      (hl : Denotes .chain l ts) (hr : Denotes .atom r us) :
      Denotes .chain (.operation .pow t h l r) (ts ++ t :: us)
  | chain {e : Tree} {ts : List Token} (he : Denotes .chain e ts) : Denotes .power e ts
  | signedPower {t m : Token} {l r : Tree} {ts us : List Token} (h : Spells t .pow)
      (hm : Spells m .sub) (hl : Denotes .chain l ts) (hr : Denotes .signed r us) :
      Denotes .power (.operation .pow t h l (.negation m hm r)) (ts ++ t :: m :: us)
  | negated {m : Token} {a : Tree} {ts : List Token} (hm : Spells m .sub)
      (ha : Denotes .signed a ts) :
      Denotes .signed (.negation m hm a) (m :: ts)
  | unsigned {e : Tree} {ts : List Token} (he : Denotes .power e ts) : Denotes .signed e ts
  | signed {e : Tree} {ts : List Token} (he : Denotes .signed e ts) : Denotes .term e ts
  | product {o : Operator} {t : Token} {l r : Tree} {ts us : List Token} (ho : o.multiplicative)
      (h : Spells t o) (hl : Denotes .term l ts) (hr : Denotes .signed r us) :
      Denotes .term (.operation o t h l r) (ts ++ t :: us)
  | term {e : Tree} {ts : List Token} (he : Denotes .term e ts) : Denotes .sum e ts
  | sum {o : Operator} {t : Token} {l r : Tree} {ts us : List Token} (ho : o.additive)
      (h : Spells t o) (hl : Denotes .sum l ts) (hr : Denotes .term r us) :
      Denotes .sum (.operation o t h l r) (ts ++ t :: us)

/-! ## Signs without effect -/

/-- Does an operand start behind the token? -/
def startsOperand (t : Token) : Bool := t.cls = .operator || t.cls = .opening

/-- Takes out every `+` that is a sign. An operand starts in front of the tokens or not. -/
def erasePlus : (atOperand : Bool) → List Token → List Token
  | _, [] => []
  | atOperand, t :: ts =>
    if atOperand ∧ t.cls = .operator ∧ t.lexeme = "+" then erasePlus true ts
    else t :: erasePlus (startsOperand t) ts

theorem mem_of_mem_erasePlus {t : Token} {atOperand : Bool} {ts : List Token}
    (h : t ∈ erasePlus atOperand ts) : t ∈ ts := by
  induction ts generalizing atOperand with
  | nil => exact h
  | cons u ts ih =>
    rw [erasePlus] at h
    split at h
    · exact List.mem_cons_of_mem _ (ih h)
    · rcases List.mem_cons.mp h with rfl | h
      · exact List.mem_cons_self
      · exact List.mem_cons_of_mem _ (ih h)

/-- The tokens are an expression once the signs without effect are taken out. -/
def IsExpression (ts : List Token) : Prop := ∃ e, Denotes .sum e (erasePlus true ts)

/-! ## Longer expressions

An expression goes on with an operator and an operand, whatever the operator: what binds
stronger is joined to the last part of the expression only. -/

/-- An atom with signs in front. -/
inductive Operand : List Token → Prop where
  | atom {e : Tree} {ts : List Token} (h : Denotes .atom e ts) : Operand ts
  | negated {m : Token} {ts : List Token} (hm : Spells m .sub) (h : Operand ts) : Operand (m :: ts)

theorem Operand.signed {ts : List Token} (h : Operand ts) : ∃ e, Denotes .signed e ts := by
  induction h with
  | atom h => exact ⟨_, .unsigned (.chain (.atom h))⟩
  | negated hm _ ih =>
    obtain ⟨e, he⟩ := ih
    exact ⟨_, .negated hm he⟩

section Append

variable {t : Token} {us : List Token}

theorem Denotes.chain_append {e : Tree} {ts : List Token} (ht : Spells t .pow) (hu : Operand us)
    (h : Denotes .chain e ts) : ∃ e', Denotes .power e' (ts ++ t :: us) := by
  cases hu with
  | atom ha => exact ⟨_, .chain (.power ht h ha)⟩
  | negated hm hs =>
    obtain ⟨a, ha⟩ := hs.signed
    exact ⟨_, .signedPower ht hm h ha⟩

/-- The phrase that a phrase becomes when `^` and an operand follow. -/
def Phrase.raised : Phrase → Phrase
  | .atom | .chain => .power
  | p => p

theorem Denotes.power_append {c : Phrase} {e : Tree} {ts : List Token} (ht : Spells t .pow)
    (hu : Operand us) (h : Denotes c e ts) : ∃ e', Denotes c.raised e' (ts ++ t :: us) := by
  induction h with
  | number h => exact (Denotes.atom (.number h)).chain_append ht hu
  | name h => exact (Denotes.atom (.name h)).chain_append ht hu
  | group h he => exact (Denotes.atom (.group h he)).chain_append ht hu
  | atom he => exact (Denotes.atom he).chain_append ht hu
  | power h hl hr => exact (Denotes.power h hl hr).chain_append ht hu
  | chain _ ih => exact ih
  | signedPower h hm hl _ _ ih =>
    obtain ⟨e', he'⟩ := ih
    rw [List.append_assoc]
    exact ⟨_, .signedPower h hm hl he'⟩
  | negated hm _ ih =>
    obtain ⟨e', he'⟩ := ih
    exact ⟨_, .negated hm he'⟩
  | unsigned _ ih =>
    obtain ⟨e', he'⟩ := ih
    exact ⟨e', .unsigned he'⟩
  | signed _ ih =>
    obtain ⟨e', he'⟩ := ih
    exact ⟨e', .signed he'⟩
  | product ho h hl _ _ ih =>
    obtain ⟨e', he'⟩ := ih
    rw [List.append_assoc]
    exact ⟨_, .product ho h hl he'⟩
  | term _ ih =>
    obtain ⟨e', he'⟩ := ih
    exact ⟨e', .term he'⟩
  | sum ho h hl _ _ ih =>
    obtain ⟨e', he'⟩ := ih
    rw [List.append_assoc]
    exact ⟨_, .sum ho h hl he'⟩

theorem Denotes.product_append {o : Operator} {e : Tree} {ts : List Token} (ho : o.multiplicative)
    (ht : Spells t o) (hu : Operand us) (h : Denotes .sum e ts) :
    ∃ e', Denotes .sum e' (ts ++ t :: us) := by
  obtain ⟨a, ha⟩ := hu.signed
  cases h with
  | term h => exact ⟨_, .term (.product ho ht h ha)⟩
  | sum hs h hl hr =>
    rw [List.append_assoc]
    exact ⟨_, .sum hs h hl (.product ho ht hr ha)⟩

theorem Denotes.append {o : Operator} {e : Tree} {ts : List Token} (ht : Spells t o)
    (hu : Operand us) (h : Denotes .sum e ts) : ∃ e', Denotes .sum e' (ts ++ t :: us) := by
  rcases o.rows with ho | ho | rfl
  · obtain ⟨a, ha⟩ := hu.signed
    exact ⟨_, .sum ho ht h (.signed ha)⟩
  · exact h.product_append ho ht hu
  · exact h.power_append ht hu

end Append

end Flowchart.Expr
