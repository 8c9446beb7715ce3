import Flowchart.Proofs.Expr.Grammar

/-!
# Phrases in postfix order

While a phrase is read, some of its operators wait on the stack. They bind at least as
strong as the phrase, so they leave the stack together, and then the output holds the
postorder of the tree that the phrase denotes.
-/

namespace Flowchart.Expr

/-! ## Names replaced by numbers -/

/-- What a token is read as. -/
def resolved (resolve : Resolver) (t : Token) : Token :=
  if t.cls = .name then
    match resolve t.lexeme with
    | some v => ⟨.number, t.lexeme, v, t.pos⟩
    | none => t
  else t

/-- All names among the tokens have a value. -/
def Known (resolve : Resolver) (ts : List Token) : Prop :=
  ∀ t ∈ ts, t.cls = .name → (resolve t.lexeme).isSome

theorem Spells.ne_name {t : Token} {o : Operator} (h : Spells t o) : t.cls ≠ .name := by
  rw [h.1]
  decide

section Substitute

variable {resolve : Resolver} {t : Token} {ts us : List Token}

theorem resolved_of_ne (h : t.cls ≠ .name) : resolved resolve t = t := if_neg h

theorem resolved_cases (resolve : Resolver) (t : Token) :
    resolved resolve t = t ∨ t.cls = .name ∧ (resolved resolve t).cls = .number := by
  unfold resolved
  split
  · split
    · exact .inr ⟨‹_›, rfl⟩
    · exact .inl rfl
  · exact .inl rfl

theorem resolved_cls_of_known (h : t.cls = .name) (hk : (resolve t.lexeme).isSome) :
    (resolved resolve t).cls = .number := by
  obtain ⟨v, hv⟩ := Option.isSome_iff_exists.mp hk
  simp [resolved, h, hv]

@[simp] theorem substitute_nil : substitute resolve [] = [] := rfl

theorem substitute_cons :
    substitute resolve (t :: ts) = resolved resolve t :: substitute resolve ts := rfl

theorem substitute_append :
    substitute resolve (ts ++ us) = substitute resolve ts ++ substitute resolve us :=
  List.map_append

theorem substitute_cons_of_ne (h : t.cls ≠ .name) :
    substitute resolve (t :: ts) = t :: substitute resolve ts := by
  rw [substitute_cons, resolved_of_ne h]

theorem substitute_between {o : Operator} (h : Spells t o) :
    substitute resolve (ts ++ t :: us) = substitute resolve ts ++ t :: substitute resolve us := by
  rw [substitute_append, substitute_cons_of_ne h.ne_name]

theorem substitute_operation {o : Operator} (h : Spells t o) (l r : Tree) :
    substitute resolve (Tree.operation o t h l r).postorder =
      substitute resolve l.postorder ++ (substitute resolve r.postorder ++ [t]) := by
  rw [Tree.postorder, substitute_append, substitute_between h]
  rfl

theorem substitute_negation (h : Spells t .sub) (a : Tree) :
    substitute resolve (Tree.negation t h a).postorder =
      substitute resolve a.postorder ++ [{ t with lexeme := negation }] := by
  have hne : ({ t with lexeme := negation } : Token).cls ≠ .name := h.ne_name
  rw [Tree.postorder, substitute_append, substitute_cons_of_ne hne]
  rfl

theorem known_singleton (h : t.cls ≠ .name) : Known resolve [t] := by
  intro u hu hname
  rw [List.mem_singleton.mp hu] at hname
  exact absurd hname h

theorem Known.append (hl : Known resolve ts) (hr : Known resolve us) :
    Known resolve (ts ++ us) := by
  intro u hu
  rcases List.mem_append.mp hu with hu | hu
  · exact hl u hu
  · exact hr u hu

theorem Known.left (h : Known resolve (ts ++ us)) : Known resolve ts :=
  fun u hu => h u (List.mem_append_left us hu)

theorem Known.right (h : Known resolve (ts ++ us)) : Known resolve us :=
  fun u hu => h u (List.mem_append_right ts hu)

theorem Known.tail (h : Known resolve (t :: ts)) : Known resolve ts :=
  fun u hu => h u (List.mem_cons_of_mem t hu)

end Substitute

/-! ## Operators on the stack -/

/-- Operators that bind at least as strong as `level`. -/
def Waiting (level : Nat) (ops : List Token) : Prop :=
  ∀ op ∈ ops, op.cls ≠ .opening ∧ level ≤ precedence op.lexeme

/-- The operator on top, if there is one, binds weaker than `level`. -/
def Blocked (level : Nat) (stack : List Token) : Prop :=
  ∀ op ∈ stack.head?, op.cls = .opening ∨ precedence op.lexeme < level

theorem Spells.precedence {t : Token} {o : Operator} (h : Spells t o) :
    Expr.precedence t.lexeme = Expr.precedence o.lexeme := by rw [h.2]

theorem Spells.precedence_pow {t : Token} (h : Spells t .pow) :
    Expr.precedence t.lexeme = 5 := h.precedence

theorem precedence_negation_lt : precedence negation < 5 := by decide

theorem blocked_cons {level : Nat} {op : Token} {stack : List Token}
    (h : op.cls = .opening ∨ precedence op.lexeme < level) : Blocked level (op :: stack) := by
  intro op' hop'
  cases hop'
  exact h

theorem Blocked.mono {level level' : Nat} {stack : List Token} (h : Blocked level stack)
    (hle : level ≤ level') :
    Blocked level' stack := by
  intro op hop
  rcases h op hop with hop | hop
  · exact .inl hop
  · exact .inr (by omega)

theorem Waiting.mono {level level' : Nat} {ops : List Token} (h : Waiting level ops)
    (hle : level' ≤ level) :
    Waiting level' ops :=
  fun op hop => ⟨(h op hop).1, Nat.le_trans hle (h op hop).2⟩

namespace Yard

theorem unstack_append {level : Nat} {ops : List Token} (h : Waiting level ops)
    (output stack : List Token) :
    unstack output (ops ++ stack) = unstack (ops.reverse ++ output) stack := by
  induction ops generalizing output with
  | nil => rfl
  | cons op ops ih =>
    rw [List.cons_append, unstack, if_neg (h op List.mem_cons_self).1,
      ih fun op' hop' => h op' (List.mem_cons_of_mem op hop')]
    simp

theorem release_append {level : Nat} {ops stack : List Token} (h : Waiting level ops)
    (hs : Blocked level stack) (output : List Token) :
    release level output (ops ++ stack) = (ops.reverse ++ output, stack) := by
  induction ops generalizing output with
  | nil =>
    cases stack with
    | nil => rfl
    | cons op stack => rw [List.nil_append, release, if_pos (hs op rfl)]; rfl
  | cons op ops ih =>
    obtain ⟨hop, hle⟩ := h op List.mem_cons_self
    have hnot : ¬(op.cls = .opening ∨ precedence op.lexeme < level) := by
      rintro (h | h)
      · exact hop h
      · omega
    rw [List.cons_append, release, if_neg hnot,
      ih fun op' hop' => h op' (List.mem_cons_of_mem op hop')]
    simp

/-! ## Feeding single tokens -/

theorem not_afterOperand {y : Yard} (h : y.atOperand) : y.afterOperand = false := by
  unfold atOperand at h
  unfold afterOperand
  cases hb : y.before <;> simp_all

theorem feed_number {y : Yard} {t : Token} (hy : y.atOperand) (ht : t.cls = .number) :
    y.feed t = .ok ⟨t :: y.output, y.stack, .number⟩ := by
  simp [feed, ht, not_afterOperand hy]

theorem feed_opening {y : Yard} {t : Token} (hy : y.atOperand) (ht : t.cls = .opening) :
    y.feed t = .ok ⟨y.output, t :: y.stack, .opening⟩ := by
  simp [feed, ht, not_afterOperand hy]

theorem feed_negation {y : Yard} {m : Token} (hy : y.atOperand) (hm : Spells m .sub) :
    y.feed m = .ok ⟨y.output, { m with lexeme := negation } :: y.stack, .operator⟩ := by
  simp [feed, hm.1, hy, sign, hm.2, Operator.lexeme]

theorem feed_operator {y : Yard} {t : Token} (hy : y.atOperand = false) (ht : t.cls = .operator) :
    y.feed t = .ok (y.operator t) := by
  simp [feed, ht, hy]

theorem feed_closing {y : Yard} {t : Token} (ht : t.cls = .closing) : y.feed t = y.close t := by
  simp [feed, ht]

/-! ## What feeding does -/

theorem unstack_split (output stack : List Token) :
    ∃ ops rest, stack = ops ++ rest ∧ unstack output stack = (ops.reverse ++ output, rest) ∧
      (∀ op ∈ ops, op.cls ≠ .opening) ∧ ∀ op ∈ rest.head?, op.cls = .opening := by
  induction stack generalizing output with
  | nil => exact ⟨[], [], rfl, rfl, by simp, by simp⟩
  | cons op stack ih =>
    by_cases hop : op.cls = .opening
    · exact ⟨[], op :: stack, rfl, by simp [unstack, hop], by simp, by simp [hop]⟩
    · obtain ⟨ops, rest, rfl, hun, hops, hrest⟩ := ih (op :: output)
      exact ⟨op :: ops, rest, rfl, by simp [unstack, hop, hun], by simpa [hop] using hops, hrest⟩

theorem release_split (level : Nat) (output stack : List Token) :
    ∃ ops rest, stack = ops ++ rest ∧ release level output stack = (ops.reverse ++ output, rest) ∧
      ∀ op ∈ ops, op.cls ≠ .opening := by
  induction stack generalizing output with
  | nil => exact ⟨[], [], rfl, rfl, by simp⟩
  | cons op stack ih =>
    by_cases hop : op.cls = .opening ∨ precedence op.lexeme < level
    · exact ⟨[], op :: stack, rfl, by simp [release, hop], by simp⟩
    · obtain ⟨ops, rest, rfl, hre, hops⟩ := ih (op :: output)
      have hne : op.cls ≠ .opening := fun h => hop (.inl h)
      exact ⟨op :: ops, rest, rfl, by simp [release, hop, hre], by simpa [hne] using hops⟩

/-- All that a yard does with a token that it takes. -/
inductive Fed (y : Yard) (t : Token) : Yard → Prop where
  | number (ht : t.cls = .number) (hy : y.afterOperand = false) :
      Fed y t ⟨t :: y.output, y.stack, t.cls⟩
  | opening (ht : t.cls = .opening) (hy : y.afterOperand = false) :
      Fed y t ⟨y.output, t :: y.stack, t.cls⟩
  | closing (ht : t.cls = .closing) {ops rest : List Token} {o : Token}
      (hstack : y.stack = ops ++ o :: rest) (hops : ∀ op ∈ ops, op.cls ≠ .opening)
      (ho : o.cls = .opening) (hpair : closingOf o.lexeme = t.lexeme) :
      Fed y t ⟨ops.reverse ++ y.output, rest, t.cls⟩
  | negation (ht : Spells t .sub) (hy : y.atOperand) :
      Fed y t ⟨y.output, { t with lexeme := Expr.negation } :: y.stack, t.cls⟩
  | plus (ht : Spells t .add) (hy : y.atOperand) : Fed y t ⟨y.output, y.stack, t.cls⟩
  | operator (ht : t.cls = .operator) (hy : y.atOperand = false) {ops rest : List Token}
      (hstack : y.stack = ops ++ rest) (hops : ∀ op ∈ ops, op.cls ≠ .opening) :
      Fed y t ⟨ops.reverse ++ y.output, t :: rest, t.cls⟩

section Fed

variable {y y' : Yard} {t : Token}

theorem fed_of_close (ht : t.cls = .closing) (h : y.close t = .ok y') : Fed y t y' := by
  obtain ⟨ops, rest, hstack, hun, hops, hrest⟩ := unstack_split y.output y.stack
  unfold close at h
  rw [hun] at h
  cases rest with
  | nil => cases h
  | cons o rest =>
    simp only at h
    split at h
    · cases h
      exact .closing ht hstack hops (hrest o rfl) ‹_›
    · cases h

theorem fed_of_sign (ht : t.cls = .operator) (hy : y.atOperand) (h : y.sign t = .ok y') :
    Fed y t y' := by
  unfold sign at h
  split at h
  · cases h
    exact .negation ⟨ht, ‹_›⟩ hy
  · split at h
    · cases h
      exact .plus ⟨ht, ‹_›⟩ hy
    · cases h

theorem fed_of_operator (ht : t.cls = .operator) (hy : y.atOperand = false) :
    Fed y t (y.operator t) := by
  obtain ⟨ops, rest, hstack, hre, hops⟩ := release_split (precedence t.lexeme) y.output y.stack
  unfold operator
  rw [hre]
  exact .operator ht hy hstack hops

theorem fed_of_feed (h : y.feed t = .ok y') : Fed y t y' := by
  unfold feed at h
  split at h
  · split at h
    · cases h
    · cases h
      exact .number ‹_› (eq_false_of_ne_true ‹_›)
  · cases h
  · split at h
    · cases h
    · cases h
      exact .opening ‹_› (eq_false_of_ne_true ‹_›)
  · exact fed_of_close ‹_› h
  · split at h
    · exact fed_of_sign ‹_› ‹_› h
    · cases h
      exact fed_of_operator ‹_› (eq_false_of_ne_true ‹_›)
  · cases h
  · cases h

theorem atOperand_of_feed (h : y.feed t = .ok y') : y'.atOperand = startsOperand t := by
  cases fed_of_feed h with
  | number ht | opening ht | closing ht | operator ht => simp [atOperand, startsOperand, ht]
  | negation ht | plus ht => simp [atOperand, startsOperand, ht.1]

end Fed

end Yard

/-! ## Reading a phrase -/

/-- The tokens `ts`, in postfix order, were read from the yard `y` on, and an operand ends there.
Those of them that wait on the stack bind at least as strong as `level`. -/
def Reads (level : Nat) (ts : List Token) (y : Yard) (r : Except Error Yard) : Prop :=
  ∃ ops output before, r = .ok ⟨output, ops ++ y.stack, before⟩ ∧ Waiting level ops ∧
    ops.reverse ++ output = ts.reverse ++ y.output ∧ (before = .number ∨ before = .closing)

namespace Reads

variable {level : Nat} {y : Yard} {ts us : List Token} {r : Except Error Yard}

theorem mono {level' : Nat} (h : Reads level ts y r) (hle : level' ≤ level) :
    Reads level' ts y r := by
  obtain ⟨ops, output, before, hr, hw, hout, hb⟩ := h
  exact ⟨ops, output, before, hr, hw.mono hle, hout, hb⟩

theorem feed_operator {t : Token} (h : Reads level ts y r) (ht : t.cls = .operator)
    (hlevel : precedence t.lexeme ≤ level) (hy : Blocked (precedence t.lexeme) y.stack) :
    r >>= (Yard.feed · t) = .ok ⟨ts.reverse ++ y.output, t :: y.stack, .operator⟩ := by
  obtain ⟨ops, output, before, rfl, hw, hout, hb⟩ := h
  have hat : (⟨output, ops ++ y.stack, before⟩ : Yard).atOperand = false := by
    rcases hb with rfl | rfl <;> rfl
  change Yard.feed _ t = _
  rw [Yard.feed_operator hat ht, Yard.operator, Yard.release_append (hw.mono hlevel) hy, ht]
  simp only [hout]

theorem feed_closing {o c : Token} {output stack : List Token} {before : TokenClass}
    (h : Reads level ts ⟨output, o :: stack, before⟩ r) (hoc : Encloses o c) :
    r >>= (Yard.feed · c) = .ok ⟨ts.reverse ++ output, stack, .closing⟩ := by
  obtain ⟨ops, output', before', rfl, hw, hout, -⟩ := h
  obtain ⟨ho, hc, hpair⟩ := hoc
  have hclose : closingOf o.lexeme = c.lexeme := by
    rcases hpair with ⟨h, h'⟩ | ⟨h, h'⟩ <;> rw [h, h'] <;> rfl
  change Yard.feed _ c = _
  rw [Yard.feed_closing hc, Yard.close, Yard.unstack_append hw, hout, Yard.unstack, if_pos ho]
  simp only [hclose, if_true, hc]

theorem push {t : Token} {output stack : List Token} {before : TokenClass} {k : Nat}
    (ts : List Token) (h : Reads level us ⟨output, t :: stack, before⟩ r) (ht : t.cls = .operator)
    (hk : k ≤ level) (hkt : k ≤ precedence t.lexeme) (hout : output = ts.reverse ++ y.output)
    (hstack : stack = y.stack) :
    Reads k (ts ++ (us ++ [t])) y r := by
  obtain ⟨ops, output', before', rfl, hw, hout', hb⟩ := h
  subst hstack
  refine ⟨ops ++ [t], output', before', by simp, ?_, ?_, hb⟩
  · intro op hop
    rcases List.mem_append.mp hop with hop | hop
    · exact (hw.mono hk) op hop
    · rw [List.mem_singleton.mp hop]
      exact ⟨by rw [ht]; decide, hkt⟩
  · simp [hout', hout]

theorem operation {t : Token} {left right : List Token} {k n level' : Nat} (ht : t.cls = .operator)
    (hn : precedence t.lexeme = n) (hl : Reads level left y (ts.foldlM Yard.feed y))
    (hlevel : n ≤ level) (hy : Blocked n y.stack)
    (hr : Reads level' right ⟨left.reverse ++ y.output, t :: y.stack, .operator⟩
      (us.foldlM Yard.feed ⟨left.reverse ++ y.output, t :: y.stack, .operator⟩))
    (hk : k ≤ n) (hk' : k ≤ level') :
    Reads k (left ++ (right ++ [t])) y ((ts ++ t :: us).foldlM Yard.feed y) := by
  subst hn
  rw [List.foldlM_append]
  simp only [List.foldlM_cons]
  rw [← bind_assoc, hl.feed_operator ht hlevel hy]
  exact hr.push left ht hk' hk rfl rfl

theorem negated {m : Token} {operand : List Token} (hm : Spells m .sub) (hy : y.atOperand)
    (h : Reads 4 operand ⟨y.output, { m with lexeme := negation } :: y.stack, .operator⟩
      (us.foldlM Yard.feed ⟨y.output, { m with lexeme := negation } :: y.stack, .operator⟩)) :
    Reads 4 (operand ++ [{ m with lexeme := negation }]) y ((m :: us).foldlM Yard.feed y) := by
  rw [List.foldlM_cons, Yard.feed_negation hy hm]
  exact h.push [] (t := { m with lexeme := negation }) hm.1 (Nat.le_refl 4) (Nat.le_refl 4) rfl rfl

end Reads

/-- Operators in a phrase, outside of brackets, bind at least so strong. -/
def Phrase.floor : Phrase → Nat
  | .atom => 6
  | .chain => 5
  | .power | .signed => 4
  | .term => 3
  | .sum => 2

/-- The operator in front of a phrase has to bind weaker than this, or it would end there. -/
def Phrase.gate : Phrase → Nat
  | .atom => 6
  | .chain | .power | .signed => 5
  | .term => 3
  | .sum => 2

/-- Reading a phrase brings it into postorder. -/
theorem Denotes.reads {resolve : Resolver} {c : Phrase} {e : Tree} {ts : List Token}
    (h : Denotes c e ts) (hknown : Known resolve ts) {y : Yard} (hy : y.atOperand)
    (hb : Blocked c.gate y.stack) :
    Reads c.floor (substitute resolve e.postorder) y
      ((substitute resolve ts).foldlM Yard.feed y) := by
  induction h generalizing y with
  | number h =>
    rw [Tree.postorder, substitute_cons_of_ne (by rw [h]; decide), substitute_nil, List.foldlM_cons,
      Yard.feed_number hy h]
    exact ⟨[], _, _, rfl, by simp [Waiting], rfl, .inl rfl⟩
  | @name t h =>
    have hcls := resolved_cls_of_known h (hknown t List.mem_cons_self h)
    rw [Tree.postorder, substitute_cons, substitute_nil, List.foldlM_cons, Yard.feed_number hy hcls]
    exact ⟨[], _, _, rfl, by simp [Waiting], rfl, .inl rfl⟩
  | @group o c e ts h he ih =>
    -- Nothing below the opening bracket takes part until the bracket is closed.
    have hin :=
      ih hknown.tail.left (y := ⟨y.output, o :: y.stack, .opening⟩) rfl (blocked_cons (.inl h.1))
    rw [substitute_cons_of_ne (by rw [h.1]; decide), substitute_append,
      substitute_cons_of_ne (by rw [h.2.1]; decide), substitute_nil, List.foldlM_cons,
      Yard.feed_opening hy h.1]
    change Reads _ _ y (List.foldlM _ _ _)
    rw [List.foldlM_append]
    simp only [List.foldlM_cons, List.foldlM_nil, bind_pure]
    rw [hin.feed_closing h]
    exact ⟨[], _, _, rfl, by simp [Waiting], rfl, .inr rfl⟩
  | atom _ ih => exact (ih hknown hy (hb.mono (by decide))).mono (by decide)
  | power h _ _ ihl ihr =>
    have hn := h.precedence_pow
    rw [substitute_between h, substitute_operation]
    have hlt := Nat.lt_of_le_of_lt (Nat.le_of_eq hn) (show 5 < Phrase.gate .atom by decide)
    exact .operation h.1 hn (ihl hknown.left hy hb) (by decide) hb
      (ihr hknown.right.tail rfl (blocked_cons (.inr hlt))) (by decide) (by decide)
  | chain _ ih => exact (ih hknown hy hb).mono (by decide)
  | signedPower h hm _ _ ihl ihr =>
    have hn := h.precedence_pow
    rw [substitute_between h, substitute_cons_of_ne hm.ne_name, substitute_operation,
      substitute_negation]
    -- The sign waits above `^`, so the powers behind it are joined before it negates them.
    exact .operation h.1 hn (ihl hknown.left hy hb) (by decide) hb
      (.negated hm rfl (ihr hknown.right.tail.tail rfl
        (blocked_cons (.inr precedence_negation_lt))))
      (by decide) (by decide)
  | negated hm _ ih =>
    rw [substitute_cons_of_ne hm.ne_name, substitute_negation]
    exact .negated hm hy (ih hknown.tail rfl (blocked_cons (.inr precedence_negation_lt)))
  | unsigned _ ih => exact ih hknown hy hb
  | signed _ ih => exact (ih hknown hy (hb.mono (by decide))).mono (by decide)
  | product ho h _ _ ihl ihr =>
    have hn := h.precedence.trans (Operator.precedence_of_multiplicative ho)
    rw [substitute_between h, substitute_operation]
    have hlt := Nat.lt_of_le_of_lt (Nat.le_of_eq hn) (show 3 < Phrase.gate .signed by decide)
    exact .operation h.1 hn (ihl hknown.left hy hb) (by decide) hb
      (ihr hknown.right.tail rfl (blocked_cons (.inr hlt))) (by decide) (by decide)
  | term _ ih => exact (ih hknown hy (hb.mono (by decide))).mono (by decide)
  | sum ho h _ _ ihl ihr =>
    have hn := h.precedence.trans (Operator.precedence_of_additive ho)
    rw [substitute_between h, substitute_operation]
    have hlt := Nat.lt_of_le_of_lt (Nat.le_of_eq hn) (show 2 < Phrase.gate .term by decide)
    exact .operation h.1 hn (ihl hknown.left hy hb) (by decide) hb
      (ihr hknown.right.tail rfl (blocked_cons (.inr hlt))) (by decide) (by decide)

/-! ## Signs without effect -/

namespace Yard

/-- Yards that differ only in a sign without effect before. -/
structure Alike (y z : Yard) : Prop where
  output : y.output = z.output
  stack : y.stack = z.stack
  atOperand : y.atOperand = z.atOperand
  afterOperand : y.afterOperand = z.afterOperand

theorem Alike.refl (y : Yard) : Alike y y := ⟨rfl, rfl, rfl, rfl⟩

theorem Alike.feed_eq {y z : Yard} (h : Alike y z) (t : Token) : y.feed t = z.feed t := by
  obtain ⟨output, stack, before⟩ := y
  obtain ⟨_, _, before'⟩ := z
  obtain ⟨rfl, rfl, hat, hafter⟩ := h
  simp only [feed, hat, hafter, close, sign, operator]

theorem Alike.finish_eq {y z : Yard} (h : Alike y z) : y.finish = z.finish := by
  rw [finish, finish, h.output, h.stack]

theorem feed_plus {y z : Yard} {t : Token} (h : Alike y z) (hz : z.atOperand) (ht : Spells t .add) :
    ∃ y', y.feed t = .ok y' ∧ Alike y' z := by
  have hy := h.atOperand.trans hz
  refine ⟨{ y with before := t.cls }, ?_, h.output, h.stack, ?_, ?_⟩
  · simp [feed, ht.1, hy, sign, ht.2, Operator.lexeme]
  · rw [ht.1, hz]
    rfl
  · rw [ht.1, not_afterOperand hz]
    rfl

/-- A yard comes to the same end with and without the signs that have no effect. -/
theorem finish_erasePlus {y z : Yard} (h : Alike y z) (ts : List Token) :
    ts.foldlM feed y >>= finish = (erasePlus z.atOperand ts).foldlM feed z >>= finish := by
  induction ts generalizing y z with
  | nil => exact h.finish_eq
  | cons t ts ih =>
    by_cases ht : z.atOperand ∧ t.cls = .operator ∧ t.lexeme = "+"
    · obtain ⟨y', hy', hlike⟩ := feed_plus h ht.1 ht.2
      rw [erasePlus, if_pos ht, List.foldlM_cons, hy']
      have := ih hlike
      rw [ht.1] at this
      exact this
    · rw [erasePlus, if_neg ht, List.foldlM_cons, List.foldlM_cons, h.feed_eq t]
      cases hfeed : z.feed t with
      | error e => rfl
      | ok y' =>
        rw [← atOperand_of_feed hfeed]
        exact ih (Alike.refl y')

end Yard

theorem toPostfix_erasePlus (ts : List Token) : toPostfix (erasePlus true ts) = toPostfix ts :=
  (Yard.finish_erasePlus (Yard.Alike.refl .empty) ts).symm

theorem startsOperand_resolved (resolve : Resolver) (t : Token) :
    startsOperand (resolved resolve t) = startsOperand t := by
  rcases resolved_cases resolve t with ht | ⟨ht, ht'⟩
  · rw [ht]
  · simp [startsOperand, ht, ht']

theorem erasePlus_substitute (resolve : Resolver) (atOperand : Bool) (ts : List Token) :
    erasePlus atOperand (substitute resolve ts) = substitute resolve (erasePlus atOperand ts) := by
  induction ts generalizing atOperand with
  | nil => rfl
  | cons t ts ih =>
    rw [substitute_cons]
    rcases resolved_cases resolve t with ht | ⟨ht, ht'⟩
    · rw [ht, erasePlus, erasePlus]
      split
      · exact ih true
      · rw [substitute_cons, ht, ih]
    · rw [erasePlus, if_neg (by simp [ht']), erasePlus, if_neg (by simp [ht]), substitute_cons, ih,
        startsOperand_resolved]

theorem toPostfix_of_denotes {resolve : Resolver} {e : Tree} {ts : List Token}
    (h : Denotes .sum e (erasePlus true ts)) (hknown : Known resolve ts) :
    toPostfix (substitute resolve ts) = .ok (substitute resolve e.postorder) := by
  have hknown' : Known resolve (erasePlus true ts) := fun t ht => hknown t (mem_of_mem_erasePlus ht)
  have hreads := h.reads hknown' (y := .empty) rfl (by simp [Blocked, Yard.empty])
  obtain ⟨ops, output, before, hrun, hw, hout, -⟩ := hreads
  rw [← toPostfix_erasePlus, erasePlus_substitute, toPostfix, hrun]
  change Yard.finish _ = _
  rw [Yard.finish, Yard.unstack_append hw, hout]
  simp [Yard.empty, Yard.unstack]

end Flowchart.Expr
