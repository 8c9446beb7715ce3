import Flowchart.Proofs.Expr.Meaning
import Flowchart.Proofs.Token.Lexemes

/-!
# Which texts have a value

A yard takes some sequences of tokens that are no expressions, such as `()` or `(1 +)`:
it does not see that an operand is missing in front of a closing bracket or at the end.
The stack of values does, because then its numbers do not suffice for its operators.
Whatever passes both tests is an expression.
-/

namespace Flowchart.Expr

/-! ## The tokens of a text -/

/-- Operators and opening brackets look as they do in texts. -/
def Proper (cls : TokenClass) (lexeme : String) : Prop :=
  (cls = .operator → ∃ o : Operator, lexeme = o.lexeme) ∧
    (cls = .opening → lexeme = "(" ∨ lexeme = "[")

theorem proper_lexemeAt {c : Char} {cs : List Char} {cls : TokenClass} {tail : List Char}
    (h : Token.lexemeAt? c cs = some (cls, tail)) : Proper cls (String.ofList (c :: tail)) := by
  unfold Token.lexemeAt? at h
  split at h
  · cases h
    exact ⟨nofun, nofun⟩
  split at h
  · cases h
    exact ⟨nofun, nofun⟩
  split at h
  · rename_i hc
    cases h
    refine ⟨nofun, fun _ => ?_⟩
    rcases hc with rfl | rfl
    · exact .inl rfl
    · exact .inr rfl
  split at h
  · cases h
    exact ⟨nofun, nofun⟩
  split at h
  · rename_i hc
    refine ⟨fun _ => ?_, ?_⟩
    · split at h
      · cases h
        exact ⟨.intDiv, rfl⟩
      · cases h
        simp only [Token.isSingleOperator, Bool.or_eq_true, beq_iff_eq] at hc
        rcases hc with ((((rfl | rfl) | rfl) | rfl) | rfl) | rfl
        · exact ⟨.add, rfl⟩
        · exact ⟨.sub, rfl⟩
        · exact ⟨.mul, rfl⟩
        · exact ⟨.div, rfl⟩
        · exact ⟨.mod, rfl⟩
        · exact ⟨.pow, rfl⟩
    · split at h <;> cases h <;> exact nofun
  · cases h

theorem proper_tokenize {text : String} {ts : List Token} (h : Token.tokenize text = .ok ts) :
    ∀ t ∈ ts, Proper t.cls t.lexeme :=
  Token.forall_tokenize (fun _ _ _ _ => proper_lexemeAt) h

/-! ## Values on the stack -/

/-- By how much a token makes the stack of values grow. -/
def weight (t : Token) : Int := if t.cls = .number then 1 else if t.lexeme = negation then 0 else -1

def weights : List Token → Int
  | [] => 0
  | t :: ts => weight t + weights ts

theorem weights_append (ts us : List Token) : weights (ts ++ us) = weights ts + weights us := by
  induction ts with
  | nil => simp [weights]
  | cons t ts ih =>
    rw [List.cons_append, weights, weights, ih]
    omega

theorem weights_reverse (ts : List Token) : weights ts.reverse = weights ts := by
  induction ts with
  | nil => rfl
  | cons t ts ih =>
    rw [List.reverse_cons, weights_append, ih, weights, weights, weights]
    omega

theorem length_evalToken {t : Token} {stack stack' : List Float}
    (h : evalToken stack t = .ok stack') :
    (stack'.length : Int) = stack.length + weight t := by
  unfold evalToken at h
  unfold weight
  split at h
  · cases h
    simp [*]
  · rename_i hcls
    rw [if_neg hcls]
    split at h
    · rename_i hneg
      rw [if_pos hneg]
      split at h <;> cases h
      simp
    · rename_i hneg
      rw [if_neg hneg]
      split at h
      · obtain ⟨v, -, rfl⟩ := map_eq_ok h
        simp only [List.length_cons]
        omega
      · cases h

theorem length_foldlM_evalToken {ts : List Token} {stack stack' : List Float}
    (h : ts.foldlM evalToken stack = .ok stack') :
    (stack'.length : Int) = stack.length + weights ts := by
  induction ts generalizing stack with
  | nil =>
    cases h
    simp [weights]
  | cons t ts ih =>
    obtain ⟨next, hstep, hrest⟩ := foldlM_cons_eq_ok h
    rw [ih hrest, length_evalToken hstep, weights]
    omega

theorem weights_of_evalPostfix {ts : List Token} {v : Float} (h : evalPostfix ts = .ok v) :
    weights ts = 1 := by
  obtain ⟨stack, hrun, hvalue⟩ := bind_eq_ok h
  have hlength := length_foldlM_evalToken hrun
  split at hvalue
  · simpa using hlength.symm
  · cases hvalue

/-! ## Missing operands -/

namespace Yard

/-- By how much the tokens read so far make the stack of values grow. -/
def balance (y : Yard) : Int :=
  weights y.output + weights (y.stack.filter fun op => op.cls ≠ .opening)

/-- How many operands were missing so far. -/
def missing (y : Yard) : Int := (if y.atOperand then 0 else 1) - y.balance

/-- An operand starts or has ended. -/
def Ready (y : Yard) : Prop := y.afterOperand = !y.atOperand

theorem weights_split {ops : List Token} (h : ∀ op ∈ ops, op.cls ≠ .opening) (stack : List Token) :
    weights ((ops ++ stack).filter fun op => op.cls ≠ .opening) =
      weights ops + weights (stack.filter fun op => op.cls ≠ .opening) := by
  rw [List.filter_append, List.filter_eq_self.mpr (by simpa using h), weights_append]

section Fed

variable {y y' : Yard} {t : Token}

theorem Fed.ready (h : Fed y t y') : y'.Ready := by
  cases h with
  | number ht | opening ht | closing ht | operator ht => simp [Ready, afterOperand, atOperand, ht]
  | negation ht | plus ht => simp [Ready, afterOperand, atOperand, ht.1]

theorem Ready.atOperand (hy : y.Ready) (h : y.afterOperand = false) : y.atOperand := by
  rw [Ready, h] at hy
  simpa using hy.symm

theorem missing_of_atOperand (h : y.atOperand) : y.missing = -y.balance := by
  rw [missing, if_pos h]
  omega

theorem missing_of_not_atOperand (h : y.atOperand = false) : y.missing = 1 - y.balance := by
  simp [missing, h]

theorem Fed.missing_eq (h : Fed y t y') (hy : y.Ready) (ht : Proper t.cls t.lexeme) :
    y'.missing = y.missing + if t.cls = .closing ∧ y.atOperand then 1 else 0 := by
  cases h with
  | number hcls hafter =>
    rw [missing_of_not_atOperand (by simp [atOperand, hcls]),
      missing_of_atOperand (hy.atOperand hafter)]
    simp only [balance, weights, weight, hcls, if_true, reduceCtorEq, false_and, if_false]
    omega
  | opening hcls hafter =>
    rw [missing_of_atOperand (by simp [atOperand, hcls]),
      missing_of_atOperand (hy.atOperand hafter)]
    simp [balance, hcls]
  | @closing hcls ops rest o hstack hops ho hpair =>
    have hbalance : balance ⟨ops.reverse ++ y.output, rest, t.cls⟩ = y.balance := by
      rw [balance, balance, hstack, weights_split hops, List.filter_cons_of_neg (by simp [ho])]
      simp only [weights_append, weights_reverse]
      omega
    rw [missing_of_not_atOperand (by simp [atOperand, hcls]), hbalance]
    cases hat : y.atOperand with
    | true =>
      rw [missing_of_atOperand hat, if_pos ⟨hcls, rfl⟩]
      omega
    | false =>
      rw [missing_of_not_atOperand hat, if_neg (by simp)]
      omega
  | negation hneg hat =>
    rw [missing_of_atOperand (by simp [atOperand, hneg.1]), missing_of_atOperand hat]
    simp [balance, weights, weight, hneg.1]
  | plus hplus hat =>
    rw [missing_of_atOperand (by simp [atOperand, hplus.1]), missing_of_atOperand hat]
    simp [balance, hplus.1]
  | @operator hcls hat ops rest hstack hops =>
    obtain ⟨o, ho⟩ := ht.1 hcls
    have hweight : weight t = -1 := by simp [weight, hcls, ho, o.lexeme_ne_negation]
    have hbalance : balance ⟨ops.reverse ++ y.output, t :: rest, t.cls⟩ = y.balance - 1 := by
      rw [balance, balance, hstack, weights_split hops, List.filter_cons_of_pos (by simp [hcls])]
      simp only [weights_append, weights_reverse, weights, hweight]
      omega
    rw [missing_of_atOperand (by simp [atOperand, hcls]), missing_of_not_atOperand hat, hbalance,
      if_neg (by simp [hat])]
    omega

end Fed

theorem missing_le {ts : List Token} {y y' : Yard} (h : ts.foldlM feed y = .ok y') (hy : y.Ready)
    (hts : ∀ t ∈ ts, Proper t.cls t.lexeme) : y.missing ≤ y'.missing := by
  induction ts generalizing y with
  | nil =>
    cases h
    exact Int.le_refl _
  | cons t ts ih =>
    obtain ⟨y₁, hfeed, hrest⟩ := foldlM_cons_eq_ok h
    have hfed := fed_of_feed hfeed
    have hle := ih hrest hfed.ready fun u hu => hts u (List.mem_cons_of_mem t hu)
    have heq := hfed.missing_eq hy (hts t List.mem_cons_self)
    split at heq <;> omega

end Yard

/-! ## The tokens read so far -/

/-- An operand makes these tokens an expression. -/
def Pending (ts : List Token) : Prop := ∀ us, Operand us → ∃ e, Denotes .sum e (ts ++ us)

theorem pending_nil : Pending [] := by
  intro us hus
  obtain ⟨e, he⟩ := hus.signed
  exact ⟨e, .term (.signed he)⟩

theorem Pending.negated {ts : List Token} {m : Token} (h : Pending ts) (hm : Spells m .sub) :
    Pending (ts ++ [m]) := by
  intro us hus
  rw [List.append_assoc]
  exact h _ (.negated hm hus)

theorem Denotes.pending {ts : List Token} {e : Tree} {t : Token} {o : Operator}
    (h : Denotes .sum e ts) (ht : Spells t o) : Pending (ts ++ [t]) := by
  intro us hus
  rw [List.append_assoc]
  exact h.append ht hus

/-- All tokens `read`, of which the last ones, `inner`, stand in the innermost of the open
`brackets`; in front of each bracket an operand is pending. -/
inductive Nested : (brackets inner read : List Token) → Prop where
  | top (ts : List Token) : Nested [] ts ts
  | inside {brackets outer read : List Token} {o : Token} (h : Nested brackets outer read)
      (hp : Pending outer) (ho : Proper o.cls o.lexeme) (inner : List Token) :
      Nested (o :: brackets) inner (read ++ o :: inner)

theorem Nested.append {brackets inner read : List Token} (h : Nested brackets inner read)
    (ts : List Token) :
    Nested brackets (inner ++ ts) (read ++ ts) := by
  cases h with
  | top => exact .top _
  | inside h hp ho =>
    rw [List.append_assoc]
    exact .inside h hp ho _

/-- The tokens read so far are an expression, or go on with an operand, in each open bracket. -/
def Understood (y : Yard) (read : List Token) : Prop :=
  ∃ inner, Nested (y.stack.filter fun op => op.cls = .opening) inner read ∧
    if y.atOperand then Pending inner else ∃ e, Denotes .sum e inner

/-- What is left of a token when signs without effect are taken out. -/
def kept (atOperand : Bool) (t : Token) : List Token :=
  if atOperand ∧ t.cls = .operator ∧ t.lexeme = "+" then [] else [t]

theorem kept_of_ne {t : Token} (h : t.cls ≠ .operator) (atOperand : Bool) :
    kept atOperand t = [t] :=
  if_neg fun hplus => h hplus.2.1

theorem erasePlus_cons (atOperand : Bool) (t : Token) (ts : List Token) :
    erasePlus atOperand (t :: ts) = kept atOperand t ++ erasePlus (startsOperand t) ts := by
  rw [erasePlus, kept]
  split
  · rename_i h
    simp [startsOperand, h.2.1]
  · rfl

namespace Understood

variable {y : Yard} {read : List Token} {t : Token}

theorem pending (h : Understood y read) (hy : y.atOperand) :
    ∃ inner, Nested (y.stack.filter fun op => op.cls = .opening) inner read ∧ Pending inner := by
  obtain ⟨inner, hn, hp⟩ := h
  rw [if_pos hy] at hp
  exact ⟨inner, hn, hp⟩

theorem denotes (h : Understood y read) (hy : y.atOperand = false) :
    ∃ inner, Nested (y.stack.filter fun op => op.cls = .opening) inner read ∧
      ∃ e, Denotes .sum e inner := by
  obtain ⟨inner, hn, hd⟩ := h
  rw [hy] at hd
  exact ⟨inner, hn, hd⟩

theorem atom {e : Tree} (h : Understood y read) (hy : y.atOperand) (ht : Denotes .atom e [t])
    (output : List Token) :
    Understood ⟨output, y.stack, .number⟩ (read ++ [t]) := by
  obtain ⟨inner, hn, hp⟩ := h.pending hy
  exact ⟨inner ++ [t], hn.append [t], hp [t] (.atom ht)⟩

theorem opening (h : Understood y read) (hy : y.atOperand) (ht : t.cls = .opening)
    (hproper : Proper t.cls t.lexeme) :
    Understood ⟨y.output, t :: y.stack, .opening⟩ (read ++ [t]) := by
  obtain ⟨inner, hn, hp⟩ := h.pending hy
  refine ⟨[], ?_, pending_nil⟩
  rw [List.filter_cons_of_pos (by simp [ht])]
  exact .inside hn hp hproper []

theorem closing {ops rest output : List Token} {o : Token} (h : Understood y read)
    (hy : y.atOperand = false) (ht : t.cls = .closing) (hstack : y.stack = ops ++ o :: rest)
    (hops : ∀ op ∈ ops, op.cls ≠ .opening) (ho : o.cls = .opening)
    (hpair : closingOf o.lexeme = t.lexeme) :
    Understood ⟨output, rest, .closing⟩ (read ++ [t]) := by
  obtain ⟨inner, hn, e, he⟩ := h.denotes hy
  rw [hstack, List.filter_append, List.filter_eq_nil_iff.mpr (by simpa using hops), List.nil_append,
    List.filter_cons_of_pos (by simp [ho])] at hn
  cases hn with
  | @inside _ outer read _ hn hp hproper =>
    have henc : Encloses o t := by
      refine ⟨ho, ht, ?_⟩
      rcases hproper.2 ho with hlex | hlex
      · exact .inl ⟨hlex, by rw [← hpair, hlex]; rfl⟩
      · exact .inr ⟨hlex, by rw [← hpair, hlex]; rfl⟩
    -- What stood in the brackets is an atom, for which the tokens before the brackets waited.
    rw [List.append_assoc]
    exact ⟨outer ++ (o :: (inner ++ [t])), hn.append _, hp _ (.atom (.group henc he))⟩

theorem negated (h : Understood y read) (hy : y.atOperand) (ht : Spells t .sub) :
    Understood ⟨y.output, { t with lexeme := negation } :: y.stack, t.cls⟩ (read ++ [t]) := by
  obtain ⟨inner, hn, hp⟩ := h.pending hy
  refine ⟨inner ++ [t], ?_, ?_⟩
  · rw [List.filter_cons_of_neg (by simp [ht.1])]
    exact hn.append [t]
  · rw [if_pos (by simp [Yard.atOperand, ht.1])]
    exact hp.negated ht

theorem operator {ops rest output : List Token} (h : Understood y read) (hy : y.atOperand = false)
    (ht : t.cls = .operator) (hproper : Proper t.cls t.lexeme) (hstack : y.stack = ops ++ rest)
    (hops : ∀ op ∈ ops, op.cls ≠ .opening) :
    Understood ⟨output, t :: rest, .operator⟩ (read ++ [t]) := by
  obtain ⟨inner, hn, e, he⟩ := h.denotes hy
  obtain ⟨o, ho⟩ := hproper.1 ht
  refine ⟨inner ++ [t], ?_, he.pending ⟨ht, ho⟩⟩
  rw [hstack, List.filter_append, List.filter_eq_nil_iff.mpr (by simpa using hops),
    List.nil_append] at hn
  rw [List.filter_cons_of_neg (by simp [ht])]
  exact hn.append [t]

/-- Every token that a yard takes is understood, unless an operand is missing before it. -/
theorem fed {resolve : Resolver} {y' : Yard} (h : Understood y read) (hy : y.Ready)
    (ht : Proper t.cls t.lexeme) (hfed : Yard.Fed y (resolved resolve t) y')
    (hthere : ¬((resolved resolve t).cls = .closing ∧ y.atOperand)) :
    Understood y' (read ++ kept y.atOperand t) := by
  rcases resolved_cases resolve t with heq | ⟨hname, hnumber⟩
  · rw [heq] at hfed hthere
    cases hfed with
    | number hcls hafter =>
      rw [kept_of_ne (by simp [hcls]), hcls]
      exact h.atom (hy.atOperand hafter) (.number hcls) _
    | opening hcls hafter =>
      rw [kept_of_ne (by simp [hcls]), hcls]
      exact h.opening (hy.atOperand hafter) hcls ht
    | closing hcls hstack hops ho hpair =>
      have hat : y.atOperand = false := by simpa [hcls] using hthere
      rw [kept_of_ne (by simp [hcls]), hcls]
      exact h.closing hat hcls hstack hops ho hpair
    | negation hneg hat =>
      rw [kept, if_neg (by simp [hneg.2, Operator.lexeme])]
      exact h.negated hat hneg
    | plus hplus hat =>
      rw [kept, if_pos ⟨hat, hplus⟩, List.append_nil, hplus.1]
      obtain ⟨inner, hn, hp⟩ := h.pending hat
      exact ⟨inner, hn, hp⟩
    | operator hcls hat hstack hops =>
      rw [kept, if_neg (by simp [hat]), hcls]
      exact h.operator hat hcls ht hstack hops
  · cases hfed with
    | number _ hafter =>
      rw [kept_of_ne (by simp [hname]), hnumber]
      exact h.atom (hy.atOperand hafter) (.name hname) _
    | opening hcls | closing hcls | operator hcls =>
      rw [hnumber] at hcls
      cases hcls
    | negation hop | plus hop =>
      have hcls := hop.1
      rw [hnumber] at hcls
      cases hcls

end Understood

/-! ## Whole texts -/

section Run

variable {resolve : Resolver} {ts : List Token}

theorem proper_resolved {t : Token} (h : Proper t.cls t.lexeme) :
    Proper (resolved resolve t).cls (resolved resolve t).lexeme := by
  rcases resolved_cases resolve t with heq | ⟨-, hnumber⟩
  · rwa [heq]
  · rw [hnumber]
    exact ⟨nofun, nofun⟩

theorem proper_substitute (h : ∀ t ∈ ts, Proper t.cls t.lexeme) :
    ∀ t ∈ substitute resolve ts, Proper t.cls t.lexeme := by
  intro t ht
  obtain ⟨u, hu, rfl⟩ := List.mem_map.mp ht
  exact proper_resolved (h u hu)

theorem Yard.Fed.known {y y' : Yard} {t : Token} (h : Yard.Fed y (resolved resolve t) y')
    (ht : t.cls = .name) :
    (resolve t.lexeme).isSome := by
  cases hv : resolve t.lexeme with
  | some v => rfl
  | none =>
    have hres : resolved resolve t = t := by simp [resolved, ht, hv]
    rw [hres] at h
    cases h with
    | number hcls | opening hcls | closing hcls | operator hcls =>
      rw [ht] at hcls
      cases hcls
    | negation hop | plus hop => exact absurd ht hop.ne_name

theorem Understood.run {y y' : Yard} {read : List Token}
    (hrun : (substitute resolve ts).foldlM Yard.feed y = .ok y') (h : Understood y read)
    (hy : y.Ready) (hts : ∀ t ∈ ts, Proper t.cls t.lexeme) (hle : y'.missing ≤ y.missing) :
    Understood y' (read ++ erasePlus y.atOperand ts) ∧ Known resolve ts := by
  induction ts generalizing y read with
  | nil =>
    cases hrun
    rw [erasePlus, List.append_nil]
    exact ⟨h, by simp [Known]⟩
  | cons t ts ih =>
    rw [substitute_cons] at hrun
    obtain ⟨y₁, hfeed, hrest⟩ := foldlM_cons_eq_ok hrun
    have hfed := Yard.fed_of_feed hfeed
    have hproper := hts t List.mem_cons_self
    have hts' := fun u hu => hts u (List.mem_cons_of_mem t hu)
    have hmissing := hfed.missing_eq hy (proper_resolved hproper)
    have hmono := Yard.missing_le hrest hfed.ready (proper_substitute hts')
    -- No later token makes up for an operand that is missing, so none is missing here.
    have hthere : ¬((resolved resolve t).cls = .closing ∧ y.atOperand) := by
      intro hhole
      rw [if_pos hhole] at hmissing
      omega
    rw [if_neg hthere] at hmissing
    obtain ⟨hund, hknown⟩ := ih hrest (h.fed hy hproper hfed hthere) hfed.ready hts' (by omega)
    rw [Yard.atOperand_of_feed hfeed, startsOperand_resolved] at hund
    rw [erasePlus_cons, ← List.append_assoc]
    refine ⟨hund, fun u hu => ?_⟩
    rcases List.mem_cons.mp hu with rfl | hu
    · exact hfed.known
    · exact hknown u hu

theorem understood_empty : Understood .empty [] := ⟨[], .top [], pending_nil⟩

theorem finish_split {y : Yard} {out : List Token} (h : y.finish = .ok out) :
    weights out = y.balance ∧ (y.stack.filter fun op => op.cls = .opening) = [] := by
  obtain ⟨ops, rest, hstack, hun, hops, -⟩ := Yard.unstack_split y.output y.stack
  unfold Yard.finish at h
  rw [hun] at h
  cases rest with
  | cons => cases h
  | nil =>
    cases h
    rw [Yard.balance, hstack, Yard.weights_split hops, List.append_nil]
    refine ⟨?_, List.filter_eq_nil_iff.mpr (by simpa using hops)⟩
    simp only [weights_reverse, weights_append, List.filter_nil, weights]
    omega

/-- What has a value is an expression, and all its names are known. -/
theorem isExpression_of_value {out : List Token} {v : Float} (hts : ∀ t ∈ ts, Proper t.cls t.lexeme)
    (hpost : toPostfix (substitute resolve ts) = .ok out) (hvalue : evalPostfix out = .ok v) :
    IsExpression ts ∧ Known resolve ts := by
  obtain ⟨y, hrun, hfinish⟩ := bind_eq_ok hpost
  obtain ⟨hweights, hbrackets⟩ := finish_split hfinish
  rw [weights_of_evalPostfix hvalue] at hweights
  have hstart : Yard.empty.missing = 0 := rfl
  have hle := Yard.missing_le hrun rfl (proper_substitute hts)
  -- One value is left, so no operand was missing, neither inside nor at the end.
  have hat : y.atOperand = false := by
    cases hat : y.atOperand with
    | false => rfl
    | true =>
      rw [Yard.missing_of_atOperand hat] at hle
      omega
  rw [Yard.missing_of_not_atOperand hat] at hle
  obtain ⟨hund, hknown⟩ :=
    understood_empty.run hrun rfl hts (by rw [Yard.missing_of_not_atOperand hat]; omega)
  obtain ⟨inner, hnested, e, he⟩ := hund.denotes hat
  rw [hbrackets] at hnested
  cases hnested
  exact ⟨⟨e, he⟩, hknown⟩

end Run

theorem outcome_error {resolve : Resolver} {e : Tree} {error : Error}
    (h : e.outcome resolve = .error error) :
    error = .invalidResult ∨ ∃ o : Operator, o.zeroError? = some error := by
  unfold Tree.outcome at h
  split at h
  · rename_i hfailure
    cases h
    obtain ⟨operation, -, hop⟩ := List.exists_of_findSome?_eq_some hfailure
    unfold Operator.failure? at hop
    split at hop
    · exact .inr ⟨_, hop⟩
    · cases hop
  · split at h <;> cases h
    exact .inl rfl

/-- Only expressions whose names are all known have a value. They are brought into postfix order,
and their operands and operators are then all found. -/
theorem accepts_expressions {text : String} {ts : List Token} (h : Token.tokenize text = .ok ts)
    (resolve : Resolver) :
    (¬(IsExpression ts ∧ Known resolve ts) → ∃ error, eval resolve text = .error error) ∧
      (IsExpression ts ∧ Known resolve ts → ∃ out, toPostfix (substitute resolve ts) = .ok out ∧
        ∀ error, evalPostfix out = .error error → error ≠ .malformedExpression ∧
          ∀ lexeme, error ≠ .operandMissingFor lexeme ∧ error ≠ .unknownOperator lexeme) := by
  constructor
  · intro hnot
    cases hvalue : eval resolve text with
    | error e => exact ⟨e, rfl⟩
    | ok v =>
      unfold eval at hvalue
      split at hvalue
      · cases hvalue
      · obtain ⟨out, hpost, hvalue⟩ := bind_eq_ok hvalue
        obtain ⟨us, hus, hpost⟩ := bind_eq_ok hpost
        rw [h] at hus
        cases hus
        exact absurd (isExpression_of_value (proper_tokenize h) hpost hvalue) hnot
  · rintro ⟨⟨e, he⟩, hknown⟩
    refine ⟨_, toPostfix_of_denotes he hknown, fun error herror => ?_⟩
    rw [evalPostfix_of_denotes he hknown] at herror
    rcases outcome_error herror with rfl | ⟨o, ho⟩
    · exact ⟨nofun, fun _ => ⟨nofun, nofun⟩⟩
    · cases o <;> cases ho <;> exact ⟨nofun, fun _ => ⟨nofun, nofun⟩⟩

/-- The tokens of `+x^-[y]`. -/
def powerInBrackets : List Token :=
  [⟨.operator, "+", 0, 0⟩, ⟨.name, "x", 0, 1⟩, ⟨.operator, "^", 0, 2⟩, ⟨.operator, "-", 0, 3⟩,
    ⟨.opening, "[", 0, 4⟩,
    ⟨.name, "y", 0, 5⟩, ⟨.closing, "]", 0, 6⟩]

theorem isExpression_powerInBrackets : IsExpression powerInBrackets := by
  have hx : Denotes .chain _ [⟨.name, "x", 0, 1⟩] := .atom (.name rfl)
  have hy : Denotes .sum _ [⟨.name, "y", 0, 5⟩] :=
    .term (.signed (.unsigned (.chain (.atom (.name rfl)))))
  have hgroup : Denotes .signed _ [⟨.opening, "[", 0, 4⟩, ⟨.name, "y", 0, 5⟩,
      ⟨.closing, "]", 0, 6⟩] :=
    .unsigned (.chain (.atom (.group ⟨rfl, rfl, .inr ⟨rfl, rfl⟩⟩ hy)))
  have hpower := Denotes.signedPower (t := ⟨.operator, "^", 0, 2⟩) (m := ⟨.operator, "-", 0, 3⟩)
    ⟨rfl, rfl⟩ ⟨rfl, rfl⟩ hx hgroup
  exact ⟨_, .term (.signed (.unsigned hpower))⟩

theorem accepts_expressions_powerInBrackets :
    Token.tokenize "+x^-[y]" = .ok powerInBrackets ∧ IsExpression powerInBrackets ∧
      Known (fun _ => some 1) powerInBrackets ∧
      ∃ out, toPostfix (substitute (fun _ => some 1) powerInBrackets) = .ok out ∧
        ∀ error, evalPostfix out = .error error → error ≠ .malformedExpression ∧
          ∀ lexeme, error ≠ .operandMissingFor lexeme ∧ error ≠ .unknownOperator lexeme :=
  have hknown : Known (fun _ => some 1) powerInBrackets := fun _ _ _ => rfl
  ⟨rfl, isExpression_powerInBrackets, hknown,
    (accepts_expressions (show Token.tokenize "+x^-[y]" = .ok powerInBrackets from rfl) _).2
      ⟨isExpression_powerInBrackets, hknown⟩⟩

end Flowchart.Expr
