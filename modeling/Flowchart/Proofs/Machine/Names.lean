import Flowchart.Proofs.Machine.Finite
import Flowchart.Proofs.Token.Lexemes
import Mathlib.Data.List.DropRight

/-!
# Reading variables back

Names of variables are trimmed texts without further restrictions. A simple operand may be any such
name, but an expression mentions identifiers only: it reads the variables whose names are
identifiers and is blind to all others. -/

namespace Flowchart

/-! ## Trimmed texts -/

namespace Text

theorem trimChars_trimChars (cs : List Char) : trimChars (trimChars cs) = trimChars cs := by
  have hright : ∀ l : List Char, trimRightChars isBlank l = l.rdropWhile isBlank := fun _ => rfl
  have hkept := List.rdropWhile_prefix isBlank (cs.dropWhile isBlank)
  unfold trimChars
  simp only [hright]
  -- What is left begins as the text did once the blanks in front were dropped.
  have hfront : ((cs.dropWhile isBlank).rdropWhile isBlank).dropWhile isBlank =
      (cs.dropWhile isBlank).rdropWhile isBlank := by
    rw [List.dropWhile_eq_self_iff]
    intro hpos
    rw [hkept.getElem hpos]
    exact List.dropWhile_get_zero_not isBlank cs (Nat.lt_of_lt_of_le hpos hkept.length_le)
  rw [hfront, List.rdropWhile_idempotent]

theorem trim_trim (s : String) : trim (trim s) = trim s := by
  rw [trim, trim, String.toList_ofList, trimChars_trimChars]

end Text

/-- A name that a variable can have. -/
def VariableName (name : String) : Prop := name ≠ "" ∧ Text.trim name = name

theorem variableName_of_nameList {names name : String} (h : name ∈ nameList names) :
    VariableName name := by
  obtain ⟨hmem, hne⟩ := List.mem_filter.mp h
  obtain ⟨part, -, rfl⟩ := List.mem_map.mp hmem
  exact ⟨by simpa using hne, Text.trim_trim part⟩

theorem variableName_of_parse {statement : String} {a : Expr.Assignment}
    (h : Expr.Assignment.parse statement = .ok a) :
    VariableName a.name := by
  unfold Expr.Assignment.parse at h
  split at h
  · simp only at h
    split_ifs at h with hne
    cases h
    exact ⟨hne, Text.trim_trim _⟩
  · cases h

/-! ## Evaluation -/

namespace Expr

variable {resolve resolve' : Resolver} {name : String} {v : Float}

theorem simple_variable (hname : VariableName name) (h : resolve name = some v) :
    simple resolve name = .ok v := by
  unfold simple
  simp only [hname.2, if_neg hname.1, h]

theorem eval_identifier (hname : Token.isIdentifier name) (h : resolve name = some v)
    (hv : Number.isFinite v) :
    eval resolve name = .ok v := by
  have hblank : ¬ Text.isBlankText name := by
    obtain ⟨c, cs, rfl, hc, -⟩ := (Token.isIdentifier_iff name).mp hname
    simp [Text.isBlankText, Token.isBlank_of_isNameStart hc]
  have hsubstitute : substitute resolve [⟨.name, name, 0, 0⟩] = [⟨.number, name, v, 0⟩] := by
    simp [substitute, h]
  have hpostfix : postfixOf resolve name = .ok [⟨.number, name, v, 0⟩] := by
    rw [postfixOf, Token.tokenize_identifier hname]
    exact congrArg toPostfix hsubstitute
  rw [eval, if_neg hblank, hpostfix]
  exact if_pos hv

theorem eval_congr (h : ∀ name, Token.isIdentifier name → resolve name = resolve' name)
    (text : String) :
    eval resolve text = eval resolve' text := by
  have hpostfix : postfixOf resolve text = postfixOf resolve' text := by
    unfold postfixOf
    cases hts : Token.tokenize text with
    | error e => rfl
    | ok ts =>
      refine congrArg toPostfix (List.map_congr_left fun t ht => ?_)
      by_cases hname : t.cls = .name
      · rw [h t.lexeme (Token.isIdentifier_of_tokenize hts t ht hname)]
      · simp only [if_neg hname]
  rw [eval, eval, hpostfix]

end Expr

/-! ## Runs -/

namespace Machine

variable {p : Program} {start : Handle} {failures : List Failure} {s : State}

theorem contains_setVariable {f : Scope.Frame} {name other : String} {v : Float}
    (h : (f.setVariable name v).vars.contains other) : name = other ∨ f.vars.contains other := by
  simp only [Scope.Frame.setVariable, Table.contains, Table.get?_put] at h
  split_ifs at h with hname
  · exact Or.inl hname
  · exact Or.inr h

theorem variableName_of_reaches (h : Reaches p (.initial start failures) s) :
    ∀ f ∈ s.scopes.frames, ∀ name, f.vars.contains name → VariableName name := by
  refine h.frames (P := fun f => ∀ name, f.vars.contains name → VariableName name) ?_ ?_
  · intro name i other hother
    cases hother
  · intro m o f f' hw hwrote _ hf other hother
    cases hwrote with
    | declared name =>
      rcases contains_setVariable hother with rfl | hother
      · cases hw with
        | declared names _ hmem => exact variableName_of_nameList hmem
      · exact hf other hother
    | assigned name v =>
      rcases contains_setVariable hother with rfl | hother
      · cases hw with
        | initialized statement a _ ha _ => exact variableName_of_parse ha
      · exact hf other hother
    | updated name v _ hbound =>
      rcases contains_setVariable hother with rfl | hother
      · exact hf name hbound
      · exact hf other hother
    | arrayDeclared => exact hf other hother
    | elementSet => exact hf other hother

theorem innermost_of_contains {m : Scopes} {f : Scope.Frame} {name : String} (hf : f ∈ m.frames)
    (hname : f.vars.contains name) :
    ∃ v inner, Scopes.Innermost Scope.Frame.vars m.frames name v inner ∧
      m.value? name = some v := by
  have hsome : (m.lookup name).isSome := by
    rw [Scopes.lookup_eq, List.findSome?_isSome_iff]
    exact ⟨f, hf, by simpa [Table.contains] using hname⟩
  obtain ⟨⟨v, i⟩, hlookup⟩ := Option.isSome_iff_exists.mp hsome
  obtain ⟨inner, hinner, -⟩ := (Scopes.lookup_eq_some_iff m name v i).mp hlookup
  exact ⟨v, inner, hinner, by rw [Scopes.value?, hlookup]; rfl⟩

/-- The resolver that does not know a name. -/
def without (name : String) (resolve : Expr.Resolver) : Expr.Resolver :=
  fun other => if other = name then none else resolve other

/-- A variable that is bound anywhere is read back by a simple operand, and by an expression too if
its name is an identifier. Variables of other names do not exist for expressions. -/
theorem variables_are_read_back (p : Program) (start : Handle) (failures : List Failure) (s : State)
    (h : Reaches p (.initial start failures) s) (f : Scope.Frame) (hf : f ∈ s.scopes.frames)
    (name : String) (hname : f.vars.contains name) :
    ∃ v inner, Scopes.Innermost Scope.Frame.vars s.scopes.frames name v inner ∧
      Expr.simple (resolver s.scopes) name = .ok v ∧
      (Token.isIdentifier name → Expr.eval (resolver s.scopes) name = .ok v) ∧
      (¬ Token.isIdentifier name →
        ∀ text, Expr.eval (resolver s.scopes) text =
          Expr.eval (without name (resolver s.scopes)) text) := by
  obtain ⟨v, inner, hinner, hvalue⟩ := innermost_of_contains hf hname
  have hvariable := variableName_of_reaches h f hf name hname
  have hfinite := (finite_of_reaches h).value? hvalue
  refine ⟨v, inner, hinner, Expr.simple_variable hvariable hvalue, ?_, ?_⟩
  · intro hidentifier
    exact Expr.eval_identifier hidentifier hvalue hfinite
  · intro hother text
    refine Expr.eval_congr (fun other hidentifier => ?_) text
    have hne : other ≠ name := by
      rintro rfl
      exact hother hidentifier
    rw [without, if_neg hne]

/-- Variables of three names are declared, and a loop brings a variable of the first name of its
own. -/
def freelyNamed : List Record :=
  [{ id := "start", type := "start", next := "names" },
   { id := "names", type := "variable", next := "loop",
     data := { variableName := "i, total cost, 5" } },
   { id := "loop", type := "for",
     data := { initialization := "i = 2", condition := "i < 3", iteration := "i = i + 1" } }]

theorem variables_are_read_back_shadowed :
    ∃ p s f, Loads freelyNamed p (.initial 0 []) ∧ Reaches p (.initial 0 []) s ∧
      f ∈ s.scopes.frames ∧
      f.vars.get? "i" = some 0 ∧ Expr.simple (resolver s.scopes) "i" = .ok 2 ∧
      Expr.eval (resolver s.scopes) "i" = .ok 2 := by
  obtain ⟨p, s₀, s, loop, global, hload, hs, rfl, hframes, hzero, htwo⟩ : ∃ p s₀ s loop global,
      Loads freelyNamed p s₀ ∧ Reaches p s₀ s ∧ s₀ = .initial 0 [] ∧
      s.scopes.frames = [loop, global] ∧ global.vars.get? "i" = some 0 ∧
      Expr.simple (resolver s.scopes) "i" = .ok 2 :=
    ⟨_, _, _, _, _, .mk rfl rfl rfl .standard,
      .tail (.tail (.tail .refl (by rfl)) (by rfl)) (by rfl), rfl, by rfl, by rfl, by rfl⟩
  have hglobal : global ∈ s.scopes.frames := by simp [hframes]
  obtain ⟨v, inner, -, hsimple, heval, -⟩ :=
    variables_are_read_back p 0 [] s hs global hglobal "i" (by simp [Table.contains, hzero])
  obtain rfl : (2 : Float) = v := Except.ok.inj (htwo.symm.trans hsimple)
  exact ⟨p, s, global, hload, hs, hglobal, hzero, hsimple, heval (by rfl)⟩

/-- No expression reads these variables: the first name is not understood, and the second is read
as a number. -/
theorem freely_named_variables_are_not_read_back :
    ∃ p s₀ s f, Loads freelyNamed p s₀ ∧ Reaches p s₀ s ∧
      Scopes.Innermost Scope.Frame.vars s.scopes.frames "total cost" 0 f ∧
      Scopes.Innermost Scope.Frame.vars s.scopes.frames "5" 0 f ∧
      Expr.simple (resolver s.scopes) "total cost" = .ok 0 ∧
      Expr.eval (resolver s.scopes) "total cost" = .error (.unknownName "total") ∧
      Expr.simple (resolver s.scopes) "5" = .ok 0 ∧ Expr.eval (resolver s.scopes) "5" = .ok 5 :=
  ⟨_, _, _, _, .mk rfl rfl rfl .standard, .tail (.tail .refl (by rfl)) (by rfl),
    ⟨[], [], by rfl, by simp, by rfl⟩, ⟨[], [], by rfl, by simp, by rfl⟩,
    by rfl, by rfl, by rfl, by rfl⟩

end Machine

end Flowchart
