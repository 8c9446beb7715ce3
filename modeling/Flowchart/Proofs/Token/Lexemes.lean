import Flowchart.Proofs.Except
import Flowchart.Text.Blank
import Flowchart.Token.Scan
import Mathlib.Data.List.TakeWhile
import Mathlib.Data.String.Basic

/-!
# Lexemes

What is known of every lexeme is known of every token of a text. A text that is a name as a
whole is a single token.
-/

namespace Flowchart.Token

/-! ## All tokens of a text -/

section Lexemes

variable {P : TokenClass → String → Prop}

theorem forall_piecesFrom
    (hP : ∀ c cs cls tail, lexemeAt? c cs = some (cls, tail) → P cls (String.ofList (c :: tail)))
    {skip pos : Nat} {cs : List Char} {cls : TokenClass} {lexeme : String} {start : Nat}
    (h : Piece.token cls lexeme start ∈ piecesFrom skip pos cs) : P cls lexeme := by
  induction cs generalizing skip pos with
  | nil => cases skip <;> cases h
  | cons c cs ih =>
    cases skip with
    | succ skip => exact ih h
    | zero =>
      rw [piecesFrom] at h
      split at h
      · exact ih h
      split at h
      · rename_i hl
        rcases List.mem_cons.mp h with h | h
        · cases h
          exact hP _ _ _ _ hl
        · exact ih h
      · rcases List.mem_cons.mp h with h | h
        · cases h
        · exact ih h

theorem collect_token {stray : Bool} {cls : TokenClass} {lexeme : String} {pos : Nat}
    {rest : List Piece} {ts : List Token}
    (h : collect stray (.token cls lexeme pos :: rest) = .ok ts) :
    ∃ v us, ts = ⟨cls, lexeme, v, pos⟩ :: us ∧ collect stray rest = .ok us := by
  unfold collect at h
  split at h
  · split at h
    · cases h
    · obtain ⟨us, hus, rfl⟩ := map_eq_ok h
      exact ⟨_, us, rfl, hus⟩
  · obtain ⟨us, hus, rfl⟩ := map_eq_ok h
    exact ⟨_, us, rfl, hus⟩

theorem forall_collect {stray : Bool} {found : List Piece} {ts : List Token}
    (hfound : ∀ cls lexeme pos, Piece.token cls lexeme pos ∈ found → P cls lexeme)
    (h : collect stray found = .ok ts) : ∀ t ∈ ts, P t.cls t.lexeme := by
  induction found generalizing stray ts with
  | nil =>
    unfold collect at h
    split at h <;> cases h
    simp
  | cons piece rest ih =>
    have hrest := fun cls lexeme pos hm => hfound cls lexeme pos (List.mem_cons_of_mem piece hm)
    cases piece with
    | stray bytes => exact ih hrest h
    | token cls lexeme pos =>
      obtain ⟨v, us, rfl, hus⟩ := collect_token h
      intro t ht
      rcases List.mem_cons.mp ht with rfl | ht
      · exact hfound cls lexeme pos List.mem_cons_self
      · exact ih hrest hus t ht

theorem forall_tokenize
    (hP : ∀ c cs cls tail, lexemeAt? c cs = some (cls, tail) → P cls (String.ofList (c :: tail)))
    {text : String} {ts : List Token} (h : tokenize text = .ok ts) : ∀ t ∈ ts, P t.cls t.lexeme :=
  forall_collect (fun _ _ _ => forall_piecesFrom hP) h

end Lexemes

/-! ## Names -/

/-- A letter or an underscore, followed by letters, digits and underscores. -/
def isIdentifier (name : String) : Bool :=
  match name.toList with
  | [] => false
  | c :: cs => isNameStart c && cs.all isNameChar

theorem isIdentifier_ofList (c : Char) (cs : List Char) :
    isIdentifier (String.ofList (c :: cs)) = (isNameStart c && cs.all isNameChar) := by
  simp [isIdentifier]

theorem isIdentifier_iff (name : String) :
    isIdentifier name ↔ ∃ c cs, name = String.ofList (c :: cs) ∧ isNameStart c ∧
      ∀ d ∈ cs, isNameChar d := by
  constructor
  · intro h
    cases hname : name.toList with
    | nil => simp [isIdentifier, hname] at h
    | cons c cs =>
      have hof : name = String.ofList (c :: cs) := by rw [← hname, String.ofList_toList]
      rw [hof, isIdentifier_ofList, Bool.and_eq_true, List.all_eq_true] at h
      exact ⟨c, cs, hof, h⟩
  · rintro ⟨c, cs, rfl, hc, hcs⟩
    rw [isIdentifier_ofList, hc, Bool.true_and, List.all_eq_true]
    exact hcs

theorem toNat_of_isNameStart {c : Char} (h : isNameStart c) :
    (97 ≤ c.toNat ∧ c.toNat ≤ 122) ∨ (65 ≤ c.toNat ∧ c.toNat ≤ 90) ∨ c.toNat = 95 := by
  simp only [isNameStart, Bool.or_eq_true, Bool.and_eq_true, decide_eq_true_eq, beq_iff_eq] at h
  rcases h with (h | h) | rfl
  · exact Or.inl h
  · exact Or.inr (Or.inl h)
  · exact Or.inr (Or.inr rfl)

theorem isBlank_of_isNameStart {c : Char} (h : isNameStart c) : ¬ Text.isBlank c := by
  have hc := toNat_of_isNameStart h
  simp only [Text.isBlank, Bool.or_eq_true, Bool.and_eq_true, decide_eq_true_eq, beq_iff_eq]
  omega

theorem isSpace_of_isNameStart {c : Char} (h : isNameStart c) : ¬ isSpace c := by
  simp only [isSpace, Bool.or_eq_true, beq_iff_eq]
  rintro (((rfl | rfl) | rfl) | rfl) <;> exact absurd h (by decide)

theorem isDigit_of_isNameStart {c : Char} (h : isNameStart c) : ¬ Number.isDigit c := by
  have hc := toNat_of_isNameStart h
  simp only [Number.isDigit, Bool.and_eq_true, decide_eq_true_eq]
  rintro ⟨hlow, hhigh⟩
  have hmax : c.toNat ≤ 57 := hhigh
  omega

theorem lexemeAt_of_isNameStart {c : Char} (h : isNameStart c) (cs : List Char) :
    lexemeAt? c cs = some (.name, cs.takeWhile isNameChar) := by
  unfold lexemeAt?
  rw [if_neg (isDigit_of_isNameStart h), if_pos h]

theorem isIdentifier_lexemeAt {c : Char} {cs : List Char} {cls : TokenClass} {tail : List Char}
    (h : lexemeAt? c cs = some (cls, tail)) :
    cls = .name → isIdentifier (String.ofList (c :: tail)) := by
  intro hname
  by_cases hc : isNameStart c
  · rw [lexemeAt_of_isNameStart hc] at h
    cases h
    rw [isIdentifier_ofList, hc, Bool.true_and]
    exact List.all_takeWhile
  · -- No other branch yields a name.
    subst hname
    unfold lexemeAt? at h
    grind

theorem isIdentifier_of_tokenize {text : String} {ts : List Token} (h : tokenize text = .ok ts) :
    ∀ t ∈ ts, t.cls = .name → isIdentifier t.lexeme :=
  forall_tokenize (P := fun cls lexeme => cls = .name → isIdentifier lexeme)
    (fun _ _ _ _ => isIdentifier_lexemeAt) h

theorem piecesFrom_skip (tail rest : List Char) (pos : Nat) :
    piecesFrom tail.length pos (tail ++ rest) = piecesFrom 0 (pos + String.utf8Len tail) rest := by
  induction tail generalizing pos with
  | nil => rfl
  | cons c tail ih =>
    rw [List.length_cons, List.cons_append, piecesFrom, ih, String.utf8Len_cons, Nat.add_right_comm,
      Nat.add_assoc]

theorem tokenize_identifier {name : String} (h : isIdentifier name) :
    tokenize name = .ok [⟨.name, name, 0, 0⟩] := by
  obtain ⟨c, cs, rfl, hc, hcs⟩ := (isIdentifier_iff name).mp h
  have htail : cs.takeWhile isNameChar = cs := List.takeWhile_eq_self_iff.mpr hcs
  have hskip := piecesFrom_skip cs [] (0 + c.utf8Size)
  rw [List.append_nil] at hskip
  have hpieces : pieces (String.ofList (c :: cs)) = [.token .name (String.ofList (c :: cs)) 0] := by
    rw [pieces, String.toList_ofList, piecesFrom, if_neg (isSpace_of_isNameStart hc),
      lexemeAt_of_isNameStart hc, htail]
    simp only [hskip]
    rfl
  rw [tokenize, hpieces]
  rfl

end Flowchart.Token
