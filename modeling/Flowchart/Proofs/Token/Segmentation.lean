import Flowchart.Proofs.Number.Range
import Flowchart.Proofs.Token.Lexemes

/-!
# Segmentation

Which texts can be split into tokens, and how: the lexemes are the longest ones of their
classes and stand in the text at their positions, with nothing but white space around them.
-/

namespace Flowchart.Token

open Number

/-! ## Classes of lexemes -/

/-- The texts of each class, whatever stands around them. -/
inductive OfClass : TokenClass → List Char → Prop
  | whole {ds : List Char} : ds ≠ [] → (∀ c ∈ ds, isDigit c) → OfClass .number ds
  | fraction {ds es : List Char} :
      ds ≠ [] → (∀ c ∈ ds, isDigit c) → (∀ c ∈ es, isDigit c) → OfClass .number (ds ++ '.' :: es)
  | name {c : Char} {cs : List Char} :
      isNameStart c → (∀ d ∈ cs, isNameChar d) → OfClass .name (c :: cs)
  | sign {c : Char} : isSingleOperator c → OfClass .operator [c]
  | slashes : OfClass .operator ['/', '/']
  | opening {c : Char} : c = '(' ∨ c = '[' → OfClass .opening [c]
  | closing {c : Char} : c = ')' ∨ c = ']' → OfClass .closing [c]

/-- No lexeme is `lexeme` prolonged by the first character of `rest`. -/
def Longest (lexeme rest : List Char) : Prop :=
  ∀ c ∈ rest.head?, ∀ cls, ¬ OfClass cls (lexeme ++ [c])

theorem ofClass_ne_nil {cls : TokenClass} {lexeme : List Char} (h : OfClass cls lexeme) :
    lexeme ≠ [] := by
  cases h <;> simp_all

theorem ofClass_concat {cls : TokenClass} {c d : Char} {tail : List Char}
    (h : OfClass cls (c :: tail ++ [d])) :
    (isDigit c ∧ (isDigit d ∨ d = '.' ∧ ∀ e ∈ tail, isDigit e)) ∨ (isNameStart c ∧ isNameChar d) ∨
      (c = '/' ∧ tail = [] ∧ d = '/') := by
  generalize hl : c :: tail ++ [d] = l at h
  cases h with
  | whole hne hds =>
    subst hl
    exact Or.inl ⟨hds c (by simp), Or.inl (hds d (by simp))⟩
  | @fraction ds es hne hds hes =>
    rcases List.eq_nil_or_concat es with rfl | ⟨es, x, rfl⟩
    · obtain ⟨rfl, hd⟩ := List.append_inj' hl rfl
      obtain rfl := List.singleton_inj.mp hd
      exact Or.inl ⟨hds c (by simp), Or.inr ⟨rfl, fun e he => hds e (by simp [he])⟩⟩
    · obtain ⟨e, ds, rfl⟩ := List.exists_cons_of_ne_nil hne
      have hsplit : c :: tail ++ [d] = (e :: ds ++ '.' :: es) ++ [x] := by simpa using hl
      obtain ⟨hfront, hd⟩ := List.append_inj' hsplit rfl
      obtain ⟨rfl, -⟩ := List.cons.inj hfront
      obtain rfl := List.singleton_inj.mp hd
      exact Or.inl ⟨hds c (by simp), Or.inl (hes d (by simp))⟩
  | name hc hcs =>
    obtain ⟨rfl, rfl⟩ := List.cons.inj hl
    exact Or.inr (Or.inl ⟨hc, hcs d (by simp)⟩)
  | slashes =>
    obtain ⟨rfl, htail⟩ := List.cons.inj hl
    simp only [List.append_eq, List.append_eq_singleton_iff, List.singleton_inj] at htail
    obtain ⟨rfl, rfl⟩ | ⟨-, hd⟩ := htail
    · exact Or.inr (Or.inr ⟨rfl, rfl, rfl⟩)
    · cases hd
  | sign | opening | closing => simp at hl

/-! ## One lexeme -/

theorem head_dropWhile {p : Char → Bool} {cs : List Char} :
    ∀ c ∈ (cs.dropWhile p).head?, ¬ p c := by
  intro c hc
  have h := List.head?_dropWhile_not p cs
  rw [Option.mem_def.mp hc] at h
  simpa using h

theorem isNameStart_of_isDigit {c : Char} (h : isDigit c) :
    ¬ isNameStart c := fun hs => isDigit_of_isNameStart hs h

/-- The digits and the point of a number are taken as far as they go. -/
theorem numberTail_spec {c : Char} (hc : isDigit c) (cs : List Char) :
    ∃ rest, cs = numberTail cs ++ rest ∧ OfClass .number (c :: numberTail cs) ∧
      Longest (c :: numberTail cs) rest := by
  have hname := isNameStart_of_isDigit hc
  have hslash : c ≠ '/' := by
    rintro rfl
    exact absurd hc (by decide)
  have hsplit := List.takeWhile_append_dropWhile (p := isDigit) (l := cs)
  have hds : ∀ d ∈ c :: cs.takeWhile isDigit, isDigit d :=
    List.forall_mem_cons.mpr ⟨hc, fun d hd => List.mem_takeWhile_imp hd⟩
  unfold numberTail
  split
  · rename_i rest hrest
    have hes : ∀ d ∈ rest.takeWhile isDigit, isDigit d := fun d hd => List.mem_takeWhile_imp hd
    refine ⟨rest.dropWhile isDigit, ?_, OfClass.fraction (List.cons_ne_nil _ _) hds hes, ?_⟩
    · rw [hrest] at hsplit
      simp [hsplit]
    · intro d hd cls hcls
      obtain ⟨-, hdigit | ⟨-, htail⟩⟩ | ⟨hstart, -⟩ | ⟨hc', -⟩ := ofClass_concat hcls
      · exact head_dropWhile d hd hdigit
      · exact absurd (htail '.' (by simp)) (by decide)
      · exact hname hstart
      · exact hslash hc'
  · rename_i hrest
    refine ⟨cs.dropWhile isDigit, hsplit.symm, OfClass.whole (List.cons_ne_nil _ _) hds, ?_⟩
    intro d hd cls hcls
    obtain ⟨-, hdigit | ⟨rfl, -⟩⟩ | ⟨hstart, -⟩ | ⟨hc', -⟩ := ofClass_concat hcls
    · exact head_dropWhile d hd hdigit
    · obtain ⟨rest, hrest'⟩ := List.head?_eq_some_iff.mp hd
      exact hrest rest hrest'
    · exact hname hstart
    · exact hslash hc'

theorem lexemeAt_spec {c : Char} {cs : List Char} {cls : TokenClass} {tail : List Char}
    (h : lexemeAt? c cs = some (cls, tail)) :
    ∃ rest, cs = tail ++ rest ∧ OfClass cls (c :: tail) ∧ Longest (c :: tail) rest := by
  by_cases hdigit : isDigit c
  · unfold lexemeAt? at h
    rw [if_pos hdigit] at h
    cases h
    exact numberTail_spec hdigit cs
  by_cases hname : isNameStart c
  · rw [lexemeAt_of_isNameStart hname] at h
    cases h
    refine ⟨cs.dropWhile isNameChar, List.takeWhile_append_dropWhile.symm,
      OfClass.name hname (fun d hd => List.mem_takeWhile_imp hd), ?_⟩
    intro d hd cls hcls
    obtain ⟨hc, -⟩ | ⟨-, hd'⟩ | ⟨rfl, -⟩ := ofClass_concat hcls
    · exact hdigit hc
    · exact head_dropWhile d hd hd'
    · exact absurd hname (by decide)
  -- What is left can be prolonged to two slashes only.
  have hlongest : ∀ rest, (c = '/' → tail = [] → rest.head? ≠ some '/') →
      Longest (c :: tail) rest := by
    intro rest hrest d hd cls hcls
    obtain ⟨hc, -⟩ | ⟨hc, -⟩ | ⟨hc, htail, rfl⟩ := ofClass_concat hcls
    · exact hdigit hc
    · exact hname hc
    · exact hrest hc htail hd
  unfold lexemeAt? at h
  rw [if_neg hdigit, if_neg hname] at h
  split_ifs at h with hopen hclose hop
  · cases h
    exact ⟨cs, rfl, .opening hopen, hlongest cs (by rintro rfl; simp at hopen)⟩
  · cases h
    exact ⟨cs, rfl, .closing hclose, hlongest cs (by rintro rfl; simp at hclose)⟩
  · split at h
    · rename_i rest
      cases h
      exact ⟨rest, rfl, .slashes, hlongest rest (fun _ htail => by simp at htail)⟩
    · rename_i hslash
      cases h
      refine ⟨cs, rfl, .sign hop, hlongest cs ?_⟩
      intro hc _ hhead
      obtain ⟨rest, hcs⟩ := List.head?_eq_some_iff.mp hhead
      exact hslash rest hc hcs

/-! ## The whole text -/

/-- The characters of expressions. -/
def isAdmitted (c : Char) : Bool :=
  isNameChar c || isSpace c || isSingleOperator c || c == '(' || c == '[' || c == ')' ||
    c == ']' || c == '.'

/-- The pieces from position `pos` on, and where each of them comes from. -/
inductive Scanned : Nat → List Char → List Piece → Prop
  | nil (pos : Nat) : Scanned pos [] []
  | space {pos : Nat} {c : Char} {cs : List Char} {found : List Piece} :
      isSpace c → Scanned (pos + c.utf8Size) cs found → Scanned pos (c :: cs) found
  | lexeme {pos : Nat} {cls : TokenClass} {lexeme rest : List Char} {found : List Piece} :
      OfClass cls lexeme → Longest lexeme rest → Scanned (pos + String.utf8Len lexeme) rest found →
      Scanned pos (lexeme ++ rest) (.token cls (String.ofList lexeme) pos :: found)
  | stray {pos : Nat} {c : Char} {cs : List Char} {found : List Piece} :
      (isAdmitted c → c = '.') → Scanned (pos + c.utf8Size) cs found →
      Scanned pos (c :: cs) (.stray c.utf8Size :: found)

theorem eq_point_of_lexemeAt {c : Char} {cs : List Char} (hspace : ¬ isSpace c)
    (h : lexemeAt? c cs = none) (hc : isAdmitted c) : c = '.' := by
  unfold lexemeAt? at h
  split_ifs at h with hdigit hname hopen hclose hop
  · split at h <;> cases h
  · simp_all [isAdmitted, isNameChar]

theorem scanned_piecesFrom (pos : Nat) (cs : List Char) : Scanned pos cs (piecesFrom 0 pos cs) := by
  cases cs with
  | nil => exact .nil pos
  | cons c cs =>
    rw [piecesFrom]
    split
    · rename_i hc
      exact .space hc (scanned_piecesFrom (pos + c.utf8Size) cs)
    · rename_i hc
      split
      · rename_i cls tail hl
        obtain ⟨rest, rfl, hcls, hlongest⟩ := lexemeAt_spec hl
        have hscan := scanned_piecesFrom (pos + String.utf8Len (c :: tail)) rest
        rw [piecesFrom_skip, Nat.add_assoc, Nat.add_comm c.utf8Size, ← String.utf8Len_cons]
        exact .lexeme hcls hlongest hscan
      · rename_i hl
        exact .stray (eq_point_of_lexemeAt hc hl) (scanned_piecesFrom (pos + c.utf8Size) cs)
termination_by cs.length
decreasing_by all_goals simp_all; try omega

/-! ## Success -/

def Fine : Piece → Prop
  | .token cls lexeme _ => cls = .number → numberValue? lexeme ≠ none
  | .stray _ => False

theorem fine_of_ne {cls : TokenClass} {lexeme : String} {pos : Nat} (h : cls ≠ .number) :
    Fine (.token cls lexeme pos) :=
  fun hnumber => absurd hnumber h

theorem collect_stray {found : List Piece} {ts : List Token} : collect true found ≠ .ok ts := by
  induction found generalizing ts with
  | nil => exact nofun
  | cons piece found ih =>
    cases piece with
    | stray bytes => exact ih
    | token cls lexeme pos =>
      intro h
      obtain ⟨v, us, -, hus⟩ := collect_token h
      exact ih hus

theorem exists_collect_iff {found : List Piece} :
    (∃ ts, collect false found = .ok ts) ↔ ∀ p ∈ found, Fine p := by
  induction found with
  | nil => exact ⟨fun _ => nofun, fun _ => ⟨[], rfl⟩⟩
  | cons piece found ih =>
    rw [List.forall_mem_cons, ← ih]
    cases piece with
    | stray bytes => exact ⟨fun ⟨ts, h⟩ => absurd h collect_stray, fun h => absurd h.1 id⟩
    | token cls lexeme pos =>
      constructor
      · rintro ⟨ts, h⟩
        obtain ⟨v, us, -, hus⟩ := collect_token h
        refine ⟨?_, us, hus⟩
        rintro rfl hnone
        unfold collect at h
        simp only [hnone] at h
        cases h
      · rintro ⟨hfine, us, hus⟩
        unfold collect
        split
        · split
          · rename_i hnone
            exact absurd hnone (hfine rfl)
          · exact ⟨_, by rw [hus]; rfl⟩
        · exact ⟨_, by rw [hus]; rfl⟩

/-! ## Texts that have tokens -/

/-- Digits behind `front` begin a number. Behind a letter, a digit or an underscore they would be
part of a name or of the same run, behind a point the fraction of the number it belongs to. -/
def StartsNumber (front : List Char) : Prop := ∀ c ∈ front.getLast?, ¬ isNameChar c ∧ c ≠ '.'

/-- `front` ends in a run of digits that begins a number. -/
def EndsInWhole (front : List Char) : Prop :=
  ∃ before ds, front = before ++ ds ∧ ds ≠ [] ∧ (∀ c ∈ ds, isDigit c) ∧ StartsNumber before

/-- The digits behind a point. -/
def fractionOf : List Char → List Char
  | '.' :: rest => rest.takeWhile isDigit
  | _ => []

/-- The decimal number with these digits before and behind its point is rounded to a double. -/
def InRange (ds es : List Char) : Prop :=
  Nat.ofDigitChars 10 (ds ++ es) 0 < overflow * 10 ^ es.length

/-- The texts that consist of lexemes and white space. -/
structure Acceptable (cs : List Char) : Prop where
  admitted : ∀ c ∈ cs, isAdmitted c
  points : ∀ front rest, cs = front ++ '.' :: rest → EndsInWhole front
  numbers : ∀ front ds rest, cs = front ++ ds ++ rest → StartsNumber front → ds ≠ [] →
    (∀ c ∈ ds, isDigit c) → (∀ c ∈ rest.head?, ¬ isDigit c) → InRange ds (fractionOf rest)

/-- What `Acceptable` asks of the character `c` between `front` and `rest`. -/
structure Fits (front : List Char) (c : Char) (rest : List Char) : Prop where
  admitted : isAdmitted c
  point : c = '.' → EndsInWhole front
  number : isDigit c → StartsNumber front →
    InRange ((c :: rest).takeWhile isDigit) (fractionOf ((c :: rest).dropWhile isDigit))

def Fitting (front : List Char) : List Char → Prop
  | [] => True
  | c :: cs => Fits front c cs ∧ Fitting (front ++ [c]) cs

theorem fitting_iff {front cs : List Char} :
    Fitting front cs ↔ ∀ before c after, cs = before ++ c :: after →
      Fits (front ++ before) c after := by
  induction cs generalizing front with
  | nil => simp [Fitting]
  | cons d cs ih =>
    rw [Fitting, ih]
    constructor
    · rintro ⟨hd, hcs⟩ before c after heq
      cases before with
      | nil =>
        cases heq
        simpa using hd
      | cons b before =>
        obtain ⟨rfl, rfl⟩ := List.cons.inj heq
        simpa using hcs before c after rfl
    · intro h
      refine ⟨by simpa using h [] d cs rfl, ?_⟩
      rintro before c after rfl
      simpa using h (d :: before) c after rfl

theorem takeWhile_run {ds rest : List Char} (hds : ∀ c ∈ ds, isDigit c)
    (hrest : ∀ c ∈ rest.head?, ¬ isDigit c) :
    (ds ++ rest).takeWhile isDigit = ds ∧ (ds ++ rest).dropWhile isDigit = rest := by
  rw [List.takeWhile_append_of_pos hds, List.dropWhile_append_of_pos hds]
  cases rest with
  | nil => simp
  | cons c rest =>
    have hc := hrest c rfl
    simp [hc]

theorem acceptable_iff {cs : List Char} : Acceptable cs ↔ Fitting [] cs := by
  rw [fitting_iff]
  constructor
  · rintro h before c after rfl
    refine ⟨h.admitted c (by simp), ?_, ?_⟩
    · rintro rfl
      exact h.points before after rfl
    · intro hc hstart
      refine h.numbers before _ _ ?_ hstart ?_ (fun d hd => List.mem_takeWhile_imp hd)
        head_dropWhile
      · rw [List.append_assoc, List.takeWhile_append_dropWhile]
      · simp [hc]
  · intro h
    refine ⟨?_, ?_, ?_⟩
    · intro c hc
      obtain ⟨before, after, rfl⟩ := List.append_of_mem hc
      exact (h before c after rfl).admitted
    · rintro front rest rfl
      exact (h front '.' rest rfl).point rfl
    · rintro front ds rest rfl hstart hne hds hrest
      obtain ⟨c, ds, rfl⟩ := List.exists_cons_of_ne_nil hne
      have hfits := h front c (ds ++ rest) (by simp)
      obtain ⟨htake, hdrop⟩ := takeWhile_run hds hrest
      have hrange := hfits.number (hds c (by simp)) hstart
      rw [← List.cons_append, htake, hdrop] at hrange
      exact hrange

/-! ## Between two lexemes -/

/-- Scanning stands between `front` and `cs`: a point does not go on a number, and digits begin
one. -/
structure Boundary (front cs : List Char) : Prop where
  point : '.' ∈ cs.head? → ¬ EndsInWhole front
  digit : ∀ c ∈ cs.head?, isDigit c → StartsNumber front

theorem startsNumber_concat {front : List Char} {c : Char} :
    StartsNumber (front ++ [c]) ↔ ¬ isNameChar c ∧ c ≠ '.' := by
  simp [StartsNumber]

theorem isNameChar_of_isDigit {c : Char} (h : isDigit c) : isNameChar c := by
  simp [isNameChar, h]

theorem endsInWhole_concat {front : List Char} {c : Char} (h : EndsInWhole (front ++ [c])) :
    isDigit c := by
  obtain ⟨before, ds, heq, hne, hds, -⟩ := h
  obtain ⟨ds, d, rfl⟩ := List.eq_nil_or_concat ds |>.resolve_left hne
  rw [List.concat_eq_append, ← List.append_assoc] at heq
  obtain ⟨-, hd⟩ := List.append_inj' heq rfl
  obtain rfl := List.singleton_inj.mp hd
  exact hds c (by simp)

theorem not_endsInWhole {front run : List Char} {c : Char} (hc : ¬ isDigit c)
    (hjoin : isNameChar c ∨ c = '.') (hrun : ∀ d ∈ run, isNameChar d) :
    ¬ EndsInWhole (front ++ c :: run) := by
  rintro ⟨before, ds, heq, hne, hds, hstart⟩
  rcases List.append_eq_append_iff.mp heq with ⟨between, rfl, hcs⟩ | ⟨between, rfl, rfl⟩
  · rcases List.eq_nil_or_concat between with rfl | ⟨between, last, rfl⟩
    · exact hc (hds c (by rw [List.nil_append] at hcs; simp [← hcs]))
    · -- The run of digits would begin behind `last`, which is `c` or belongs to `run`.
      have hlast : last ∈ c :: run := by simp [hcs]
      rw [List.concat_eq_append, ← List.append_assoc, startsNumber_concat] at hstart
      rcases List.mem_cons.mp hlast with rfl | hlast
      · exact hjoin.elim hstart.1 hstart.2
      · exact hstart.1 (hrun last hlast)
  · exact hc (hds c (by simp))

theorem boundary_separator {front cs : List Char} {c : Char} (hname : ¬ isNameChar c)
    (hpoint : c ≠ '.') :
    Boundary (front ++ [c]) cs where
  point _ h := hname (isNameChar_of_isDigit (endsInWhole_concat h))
  digit _ _ _ := startsNumber_concat.mpr ⟨hname, hpoint⟩

theorem fitting_run {front run rest : List Char} (hfront : ¬ StartsNumber front)
    (hrun : ∀ c ∈ run, isNameChar c) :
    Fitting front (run ++ rest) ↔ Fitting (front ++ run) rest := by
  induction run generalizing front with
  | nil => simp
  | cons c run ih =>
    obtain ⟨hc, hrest⟩ := List.forall_mem_cons.mp hrun
    have hfits : Fits front c (run ++ rest) := by
      refine ⟨by simp [isAdmitted, hc], ?_, fun _ hstart => absurd hstart hfront⟩
      rintro rfl
      exact absurd hc (by decide)
    have hjoined : ¬ StartsNumber (front ++ [c]) := fun h => (startsNumber_concat.mp h).1 hc
    rw [List.cons_append, Fitting, and_iff_right hfits, ih hjoined hrest, List.append_assoc,
      List.singleton_append]

theorem fitting_separator {front cs : List Char} {c : Char} (hc : isAdmitted c)
    (hname : ¬ isNameChar c) (hpoint : c ≠ '.') :
    Fitting front (c :: cs) ↔ Fitting (front ++ [c]) cs :=
  and_iff_right ⟨hc, fun h => absurd h hpoint, fun h => absurd (isNameChar_of_isDigit h) hname⟩

theorem separator_of_isSingleOperator {c : Char} (h : isSingleOperator c) :
    ¬ isNameChar c ∧ c ≠ '.' := by
  simp only [isSingleOperator, Bool.or_eq_true, beq_iff_eq] at h
  rcases h with ((((rfl | rfl) | rfl) | rfl) | rfl) | rfl <;> decide

theorem separator_of_bracket {c : Char} (h : (c = '(' ∨ c = '[') ∨ c = ')' ∨ c = ']') :
    isAdmitted c ∧ ¬ isNameChar c ∧ c ≠ '.' := by
  rcases h with (rfl | rfl) | rfl | rfl <;> decide

theorem not_isDigit_of_longest {cls : TokenClass} {lexeme rest : List Char}
    (hcls : OfClass cls lexeme) (hlongest : Longest lexeme rest) (hnumber : cls = .number) :
    ∀ c ∈ rest.head?, ¬ isDigit c := by
  intro c hhead hc
  cases hcls with
  | @whole ds hne hds =>
    refine hlongest c hhead .number (.whole (by simp) ?_)
    simpa [or_imp, forall_and, hc] using hds
  | @fraction ds es hne hds hes =>
    have hlonger : OfClass .number (ds ++ '.' :: (es ++ [c])) := by
      refine .fraction hne hds ?_
      simpa [or_imp, forall_and, hc] using hes
    exact hlongest c hhead .number (by simpa using hlonger)
  | _ => cases hnumber

theorem boundary_lexeme {cls : TokenClass} {front lexeme rest : List Char}
    (hcls : OfClass cls lexeme) (hlongest : Longest lexeme rest) :
    Boundary (front ++ lexeme) rest := by
  have hdigit := not_isDigit_of_longest hcls hlongest
  cases hcls with
  | whole hne hds =>
    refine ⟨fun hhead => ?_, fun c hhead hc => absurd hc (hdigit rfl c hhead)⟩
    exact absurd (@OfClass.fraction lexeme [] hne hds nofun) (hlongest '.' hhead .number)
  | @fraction ds es hne hds hes =>
    refine ⟨fun _ => ?_, fun c hhead hc => absurd hc (hdigit rfl c hhead)⟩
    rw [← List.append_assoc]
    exact not_endsInWhole (by decide) (Or.inr rfl) (fun d hd => isNameChar_of_isDigit (hes d hd))
  | @name c cs hc hcs =>
    refine ⟨fun _ => not_endsInWhole (isDigit_of_isNameStart hc)
      (Or.inl (by simp [isNameChar, hc])) hcs, ?_⟩
    intro d hhead hd
    refine absurd ?_ (hlongest d hhead .name)
    refine .name hc ?_
    simpa [or_imp, forall_and, isNameChar_of_isDigit hd] using hcs
  | sign hc =>
    obtain ⟨hname, hpoint⟩ := separator_of_isSingleOperator hc
    exact boundary_separator hname hpoint
  | slashes =>
    rw [← List.singleton_append, ← List.append_assoc]
    exact boundary_separator (by decide) (by decide)
  | opening hc =>
    obtain ⟨-, hname, hpoint⟩ := separator_of_bracket (Or.inl hc)
    exact boundary_separator hname hpoint
  | closing hc =>
    obtain ⟨-, hname, hpoint⟩ := separator_of_bracket (Or.inr hc)
    exact boundary_separator hname hpoint

theorem fits_digit {front rest : List Char} {c : Char} (hc : isDigit c)
    (hstart : StartsNumber front) :
    Fits front c rest ↔ InRange ((c :: rest).takeWhile isDigit)
      (fractionOf ((c :: rest).dropWhile isDigit)) := by
  refine ⟨fun h => h.number hc hstart, fun h => ⟨?_, ?_, fun _ _ => h⟩⟩
  · simp [isAdmitted, isNameChar, hc]
  · rintro rfl
    exact absurd hc (by decide)

section Numbers

variable {front ds es rest : List Char} (pos : Nat) (hne : ds ≠ []) (hds : ∀ c ∈ ds, isDigit c)
  (hstart : StartsNumber front)
include hne hds hstart

theorem fitting_digits (hrest : ∀ c ∈ rest.head?, ¬ isDigit c) :
    Fitting front (ds ++ rest) ↔ InRange ds (fractionOf rest) ∧ Fitting (front ++ ds) rest := by
  obtain ⟨htake, hdrop⟩ := takeWhile_run hds hrest
  obtain ⟨c, ds, rfl⟩ := List.exists_cons_of_ne_nil hne
  obtain ⟨hc, hcs⟩ := List.forall_mem_cons.mp hds
  have hjoined : ¬ StartsNumber (front ++ [c]) :=
    fun h => (startsNumber_concat.mp h).1 (isNameChar_of_isDigit hc)
  rw [List.cons_append, Fitting, fits_digit hc hstart, ← List.cons_append, htake, hdrop,
    fitting_run hjoined (fun d hd => isNameChar_of_isDigit (hcs d hd)), List.append_assoc,
    List.singleton_append]

theorem fitting_whole (hlongest : Longest ds rest) :
    Fitting front (ds ++ rest) ↔ Fine (.token .number (String.ofList ds) pos) ∧
      Fitting (front ++ ds) rest := by
  have hpoint : fractionOf rest = [] := by
    unfold fractionOf
    split
    · exact absurd (@OfClass.fraction ds [] hne hds nofun) (hlongest '.' rfl .number)
    · rfl
  have hrange : InRange ds [] ↔ Fine (.token .number (String.ofList ds) pos) := by
    simp only [InRange, Fine, forall_const, ne_eq, numberValue_whole hne hds, List.append_nil,
      List.length_nil, pow_zero, mul_one, not_le]
  rw [fitting_digits hne hds hstart (not_isDigit_of_longest (.whole hne hds) hlongest rfl),
    hpoint, hrange]

theorem fitting_fraction (hes : ∀ c ∈ es, isDigit c) (hlongest : Longest (ds ++ '.' :: es) rest) :
    Fitting front (ds ++ '.' :: es ++ rest) ↔
      Fine (.token .number (String.ofList (ds ++ '.' :: es)) pos) ∧
      Fitting (front ++ (ds ++ '.' :: es)) rest := by
  have hpoint : ∀ d ∈ ('.' :: (es ++ rest)).head?, ¬ isDigit d := by
    rintro d hd
    cases hd
    decide
  have hfraction : fractionOf ('.' :: (es ++ rest)) = es :=
    (takeWhile_run hes (not_isDigit_of_longest (.fraction hne hds hes) hlongest rfl)).1
  have hrange : InRange ds es ↔ Fine (.token .number (String.ofList (ds ++ '.' :: es)) pos) := by
    simp only [InRange, Fine, forall_const, ne_eq, numberValue_fraction hne hds hes, not_le]
  have hwhole : Fits (front ++ ds) '.' (es ++ rest) :=
    ⟨by decide, fun _ => ⟨front, ds, rfl, hne, hds, hstart⟩, fun h => absurd h (by decide)⟩
  have hbehind : ¬ StartsNumber (front ++ ds ++ ['.']) := fun h => (startsNumber_concat.mp h).2 rfl
  rw [List.append_assoc, List.cons_append, fitting_digits hne hds hstart hpoint, hfraction,
    hrange, Fitting, and_iff_right hwhole,
    fitting_run hbehind (fun d hd => isNameChar_of_isDigit (hes d hd))]
  simp

end Numbers

theorem startsNumber_of_boundary {front ds rest : List Char} (hne : ds ≠ [])
    (hds : ∀ c ∈ ds, isDigit c) (h : Boundary front (ds ++ rest)) : StartsNumber front := by
  obtain ⟨c, ds, rfl⟩ := List.exists_cons_of_ne_nil hne
  exact h.digit c rfl (hds c (by simp))

theorem fitting_lexeme {cls : TokenClass} {front lexeme rest : List Char} (pos : Nat)
    (hcls : OfClass cls lexeme) (hlongest : Longest lexeme rest)
    (hboundary : Boundary front (lexeme ++ rest)) :
    Fitting front (lexeme ++ rest) ↔
      Fine (.token cls (String.ofList lexeme) pos) ∧ Fitting (front ++ lexeme) rest := by
  cases hcls with
  | whole hne hds =>
    exact fitting_whole pos hne hds (startsNumber_of_boundary hne hds hboundary) hlongest
  | fraction hne hds hes =>
    rw [List.append_assoc] at hboundary
    exact fitting_fraction pos hne hds (startsNumber_of_boundary hne hds hboundary) hes hlongest
  | @name c cs hc hcs =>
    have hnamed : isNameChar c := by simp [isNameChar, hc]
    have hjoined : ¬ StartsNumber (front ++ [c]) := fun h => (startsNumber_concat.mp h).1 hnamed
    have hfits : Fits front c (cs ++ rest) := by
      refine ⟨by simp [isAdmitted, hnamed], ?_, fun h => absurd h (isDigit_of_isNameStart hc)⟩
      rintro rfl
      exact absurd hc (by decide)
    rw [List.cons_append, Fitting, and_iff_right hfits, fitting_run hjoined hcs, List.append_assoc,
      List.singleton_append, and_iff_right (fine_of_ne (by decide))]
  | sign hc =>
    obtain ⟨hname, hpoint⟩ := separator_of_isSingleOperator hc
    rw [List.singleton_append, fitting_separator (by simp [isAdmitted, hc]) hname hpoint,
      and_iff_right (fine_of_ne (by decide))]
  | slashes =>
    rw [List.cons_append, fitting_separator (by decide) (by decide) (by decide),
      List.singleton_append, fitting_separator (by decide) (by decide) (by decide),
      List.append_assoc, List.singleton_append, and_iff_right (fine_of_ne (by decide))]
  | opening hc =>
    obtain ⟨hadmitted, hname, hpoint⟩ := separator_of_bracket (Or.inl hc)
    rw [List.singleton_append, fitting_separator hadmitted hname hpoint,
      and_iff_right (fine_of_ne (by decide))]
  | closing hc =>
    obtain ⟨hadmitted, hname, hpoint⟩ := separator_of_bracket (Or.inr hc)
    rw [List.singleton_append, fitting_separator hadmitted hname hpoint,
      and_iff_right (fine_of_ne (by decide))]

theorem separator_of_isSpace {c : Char} (h : isSpace c) :
    isAdmitted c ∧ ¬ isNameChar c ∧ c ≠ '.' := by
  simp only [isSpace, Bool.or_eq_true, beq_iff_eq] at h
  rcases h with ((rfl | rfl) | rfl) | rfl <;> decide

theorem fine_iff_fitting {pos : Nat} {cs front : List Char} {found : List Piece}
    (h : Scanned pos cs found) (hboundary : Boundary front cs) :
    (∀ p ∈ found, Fine p) ↔ Fitting front cs := by
  induction h generalizing front with
  | nil pos => simp [Fitting]
  | space hc _ ih =>
    obtain ⟨hadmitted, hname, hpoint⟩ := separator_of_isSpace hc
    rw [fitting_separator hadmitted hname hpoint]
    exact ih (boundary_separator hname hpoint)
  | lexeme hcls hlongest _ ih =>
    rw [List.forall_mem_cons, fitting_lexeme _ hcls hlongest hboundary,
      ih (boundary_lexeme hcls hlongest)]
  | stray hc _ _ =>
    refine iff_of_false (fun h => h _ List.mem_cons_self) ?_
    rintro ⟨hfits, -⟩
    obtain rfl := hc hfits.admitted
    exact hboundary.point rfl (hfits.point rfl)

theorem exists_tokenize_iff (text : String) :
    (∃ ts, tokenize text = .ok ts) ↔ Acceptable text.toList := by
  have hboundary : Boundary [] text.toList := by
    refine ⟨fun _ => ?_, fun _ _ _ => nofun⟩
    rintro ⟨before, ds, heq, hne, -⟩
    exact hne (List.append_eq_nil_iff.mp heq.symm).2
  rw [tokenize, exists_collect_iff, pieces,
    fine_iff_fitting (scanned_piecesFrom 0 text.toList) hboundary, acceptable_iff]

/-! ## Tokens in their text -/

/-- The tokens of the text `cs`, which begins at position `pos`: white space, a lexeme that is the
longest one, and so on to the end. -/
inductive Segmented : Nat → List Char → List Token → Prop
  | done {pos : Nat} {gap : List Char} : (∀ c ∈ gap, isSpace c) → Segmented pos gap []
  | token {pos : Nat} {cls : TokenClass} {v : Float} {gap lexeme rest : List Char}
      {ts : List Token} :
      (∀ c ∈ gap, isSpace c) → OfClass cls lexeme → Longest lexeme rest →
      Segmented (pos + String.utf8Len gap + String.utf8Len lexeme) rest ts →
      Segmented pos (gap ++ lexeme ++ rest)
      (⟨cls, String.ofList lexeme, v, pos + String.utf8Len gap⟩ :: ts)

theorem segmented_space {pos : Nat} {c : Char} {cs : List Char} {ts : List Token} (hc : isSpace c)
    (h : Segmented (pos + c.utf8Size) cs ts) : Segmented pos (c :: cs) ts := by
  cases h with
  | done hgap => exact .done (List.forall_mem_cons.mpr ⟨hc, hgap⟩)
  | @token _ cls v gap lexeme rest ts hgap hcls hlongest hrest =>
    have hpos : pos + c.utf8Size + String.utf8Len gap = pos + String.utf8Len (c :: gap) := by
      rw [String.utf8Len_cons, Nat.add_right_comm, Nat.add_assoc]
    rw [hpos] at hrest ⊢
    exact @Segmented.token pos cls v (c :: gap) lexeme rest ts (List.forall_mem_cons.mpr ⟨hc, hgap⟩)
      hcls hlongest hrest

theorem segmented_of_scanned {pos : Nat} {cs : List Char} {found : List Piece} {ts : List Token}
    (h : Scanned pos cs found) (hts : collect false found = .ok ts) : Segmented pos cs ts := by
  induction h generalizing ts with
  | nil pos =>
    cases hts
    exact .done nofun
  | space hc _ ih => exact segmented_space hc (ih hts)
  | lexeme hcls hlongest _ ih =>
    obtain ⟨v, us, rfl, hus⟩ := collect_token hts
    exact @Segmented.token _ _ v [] _ _ us nofun hcls hlongest (ih hus)
  | stray _ _ _ => exact absurd hts collect_stray

theorem increasing_of_segmented {pos : Nat} {cs : List Char} {ts : List Token}
    (h : Segmented pos cs ts) :
    (∀ t ∈ ts, pos ≤ t.pos) ∧ (ts.map (·.pos)).Pairwise (· < ·) := by
  induction h with
  | done _ => simp
  | token hgap hcls hlongest hrest ih =>
    obtain ⟨hle, hlt⟩ := ih
    have hlength := Nat.pos_of_ne_zero (mt String.utf8Len_eq_zero.mp (ofClass_ne_nil hcls))
    constructor
    · rw [List.forall_mem_cons]
      exact ⟨Nat.le_add_right _ _, fun t ht => by have := hle t ht; omega⟩
    · rw [List.map_cons, List.pairwise_cons, List.forall_mem_map]
      exact ⟨fun t ht => by have := hle t ht; dsimp only; omega, hlt⟩

theorem placed_of_segmented {pos : Nat} {cs : List Char} {ts : List Token}
    (h : Segmented pos cs ts) :
    ∀ t ∈ ts, ∃ before after, cs = before ++ t.lexeme.toList ++ after ∧
      t.pos = pos + String.utf8Len before ∧
      OfClass t.cls t.lexeme.toList ∧ Longest t.lexeme.toList after := by
  induction h with
  | done _ => simp
  | @token pos cls v gap lexeme rest ts hgap hcls hlongest hrest ih =>
    rw [List.forall_mem_cons]
    refine ⟨⟨gap, rest, by simp, rfl, by simpa using hcls, by simpa using hlongest⟩, ?_⟩
    intro t ht
    obtain ⟨before, after, rfl, hpos, hclass, hlong⟩ := ih t ht
    refine ⟨gap ++ lexeme ++ before, after, by simp, ?_, hclass, hlong⟩
    rw [hpos, String.utf8Len_append, String.utf8Len_append]
    omega

/-- A text has tokens exactly if it is acceptable. They stand in it in order, each the longest
lexeme of a class at its position, and all else is white space. Texts are sequences of characters:
bytes that are no UTF-8 encode none of them, so nothing is said of those. -/
theorem tokens_segment_texts (text : String) :
    ((∃ ts, tokenize text = .ok ts) ↔ Acceptable text.toList) ∧
    ∀ ts, tokenize text = .ok ts →
      (ts.map (·.pos)).Pairwise (· < ·) ∧
      (∀ t ∈ ts, ∃ before after, text = before ++ t.lexeme ++ after ∧ before.utf8ByteSize = t.pos ∧
        OfClass t.cls t.lexeme.toList ∧ Longest t.lexeme.toList after.toList) ∧
      Segmented 0 text.toList ts := by
  refine ⟨exists_tokenize_iff text, fun ts hts => ?_⟩
  have hseg : Segmented 0 text.toList ts :=
    segmented_of_scanned (scanned_piecesFrom 0 text.toList) hts
  refine ⟨(increasing_of_segmented hseg).2, ?_, hseg⟩
  intro t ht
  obtain ⟨before, after, htext, hpos, hcls, hlongest⟩ := placed_of_segmented hseg t ht
  refine ⟨String.ofList before, String.ofList after, ?_, ?_, hcls, by simpa using hlongest⟩
  · rw [← String.toList_inj, htext]
    simp
  · rw [String.utf8ByteSize_ofList, hpos, Nat.zero_add]

theorem tokens_segment_texts_crowded :
    Acceptable "12.5//x_1 [3.]".toList ∧
      Segmented 0 "12.5//x_1 [3.]".toList
        [⟨.number, "12.5", 12.5, 0⟩, ⟨.operator, "//", 0, 4⟩, ⟨.name, "x_1", 0, 6⟩,
          ⟨.opening, "[", 0, 10⟩,
          ⟨.number, "3.", 3, 11⟩, ⟨.closing, "]", 0, 13⟩] := by
  have htokens : tokenize "12.5//x_1 [3.]" =
      .ok [⟨.number, "12.5", 12.5, 0⟩, ⟨.operator, "//", 0, 4⟩, ⟨.name, "x_1", 0, 6⟩,
        ⟨.opening, "[", 0, 10⟩,
        ⟨.number, "3.", 3, 11⟩, ⟨.closing, "]", 0, 13⟩] := by
    decide +kernel
  obtain ⟨hiff, hsegment⟩ := tokens_segment_texts "12.5//x_1 [3.]"
  exact ⟨hiff.mp ⟨_, htokens⟩, (hsegment _ htokens).2.2⟩

end Flowchart.Token
