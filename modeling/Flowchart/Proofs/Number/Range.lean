import Flowchart.Number.Literal
import Flowchart.Proofs.Number.Rounding
import Flowchart.Token.Scan
import Mathlib.Data.List.Basic

/-!
# The range of number literals

A number written with digits and a point has a value exactly if it stays below half a unit
above the largest double.
-/

namespace Flowchart.Number

open Float.Model Float.Model.UnpackedFloat

/-! ## Doubles far from the end of the range -/

inductive Moderate : UnpackedFloat → Prop
  | zero (s : Sign) : Moderate (.zero s)
  | finite (s : Sign) {m : Nat} {e : Int} (h : 0 < m) :
      m < 2 ^ 53 → e ≤ 100 → Moderate (.finite s m e h)

theorem moderate_unpack_packComponents (s : Sign) {e : BitVec 11} (m : BitVec 52)
    (he : e.toNat ≤ 1175) :
    Moderate (UnpackedFloat.unpack Format.binary64 (packComponents Format.binary64 s e m)) := by
  have hones : e ≠ -1#11 := by
    rintro rfl
    exact absurd he (by decide)
  have h := unpacked_packComponents s e m
  generalize UnpackedFloat.unpack Format.binary64 (packComponents Format.binary64 s e m) = x at h
  cases h with
  | infinity _ h => exact absurd h hones
  | notANumber h => exact absurd h hones
  | zero s => exact .zero s
  | finite s hpos _ hlt hx => exact .finite s hpos hlt (by omega)

theorem moderate_pack_finite (s : Sign) (m : Nat) {e : Int} (hm : 0 < m) (he : e ≤ 100) :
    Moderate (Float.Model.pack (.finite s m e hm)).unpack := by
  have hbias : Format.exponentBias Format.binary64 = 1023 := rfl
  unfold Float.Model.unpack Float.Model.pack UnpackedFloat.pack
  dsimp only
  rw [hbias, if_neg (by push_cast; omega)]
  split_ifs
  · apply moderate_unpack_packComponents
    rw [BitVec.toNat_ofNat]
    push_cast
    omega
  · exact moderate_unpack_packComponents _ _ (by simp)

theorem unpack_pack_zero (s : Sign) : (Float.Model.pack (.zero s)).unpack = .zero s := by
  cases s <;> rfl

theorem moderate_signed (s : Sign) (m : Nat) {e : Int} (he : e ≤ 100) :
    Moderate (Float.Model.pack (signed s m e)).unpack := by
  unfold signed
  by_cases hm : m = 0
  · rw [dif_pos hm, unpack_pack_zero]
    exact .zero s
  · rw [dif_neg hm]
    exact moderate_pack_finite _ _ _ he

theorem moderate_roundWithAccuracy (s : Sign) {m : Nat} {e : Int} (acc : Accuracy)
    (h : unitExponent m e ≤ 99) :
    Moderate (Float.Model.pack (roundWithAccuracy Format.binary64 s m e acc)).unpack := by
  rw [roundWithAccuracy_eq]
  split_ifs
  · exact moderate_signed _ _ (by omega)
  · exact moderate_signed _ _ (by omega)

theorem isInf_of_unitExponent (s : Sign) {m : Nat} {e : Int} (acc : Accuracy)
    (h : unitExponent m e ≤ 970) :
    (Float.Model.pack (roundWithAccuracy Format.binary64 s m e acc)).isInf = false := by
  rw [Bool.eq_false_iff, Ne, isInf_roundWithAccuracy]
  omega

theorem log2_lt_of_lt {m k : Nat} (hk : 0 < k) (h : m < 2 ^ k) : m.log2 < k := by
  by_cases hm : m = 0
  · simpa [hm] using hk
  · exact (Nat.log2_lt hm).mpr h

def isScale : UnpackedFloat → Bool
  | .finite _ m e _ => decide (m < 2 ^ 53 ∧ -100 ≤ e ∧ e ≤ 100)
  | _ => false

theorem isInf_pack_mul {u v : UnpackedFloat} (hu : Moderate u) (hv : isScale v) :
    (Float.Model.pack (UnpackedFloat.mul Format.binary64 u v)).isInf = false := by
  cases v with
  | finite t n f hn =>
    have hscale : n < 2 ^ 53 ∧ -100 ≤ f ∧ f ≤ 100 := of_decide_eq_true hv
    cases hu with
    | zero s => exact isInf_pack_zero _
    | @finite s m e hm hlt he =>
      apply isInf_of_unitExponent
      have hprod : m * n < 2 ^ 53 * 2 ^ 53 := Nat.mul_lt_mul'' hlt hscale.1
      rw [← Nat.pow_add] at hprod
      have hlog := log2_lt_of_lt (by decide) hprod
      unfold unitExponent
      omega
  | _ => cases hv

theorem isInf_pack_div {u v : UnpackedFloat} (hu : Moderate u) (hv : isScale v) :
    (Float.Model.pack (UnpackedFloat.div Format.binary64 u v)).isInf = false := by
  cases v with
  | finite t n f hn =>
    have hscale : n < 2 ^ 53 ∧ -100 ≤ f ∧ f ≤ 100 := of_decide_eq_true hv
    cases hu with
    | zero s => exact isInf_pack_zero _
    | @finite s m e hm hlt he =>
      unfold UnpackedFloat.div divCore
      apply isInf_of_unitExponent
      generalize ht :
        min (e - f) (Format.binary64.targetExponent (totalExponent m e - totalExponent n f)) = t
      have htarget : t ≤ e - f := by omega
      have hquot : m <<< (e - f - t).toNat / n < 2 ^ (53 + (e - f - t).toNat) := by
        rw [Nat.shiftLeft_eq, Nat.pow_add]
        exact Nat.lt_of_le_of_lt (Nat.div_le_self _ _)
          (Nat.mul_lt_mul_of_pos_right hlt (Nat.two_pow_pos _))
      have hlog := log2_lt_of_lt (by omega) hquot
      unfold unitExponent
      omega
  | _ => cases hv

theorem isScale_power : ∀ x ∈ Float.exactlyRepresentablePowersOfTen, isScale x.toModel.unpack := by
  decide +kernel

theorem moderate_toFloat {m : Nat} (hm : m < 2 ^ 53) :
    Moderate m.toUInt64.toFloat.toModel.unpack := by
  have hnat : m.toUInt64.toNat = m := by
    rw [UInt64.toNat_ofNat']
    omega
  unfold UInt64.toFloat Float.Model.ofUInt64 UnpackedFloat.ofUInt64 UnpackedFloat.ofNat
    UnpackedFloat.ofInt UnpackedFloat.normalize
  rw [hnat]
  split
  · rename_i h
    exact absurd (Int.compare_eq_lt.mp h) (by omega)
  · rw [unpack_pack_zero]
    exact .zero _
  · unfold UnpackedFloat.round decreaseExponent
    apply moderate_roundWithAccuracy
    generalize (0 - Format.binary64.targetExponent (totalExponent (m : Int).toNat 0)).toNat = k
    have hshifted : (m : Int).toNat <<< k < 2 ^ (53 + k) := by
      rw [Int.toNat_natCast, Nat.shiftLeft_eq, Nat.pow_add]
      exact Nat.mul_lt_mul_of_pos_right hm (Nat.two_pow_pos k)
    have hlog := log2_lt_of_lt (by omega) hshifted
    unfold unitExponent
    omega

/-! ## Decimal fractions -/

theorem overflow_pos : 0 < overflow := by
  rw [overflow_eq]
  positivity

theorem lt_overflow {m k : Nat} (h : m < 10 ^ k) : m < overflow * 10 ^ k :=
  Nat.lt_of_lt_of_le h (Nat.le_mul_of_pos_left _ overflow_pos)

theorem isInf_iff_of_false {b : Bool} {m bound : Nat} (hb : b = false) (hm : m < bound) :
    b ↔ bound ≤ m := by
  simp only [hb, Bool.false_eq_true, false_iff]
  omega

theorem scaled_overflow_le_iff (m n d : Nat) :
    overflow * 2 ^ n * d ≤ m <<< n ↔ overflow * d ≤ m := by
  rw [Nat.shiftLeft_eq, Nat.mul_right_comm, Nat.mul_le_mul_right_iff (Nat.two_pow_pos n)]

theorem isInf_ofScientific_model (m k : Nat) :
    (Float.Model.ofScientific m (-k)).isInf ↔ overflow * 10 ^ k ≤ m := by
  have hbits : (2 : Int) ^ Format.binary64.exponentBits = 2048 := rfl
  unfold Float.Model.ofScientific UnpackedFloat.ofScientific
  by_cases hm : m = 0
  · have hlt : m < 10 ^ k := by
      rw [hm]
      positivity
    rw [dif_pos hm]
    exact isInf_iff_of_false (isInf_pack_zero _) (lt_overflow hlt)
  rw [dif_neg hm, if_neg (by omega)]
  by_cases htiny : -(k : Int) < -(2 ^ Format.binary64.exponentBits + m.log2)
  · have hlt : m < 10 ^ k := calc
      m < 2 ^ (m.log2 + 1) := Nat.lt_log2_self
      _ ≤ 2 ^ k := Nat.pow_le_pow_right Nat.two_pos (by omega)
      _ ≤ 10 ^ k := Nat.pow_le_pow_left (by decide) k
    rw [if_pos htiny]
    exact isInf_iff_of_false (isInf_pack_zero _) (lt_overflow hlt)
  rw [if_neg htiny]
  by_cases hk : 0 ≤ -(k : Int)
  · have hzero : k = 0 := by omega
    subst hzero
    rw [if_pos hk]
    have hquot := @isInf_quotient (m <<< 53) 1 53 Nat.one_pos (Sign.positive * Sign.positive)
    rw [scaled_overflow_le_iff, Nat.div_one, Nat.mod_one, ← Nat.mul_one (m <<< 53)] at hquot
    rw [Nat.pow_zero]
    exact hquot
  · have hden : 0 < 10 ^ (- -(k : Int)).toNat := by positivity
    rw [if_neg hk]
    unfold UnpackedFloat.div divCore
    dsimp only
    generalize ht : min (0 - 0 : Int) (Format.binary64.targetExponent
      (totalExponent m 0 - totalExponent (10 ^ (- -(k : Int)).toNat) 0)) = t
    obtain ⟨n, hn⟩ : ∃ n : Nat, t = -n := ⟨(-t).toNat, by omega⟩
    have hshift : (0 - 0 - t).toNat = n := by omega
    rw [hshift, hn, isInf_quotient hden, scaled_overflow_le_iff, Int.neg_neg, Int.toNat_natCast]

theorem isInf_ofScientific_short {m k : Nat} (down : Bool) (h : m < 2 ^ 53 ∧ k ≤ 22) :
    (Float.ofScientific m down k).isInf = false := by
  unfold Float.ofScientific
  rw [dif_pos h]
  have hpower : k < Float.exactlyRepresentablePowersOfTen.size := Nat.lt_succ_of_le h.2
  have hunit := isScale_power _ (Array.getElem_mem hpower)
  split_ifs
  · exact isInf_pack_div (moderate_toFloat h.1) hunit
  · exact isInf_pack_mul (moderate_toFloat h.1) hunit

/-- A number with `k` digits behind its point is out of range from half a unit above the largest
double on. -/
theorem isInf_ofScientific {m k : Nat} {down : Bool} (hdown : down = false → k = 0) :
    (Float.ofScientific m down k).isInf ↔ overflow * 10 ^ k ≤ m := by
  by_cases h : m < 2 ^ 53 ∧ k ≤ 22
  · have hsmall : m < overflow * 10 ^ k := calc
      m < 2 ^ 53 := h.1
      _ ≤ overflow := two_pow_le_overflow (by decide)
      _ ≤ overflow * 10 ^ k := Nat.le_mul_of_pos_right _ (by positivity)
    exact isInf_iff_of_false (isInf_ofScientific_short down h) hsmall
  · unfold Float.ofScientific
    rw [dif_neg h]
    cases down with
    | false =>
      obtain rfl := hdown rfl
      exact isInf_ofScientific_model m 0
    | true =>
      have hneg : Int.negOfNat k = -(k : Int) := Int.negOfNat_eq
      simp only [if_true, hneg]
      exact isInf_ofScientific_model m k

theorem isInf_nearestDecimal (m k : Nat) :
    (nearestDecimal false m (-k)).isInf ↔ overflow * 10 ^ k ≤ m := by
  unfold nearestDecimal
  simp only [Bool.false_eq_true, if_false]
  split_ifs with hm htop htiny hk
  · have hlt : m < 10 ^ k := by
      rw [hm]
      positivity
    exact isInf_iff_of_false (by decide +kernel) (lt_overflow hlt)
  · have hinf : (infinity false).isInf = true := by decide +kernel
    have hlength : ¬ (Nat.toDigits 10 m).length ≤ 400 + k := by omega
    rw [Nat.length_toDigits_le_iff (by decide) (by omega), Nat.not_lt] at hlength
    refine iff_of_true hinf ?_
    rw [pow_add] at hlength
    have hle := Nat.mul_le_mul_right (10 ^ k) overflow_le_ten_pow
    exact Nat.le_trans hle hlength
  · have hlength : (Nat.toDigits 10 m).length ≤ k := by omega
    rw [Nat.length_toDigits_le_iff (by decide) (by omega)] at hlength
    exact isInf_iff_of_false (by decide +kernel) (lt_overflow hlength)
  · have hzero : k = 0 := by omega
    have hexp : (-(k : Int)).toNat = k := by omega
    rw [hexp]
    exact isInf_ofScientific (fun _ => hzero)
  · rw [Int.neg_neg, Int.toNat_natCast]
    exact isInf_ofScientific nofun

/-! ## Literals of digits and a point -/

def isNumeric (c : Char) : Bool := isDigit c || c == '.'

theorem toNat_of_isDigit {c : Char} (h : isDigit c) : 48 ≤ c.toNat ∧ c.toNat ≤ 57 := by
  simp only [isDigit, Bool.and_eq_true, decide_eq_true_eq] at h
  exact h

theorem toNat_of_isNumeric {c : Char} (h : isNumeric c) : 46 ≤ c.toNat ∧ c.toNat ≤ 57 := by
  simp only [isNumeric, Bool.or_eq_true, beq_iff_eq] at h
  rcases h with h | rfl
  · have hc := toNat_of_isDigit h
    omega
  · decide

theorem ne_of_isNumeric {c d : Char} (h : isNumeric c) (hd : 57 < d.toNat ∨ d.toNat < 46) :
    c ≠ d := by
  rintro rfl
  have hc := toNat_of_isNumeric h
  omega

theorem lower_of_isNumeric {c : Char} (h : isNumeric c) : lower c = c := by
  have hc := toNat_of_isNumeric h
  unfold lower
  rw [if_neg]
  simp only [Bool.and_eq_true, decide_eq_true_eq, not_and]
  intro hA
  have hmin : 65 ≤ c.toNat := hA
  omega

theorem takeMantissa_digits {ds : List Char} (hds : ∀ c ∈ ds, isDigit c) (m : Mantissa)
    (rest : List Char) :
    takeMantissa 10 isDigit m (ds ++ rest) =
      takeMantissa 10 isDigit
        ⟨Nat.ofDigitChars 10 ds m.value, if m.point then m.places + ds.length else m.places,
          m.anyDigit || !ds.isEmpty, m.point⟩ rest := by
  induction ds generalizing m with
  | nil => simp
  | cons d ds ih =>
    obtain ⟨hd, hrest⟩ := List.forall_mem_cons.mp hds
    rw [List.cons_append, takeMantissa, if_pos hd, ih hrest]
    have hvalue : (digitValue? d).getD 0 = d.toNat - '0'.toNat := by
      rw [digitValue?, if_pos hd]
      rfl
    simp only [hvalue, Nat.ofDigitChars_cons, Nat.mul_comm m.value 10]
    congr 1
    cases m.point <;> simp
    omega

theorem literal_of_numeric {c : Char} {cs : List Char} {m : Mantissa} (hc : isDigit c)
    (hcs : ∀ d ∈ cs, isNumeric d)
    (hm : takeMantissa 10 isDigit ⟨0, 0, false, false⟩ (c :: cs) = (m, []))
    (hany : m.anyDigit = true) :
    literal? (String.ofList (c :: cs)) = none ↔
      (nearestDecimal false m.value (-m.places)).isInf := by
  have hnum : isNumeric c := by simp [isNumeric, hc]
  have hall : ∀ d ∈ c :: cs, isNumeric d := List.forall_mem_cons.mpr ⟨hnum, hcs⟩
  have hsign : takeSign (c :: cs) = (false, c :: cs) := by
    unfold takeSign
    split
    · rename_i heq
      cases heq
      exact absurd hc (by decide)
    · rename_i heq
      cases heq
      exact absurd hc (by decide)
    · rfl
  have hword : word? false false (c :: cs) = none := by
    have hlower : (c :: cs).map lower = c :: cs := by
      rw [List.map_congr_left (fun d hd => lower_of_isNumeric (hall d hd)), List.map_id']
    have hi : c ≠ 'i' := ne_of_isNumeric hnum (by decide)
    have hn : c ≠ 'n' := ne_of_isNumeric hnum (by decide)
    unfold word?
    simp [hlower, hi, hn]
  have hunderscore : (c :: cs).contains '_' = false := by
    rw [Bool.eq_false_iff, Ne, List.contains_iff_mem]
    exact fun h => ne_of_isNumeric (hall _ h) (by decide) rfl
  have hdecimal : digits?.decimal? false (c :: cs) =
      some (nearestDecimal false m.value (-m.places)) := by
    unfold digits?.decimal?
    simp [hm, hany, exponent?]
  have hdigits : digits? false (c :: cs) = some (nearestDecimal false m.value (-m.places)) := by
    unfold digits?
    split
    · rename_i x d rest heq
      cases heq
      have hx := hall x (by simp)
      rw [lower_of_isNumeric hx, if_neg (ne_of_isNumeric hx (by decide))]
      exact hdecimal
    · exact hdecimal
  unfold literal?
  simp only [String.toList_ofList, hsign, bne_self_eq_false, hword, hunderscore, hdigits]
  split_ifs <;> simp_all

section Numbers

variable {whole fraction : List Char} (hne : whole ≠ []) (hwhole : ∀ c ∈ whole, isDigit c)
include hne hwhole

theorem literal_whole :
    literal? (String.ofList whole) = none ↔ overflow ≤ Nat.ofDigitChars 10 whole 0 := by
  have hm := takeMantissa_digits hwhole ⟨0, 0, false, false⟩ []
  rw [List.append_nil] at hm
  obtain ⟨c, cs, rfl⟩ := List.exists_cons_of_ne_nil hne
  obtain ⟨hc, hcs⟩ := List.forall_mem_cons.mp hwhole
  have hliteral := literal_of_numeric hc (fun d hd => by simp [isNumeric, hcs d hd]) hm (by simp)
  have hinf := isInf_nearestDecimal (Nat.ofDigitChars 10 (c :: cs) 0) 0
  rw [pow_zero, mul_one] at hinf
  exact hliteral.trans hinf

theorem literal_fraction (hfraction : ∀ c ∈ fraction, isDigit c) :
    literal? (String.ofList (whole ++ '.' :: fraction)) = none ↔
      overflow * 10 ^ fraction.length ≤ Nat.ofDigitChars 10 (whole ++ fraction) 0 := by
  have hm := takeMantissa_digits hwhole ⟨0, 0, false, false⟩ ('.' :: fraction)
  have hpoint :=
    takeMantissa_digits hfraction ⟨Nat.ofDigitChars 10 whole 0, 0, !whole.isEmpty, true⟩ []
  rw [List.append_nil] at hpoint
  rw [takeMantissa, if_neg (by decide), if_neg (by decide), if_pos ⟨rfl, rfl⟩] at hm
  simp only [Bool.false_or, Bool.false_eq_true, if_false] at hm
  rw [hpoint] at hm
  obtain ⟨c, cs, rfl⟩ := List.exists_cons_of_ne_nil hne
  obtain ⟨hc, hcs⟩ := List.forall_mem_cons.mp hwhole
  have hnumeric : ∀ d ∈ cs ++ '.' :: fraction, isNumeric d := by
    simp only [List.mem_append, List.mem_cons, isNumeric]
    rintro d (hd | rfl | hd)
    · simp [hcs d hd]
    · decide
    · simp [hfraction d hd]
  have hliteral := literal_of_numeric hc hnumeric hm (by simp)
  have hinf :=
    isInf_nearestDecimal (Nat.ofDigitChars 10 fraction (Nat.ofDigitChars 10 (c :: cs) 0))
      fraction.length
  rw [if_pos rfl, Nat.zero_add] at hliteral
  rw [Nat.ofDigitChars_append]
  exact hliteral.trans hinf

end Numbers

end Flowchart.Number

namespace Flowchart.Token

open Number

theorem numberValue_whole {whole : List Char} (hne : whole ≠ []) (hwhole : ∀ c ∈ whole, isDigit c) :
    numberValue? (String.ofList whole) = none ↔ overflow ≤ Nat.ofDigitChars 10 whole 0 := by
  have hlast : whole.getLast? ≠ some '.' :=
    fun h => absurd (hwhole _ (List.mem_of_getLast? h)) (by decide)
  unfold numberValue?
  simp only [String.toList_ofList, if_neg hlast]
  exact literal_whole hne hwhole

theorem numberValue_fraction {whole fraction : List Char} (hne : whole ≠ [])
    (hwhole : ∀ c ∈ whole, isDigit c) (hfraction : ∀ c ∈ fraction, isDigit c) :
    numberValue? (String.ofList (whole ++ '.' :: fraction)) = none ↔
      overflow * 10 ^ fraction.length ≤ Nat.ofDigitChars 10 (whole ++ fraction) 0 := by
  unfold numberValue?
  simp only [String.toList_ofList]
  cases fraction with
  | nil =>
    rw [if_pos (by simp), List.dropLast_concat, List.append_nil, List.length_nil, Nat.pow_zero,
      Nat.mul_one]
    exact literal_whole hne hwhole
  | cons d ds =>
    have hlast : (whole ++ '.' :: d :: ds).getLast? ≠ some '.' := by
      rw [List.getLast?_append_cons, List.getLast?_cons_cons]
      exact fun h => absurd (hfraction _ (List.mem_of_getLast? h)) (by decide)
    rw [if_neg hlast]
    exact literal_fraction hne hwhole hfraction

end Flowchart.Token
