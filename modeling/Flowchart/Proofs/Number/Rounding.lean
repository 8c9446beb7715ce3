import Mathlib.Tactic.NormNum
import Mathlib.Tactic.Ring

/-!
# Rounding of quotients

A quotient of natural numbers, scaled by a power of two, is rounded to 53 bits. The rounded
number is out of the range of doubles exactly if the quotient is at least `2 ^ 1024 - 2 ^ 970`.
-/

namespace Flowchart.Number

open Float.Model Float.Model.UnpackedFloat

/-! ## Packing -/

/-- The numbers that an exponent and a mantissa stand for. -/
inductive Unpacked (e : BitVec 11) (m : BitVec 52) : UnpackedFloat → Prop
  | infinity (s : Sign) : e = -1#11 → m = 0#52 → Unpacked e m (.infinity s)
  | notANumber : e = -1#11 → m ≠ 0#52 → Unpacked e m .notANumber
  | zero (s : Sign) : e ≠ -1#11 → Unpacked e m (.zero s)
  | finite (s : Sign) {n : Nat} {x : Int} (h : 0 < n) :
      e ≠ -1#11 → n < 2 ^ 53 → x = max (e.toNat : Int) 1 - 1075 → Unpacked e m (.finite s n x h)

theorem unpacked_unpack (b : BitVec Format.binary64.numBits) :
    Unpacked (unpackExponent b) (unpackMantissa b) (UnpackedFloat.unpack Format.binary64 b) := by
  have hbias : Format.exponentBias Format.binary64 = 1023 := rfl
  unfold UnpackedFloat.unpack
  dsimp only
  by_cases hones : unpackExponent b = -1#11
  · rw [if_pos hones]
    by_cases hm : unpackMantissa b = 0#52
    · rw [if_pos hm]
      exact .infinity _ hones hm
    · rw [if_neg hm]
      exact .notANumber hones hm
  · rw [if_neg hones]
    have hlt : (unpackMantissa b).toNat < 2 ^ 52 := (unpackMantissa b).isLt
    by_cases hzero : unpackExponent b = 0#11
    · rw [if_pos hzero]
      by_cases hm : unpackMantissa b = 0#52
      · rw [dif_pos hm]
        exact .zero _ hones
      · rw [dif_neg hm]
        exact .finite _ _ hones (by omega) (by rw [hbias, hzero]; rfl)
    · rw [if_neg hzero]
      have hpos : (unpackExponent b).toNat ≠ 0 := fun h => hzero (BitVec.eq_of_toNat_eq h)
      exact .finite _ _ hones (BitVec.isLt _) (by rw [hbias]; omega)

theorem unpacked_packComponents (s : Sign) (e : BitVec 11) (m : BitVec 52) :
    Unpacked e m (UnpackedFloat.unpack Format.binary64 (packComponents Format.binary64 s e m)) := by
  have h := unpacked_unpack (packComponents Format.binary64 s e m)
  rwa [unpackExponent_packComponents, unpackMantissa_packComponents] at h

theorem isInf_unpack_packComponents (s : Sign) (e : BitVec 11) (m : BitVec 52) :
    (UnpackedFloat.unpack Format.binary64 (packComponents Format.binary64 s e m)).isInf
      = decide (e = -1#11 ∧ m = 0#52) := by
  have h := unpacked_packComponents s e m
  generalize UnpackedFloat.unpack Format.binary64 (packComponents Format.binary64 s e m) = x at h
  cases h with
  | infinity _ he hm => simp [UnpackedFloat.isInf, he, hm]
  | notANumber _ hm => simp [UnpackedFloat.isInf, hm]
  | zero _ he => simp only [UnpackedFloat.isInf, he, false_and, decide_false]
  | finite _ _ he => simp only [UnpackedFloat.isInf, he, false_and, decide_false]

theorem isInf_pack_finite (s : Sign) (m : Nat) (e : Int) (hm : 0 < m) :
    (Float.Model.pack (.finite s m e hm)).isInf = decide (972 ≤ e) := by
  unfold Float.Model.isInf Float.Model.unpack Float.Model.pack UnpackedFloat.pack packedInfinity
  dsimp only
  have hbias : ((e + (Format.exponentBias Format.binary64 : Nat) + (52 : Nat)).toNat : Int) =
      max (e + 1075) 0 := by
    simp [Format.exponentBias]; omega
  split_ifs with h₁ h₂
  · rw [isInf_unpack_packComponents]
    simp
    omega
  · rw [isInf_unpack_packComponents]
    have hne :
        BitVec.ofNat 11 (e + (Format.exponentBias Format.binary64 : Nat) + (52 : Nat)).toNat ≠
        -1#11 := by
      intro h
      have hnat := congrArg BitVec.toNat h
      rw [BitVec.toNat_ofNat] at hnat
      simp at h₁ hnat
      omega
    simp only [hne, false_and, decide_false]
    simp at h₁ ⊢
    omega
  · rw [isInf_unpack_packComponents]
    simp
    omega

/-! ## Rounding -/

theorem shiftRight_succ (em : ExtendedMantissa) (n : Nat) :
    em >>> (n + 1) = (em >>> n).shiftRightOne := rfl

theorem mantissa_shiftRight (em : ExtendedMantissa) (n : Nat) :
    (em >>> n).mantissa = em.mantissa / 2 ^ n := by
  induction n with
  | zero => simp [HShiftRight.hShiftRight, Nat.repeat]
  | succ n ih =>
    rw [shiftRight_succ, ExtendedMantissa.shiftRightOne, ih, Nat.div_div_eq_div_mul, Nat.pow_succ]

theorem roundedMantissa_bounds (em : ExtendedMantissa) :
    em.mantissa ≤ em.roundedMantissa ∧ em.roundedMantissa ≤ em.mantissa + 1 := by
  obtain ⟨m, r, s⟩ := em
  unfold ExtendedMantissa.roundedMantissa ExtendedMantissa.accuracy Accuracy.roundToNearestEven
  cases r <;> cases s <;> simp
  omega

theorem mantissa_ofMantissaAndAccuracy (m : Nat) (acc : Accuracy) :
    (ExtendedMantissa.ofMantissaAndAccuracy m acc).mantissa = m := by
  unfold ExtendedMantissa.ofMantissaAndAccuracy
  split <;> rfl

/-- The exponent at which a mantissa keeps no more than 53 bits. -/
def unitExponent (m : Nat) (e : Int) : Int := max e (max (m.log2 + e - 52) (-1074))

theorem shiftToTargetExponent_eq (m : Nat) (e : Int) (acc : Accuracy) :
    shiftToTargetExponent Format.binary64 m e acc =
      (ExtendedMantissa.ofMantissaAndAccuracy m acc >>> (unitExponent m e - e).toNat,
        unitExponent m e) := by
  unfold shiftToTargetExponent shiftToExponent unitExponent
  have htarget : Format.binary64.targetExponent (totalExponent m e) =
      max (m.log2 + e - 52) (-1074) := by
    have hbits : Format.binary64.mantissaBits = 53 := rfl
    have hmin : Format.binary64.minExponent = -1074 := rfl
    unfold Format.targetExponent totalExponent
    omega
  have hshift : (max e (max ((m.log2 : Int) + e - 52) (-1074)) - e).toNat
      = (max ((m.log2 : Int) + e - 52) (-1074) - e).toNat := by omega
  simp only [htarget, hshift, Prod.mk.injEq, true_and]
  omega

theorem div_two_pow_lt (m : Nat) (e : Int) : m / 2 ^ (unitExponent m e - e).toNat < 2 ^ 53 := by
  have hlog : m.log2 + 1 ≤ 53 + (unitExponent m e - e).toNat := by
    unfold unitExponent
    omega
  apply (Nat.div_lt_iff_lt_mul (Nat.two_pow_pos _)).mpr
  rw [← Nat.pow_add]
  exact Nat.lt_of_lt_of_le Nat.lt_log2_self (Nat.pow_le_pow_right (by decide) hlog)

section

variable (s : Sign) (m : Nat) (e : Int) (acc : Accuracy)

def rounded : Nat :=
  (ExtendedMantissa.ofMantissaAndAccuracy m acc >>> (unitExponent m e - e).toNat).roundedMantissa

theorem rounded_bounds :
    m / 2 ^ (unitExponent m e - e).toNat ≤ rounded m e acc ∧ rounded m e acc ≤ 2 ^ 53 := by
  have h :=
    roundedMantissa_bounds (ExtendedMantissa.ofMantissaAndAccuracy m acc >>>
      (unitExponent m e - e).toNat)
  rw [mantissa_shiftRight, mantissa_ofMantissaAndAccuracy] at h
  have hlt := div_two_pow_lt m e
  unfold rounded
  omega

theorem rounded_ne_zero (hm : m ≠ 0) (h : (unitExponent m e - e).toNat ≤ m.log2) :
    rounded m e acc ≠ 0 := by
  have hle : 2 ^ (unitExponent m e - e).toNat ≤ m :=
    Nat.le_trans (pow_le_pow_right₀ one_le_two h) (Nat.log2_self_le hm)
  have hpos : 1 ≤ m / 2 ^ (unitExponent m e - e).toNat :=
    (Nat.one_le_div_iff (Nat.two_pow_pos _)).mpr hle
  have hbounds := (rounded_bounds m e acc).1
  omega

theorem unitExponent_of_lt {r : Nat} {u : Int} (hr : r < 2 ^ 53) (hu : -1074 ≤ u) :
    unitExponent r u = u := by
  have hlog : r.log2 ≤ 52 := by
    by_cases h : r = 0
    · simp [h]
    · exact Nat.le_of_lt_succ ((Nat.log2_lt h).mpr hr)
  unfold unitExponent
  omega

theorem unitExponent_two_pow {u : Int} (hu : -1074 ≤ u) : unitExponent (2 ^ 53) u = u + 1 := by
  unfold unitExponent
  rw [Nat.log2_two_pow]
  omega

theorem isInf_pack_zero : (Float.Model.pack (.zero s)).isInf = false := by
  cases s <;> decide

/-- The number of a mantissa and an exponent. -/
def signed : UnpackedFloat := if h : m = 0 then .zero s else .finite s m e (Nat.pos_of_ne_zero h)

theorem isInf_pack_signed : (Float.Model.pack (signed s m e)).isInf ↔ m ≠ 0 ∧ 972 ≤ e := by
  unfold signed
  by_cases hm : m = 0
  · rw [dif_pos hm, isInf_pack_zero]
    simp [hm]
  · rw [dif_neg hm, isInf_pack_finite, decide_eq_true_eq]
    exact (and_iff_right hm).symm

/-- Rounding up to `2 ^ 53` moves on to the next exponent. -/
theorem roundWithAccuracy_eq :
    roundWithAccuracy Format.binary64 s m e acc =
      if rounded m e acc = 2 ^ 53 then signed s (2 ^ 52) (unitExponent m e + 1)
      else signed s (rounded m e acc) (unitExponent m e) := by
  have hle := (rounded_bounds m e acc).2
  have hunit : -1074 ≤ unitExponent m e := by unfold unitExponent; omega
  unfold roundWithAccuracy
  rw [shiftToTargetExponent_eq]
  dsimp only
  rw [shiftToTargetExponent_eq, ← rounded]
  dsimp only
  rw [← signed, mantissa_shiftRight, mantissa_ofMantissaAndAccuracy]
  split_ifs with hr
  · have hone : (unitExponent m e + 1 - unitExponent m e).toNat = 1 := by omega
    rw [hr, unitExponent_two_pow hunit, hone]
    rfl
  · rw [unitExponent_of_lt (Nat.lt_of_le_of_ne hle hr) hunit, Int.sub_self, Int.toNat_zero,
      Nat.pow_zero, Nat.div_one]

theorem isInf_roundWithAccuracy :
    (Float.Model.pack (roundWithAccuracy Format.binary64 s m e acc)).isInf ↔
      rounded m e acc ≠ 0 ∧
        (972 ≤ unitExponent m e ∨ 971 ≤ unitExponent m e ∧ rounded m e acc = 2 ^ 53) := by
  rw [roundWithAccuracy_eq]
  split_ifs with hr
  · rw [isInf_pack_signed]
    omega
  · rw [isInf_pack_signed]
    omega

end

/-! ## Quotients -/

/-- A quotient as it is kept while it is rounded: its whole part, and where the rest lies to a
half. -/
def residue (num den : Nat) : ExtendedMantissa where
  mantissa := num / den
  roundBit := decide (den ≤ 2 * (num % den))
  stickyBit := decide (num % den ≠ 0 ∧ 2 * (num % den) ≠ den)

theorem ofMantissaAndAccuracy_fraction {num den : Nat} (hden : 0 < den) :
    ExtendedMantissa.ofMantissaAndAccuracy (num / den) (accuracyOfFraction (num % den) den) =
      residue num den := by
  unfold accuracyOfFraction residue
  split_ifs with h
  · simp [ExtendedMantissa.ofMantissaAndAccuracy, h]
    omega
  · rcases hc : compare (2 * (num % den)) den with _ | _ | _
    · have hlt := Nat.compare_eq_lt.mp hc
      simp [ExtendedMantissa.ofMantissaAndAccuracy]
      omega
    · have heq := Nat.compare_eq_eq.mp hc
      simp [ExtendedMantissa.ofMantissaAndAccuracy]
      omega
    · have hgt := Nat.compare_eq_gt.mp hc
      simp [ExtendedMantissa.ofMantissaAndAccuracy]
      omega

theorem shiftRightOne_residue {num den : Nat} (hden : 0 < den) :
    (residue num den).shiftRightOne = residue num (den * 2) := by
  have hdiv : num / (den * 2) = num / den / 2 := (Nat.div_div_eq_div_mul num den 2).symm
  have hmod : num % (den * 2) = num % den + den * (num / den % 2) := Nat.mod_mul
  have hlt := Nat.mod_lt num hden
  unfold residue ExtendedMantissa.shiftRightOne
  rw [hdiv, hmod]
  rcases Nat.mod_two_eq_zero_or_one (num / den) with hbit | hbit <;> simp [hbit] <;> grind

theorem shiftRight_residue {num den : Nat} (hden : 0 < den) (n : Nat) :
    residue num den >>> n = residue num (den * 2 ^ n) := by
  induction n with
  | zero => simp [HShiftRight.hShiftRight, Nat.repeat]
  | succ n ih =>
    rw [shiftRight_succ, ih, shiftRightOne_residue (Nat.mul_pos hden (Nat.two_pow_pos n)),
      Nat.pow_succ, Nat.mul_assoc]

theorem roundedMantissa_odd {em : ExtendedMantissa} (hodd : em.mantissa % 2 = 1) :
    em.roundedMantissa = em.mantissa + 1 ↔ em.roundBit := by
  obtain ⟨m, r, s⟩ := em
  unfold ExtendedMantissa.roundedMantissa ExtendedMantissa.accuracy Accuracy.roundToNearestEven
  cases r <;> cases s <;> simp_all

theorem roundedMantissa_residue {num den : Nat} (hden : 0 < den) (hlt : num / den < 2 ^ 53) :
    (residue num den).roundedMantissa = 2 ^ 53 ↔ (2 ^ 54 - 1) * den ≤ 2 * num := by
  have hsplit : num = num / den * den + num % den := (Nat.div_add_mod' num den).symm
  have hmod := Nat.mod_lt num hden
  by_cases hlast : (residue num den).mantissa = 2 ^ 53 - 1
  · have hodd : (residue num den).mantissa % 2 = 1 := by omega
    have hup := roundedMantissa_odd hodd
    rw [hlast] at hup
    refine hup.trans ?_
    have hq : num / den = 2 ^ 53 - 1 := hlast
    rw [hq] at hsplit
    simp only [residue, decide_eq_true_eq]
    omega
  · have hq : num / den ≠ 2 ^ 53 - 1 := hlast
    have hbound : num / den * den ≤ (2 ^ 53 - 2) * den := Nat.mul_le_mul_right den (by omega)
    have hrounded : (residue num den).roundedMantissa ≤ num / den + 1 :=
      (roundedMantissa_bounds _).2
    omega

/-- Half a unit above the largest double. -/
def overflow : Nat := 2 ^ 1024 - 2 ^ 970

theorem overflow_eq : overflow = (2 ^ 54 - 1) * 2 ^ 970 := by
  rw [overflow, Nat.sub_mul, ← Nat.pow_add, Nat.one_mul]

theorem two_pow_le_overflow {n : Nat} (h : n ≤ 1023) : 2 ^ n ≤ overflow := by
  have hsplit : 2 ^ 1023 = 2 ^ 53 * 2 ^ 970 := by rw [← pow_add]
  have hle : 2 ^ n ≤ 2 ^ 1023 := pow_le_pow_right₀ one_le_two h
  rw [hsplit] at hle
  rw [overflow_eq]
  exact Nat.le_trans hle (Nat.mul_le_mul_right _ (by decide))

theorem overflow_le : overflow ≤ 2 ^ 1024 := Nat.sub_le _ _

theorem overflow_le_ten_pow : overflow ≤ 10 ^ 400 := by
  decide +kernel

-- Its powers are too large to be computed.
attribute [irreducible] overflow

theorem two_mul_overflow (den n : Nat) :
    (2 ^ 54 - 1) * (den * 2 ^ (971 + n)) = 2 * (overflow * 2 ^ n * den) := by
  have hpow : 2 ^ (971 + n) = 2 * (2 ^ 970 * 2 ^ n) := by
    rw [← Nat.pow_add, ← Nat.pow_succ']
    congr 1
    omega
  rw [overflow_eq, hpow]
  generalize 2 ^ 970 = p
  generalize 2 ^ 54 - 1 = q
  ring

theorem ne_zero_of_lt_log2 {m k : Nat} (h : k < m.log2) : m ≠ 0 := by
  rintro rfl
  exact absurd h (by simp)

section Quotients

variable {num den n : Nat} (hden : 0 < den)
include hden

theorem lt_overflow_of_log2 (h : (num / den).log2 < 1023 + n) : num < overflow * 2 ^ n * den := by
  have hpow : 2 ^ ((num / den).log2 + 1) ≤ 2 ^ (1023 + n) := pow_le_pow_right₀ one_le_two h
  have hbound : 2 ^ 1023 ≤ overflow := two_pow_le_overflow (Nat.le_refl 1023)
  calc num < 2 ^ ((num / den).log2 + 1) * den := (Nat.div_lt_iff_lt_mul hden).mp Nat.lt_log2_self
    _ ≤ 2 ^ (1023 + n) * den := Nat.mul_le_mul_right den hpow
    _ = 2 ^ 1023 * 2 ^ n * den := by rw [pow_add]
    _ ≤ overflow * 2 ^ n * den := Nat.mul_le_mul_right den (Nat.mul_le_mul_right (2 ^ n) hbound)

omit hden in
theorem overflow_le_of_log2 (h : 1023 + n < (num / den).log2) : overflow * 2 ^ n * den ≤ num := by
  have hne := ne_zero_of_lt_log2 h
  have hpow : 2 ^ (1024 + n) ≤ 2 ^ (num / den).log2 := pow_le_pow_right₀ one_le_two (by omega)
  calc overflow * 2 ^ n * den ≤ 2 ^ 1024 * 2 ^ n * den :=
        Nat.mul_le_mul_right den (Nat.mul_le_mul_right (2 ^ n) overflow_le)
    _ = 2 ^ (1024 + n) * den := by rw [pow_add]
    _ ≤ 2 ^ (num / den).log2 * den := Nat.mul_le_mul_right den hpow
    _ ≤ num / den * den := Nat.mul_le_mul_right den (Nat.log2_self_le hne)
    _ ≤ num := Nat.div_mul_le_self num den

/-- In the last binade the quotient is rounded up to the next one exactly from the bound on. -/
theorem rounded_last_binade (h : (num / den).log2 = 1023 + n) :
    rounded (num / den) (-n) (accuracyOfFraction (num % den) den) = 2 ^ 53 ↔
      overflow * 2 ^ n * den ≤ num := by
  have hunit : unitExponent (num / den) (-n) = 971 := by unfold unitExponent; omega
  have hshift : (971 - -(n : Int)).toNat = 971 + n := by omega
  have hlt : num / (den * 2 ^ (971 + n)) < 2 ^ 53 := by
    have hfit := div_two_pow_lt (num / den) (-n)
    rwa [hunit, hshift, Nat.div_div_eq_div_mul] at hfit
  have hrounded : rounded (num / den) (-n) (accuracyOfFraction (num % den) den)
      = (residue num (den * 2 ^ (971 + n))).roundedMantissa := by
    rw [rounded, hunit, hshift, ofMantissaAndAccuracy_fraction hden, shiftRight_residue hden]
  have hround := roundedMantissa_residue (Nat.mul_pos hden (Nat.two_pow_pos (971 + n))) hlt
  rw [two_mul_overflow] at hround
  rw [hrounded, hround]
  omega

theorem isInf_quotient (s : Sign) :
    (Float.Model.pack (roundWithAccuracy Format.binary64 s (num / den) (-n)
      (accuracyOfFraction (num % den) den))).isInf ↔ overflow * 2 ^ n * den ≤ num := by
  rw [isInf_roundWithAccuracy]
  rcases Nat.lt_trichotomy (num / den).log2 (1023 + n) with hlog | hlog | hlog
  · have hunit : unitExponent (num / den) (-n) ≤ 970 := by unfold unitExponent; omega
    have hsmall := lt_overflow_of_log2 hden hlog
    omega
  · have hunit : unitExponent (num / den) (-n) = 971 := by unfold unitExponent; omega
    have hround := rounded_last_binade hden hlog
    rw [hunit]
    omega
  · have hunit : unitExponent (num / den) (-n) = (num / den).log2 - n - 52 := by
      unfold unitExponent; omega
    have hnonzero :=
      rounded_ne_zero _ (-n) (accuracyOfFraction (num % den) den) (ne_zero_of_lt_log2 hlog)
        (by omega)
    exact iff_of_true ⟨hnonzero, Or.inl (by omega)⟩ (overflow_le_of_log2 hlog)

end Quotients

end Flowchart.Number
