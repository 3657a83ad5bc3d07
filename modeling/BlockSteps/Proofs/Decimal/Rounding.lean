import Mathlib
import BlockSteps.Decimal.Truncation

/-!
# Rounding keeps numbers finite

A finite number that is rounded to a whole one stays finite, in whichever direction it is rounded
(`isFinite_floor`, `isFinite_ceiling`, `isFinite_nearest`).  That is why rounding is the one
operation on values without a check of its own.

**Why it is true.**  A double is finite exactly if its exponent bits are not all ones
(`isFinite_iff_exponent`).  Only a number with places behind the point is changed by rounding, and
its exponent is far from the greatest one.  The same holds of the half that is added first in
rounding to the nearest: a sum grows by one binary digit at most, and rounding the sum to
fifty-three digits by one more (`isFinite_add`).
-/

namespace BlockSteps.Decimal

open Float.Model Float.Model.UnpackedFloat

/-! ## Finite by the exponent bits -/

/-- A double is finite exactly if its exponent bits are not all ones. -/
theorem isFinite_iff_exponent {x : Float} :
    x.isFinite = true ↔ x.toBits.toNat / 2 ^ 52 % 2 ^ 11 ≠ 2047 := by
  rw [isFinite_iff]
  unfold parts
  rw [partsOfBits_eq]
  by_cases hexp : x.toBits.toNat / 2 ^ 52 % 2 ^ 11 = 2047
  · rw [if_pos hexp]
    refine ⟨?_, fun hne => absurd hexp hne⟩
    rintro ⟨n, m, e, h⟩
    split at h
    · cases h
    · cases h
  · rw [if_neg hexp]
    refine ⟨fun _ => hexp, fun _ => ?_⟩
    by_cases hzero : x.toBits.toNat / 2 ^ 52 % 2 ^ 11 = 0
    · rw [if_pos hzero]
      exact ⟨_, _, _, rfl⟩
    · rw [if_neg hzero]
      exact ⟨_, _, _, rfl⟩

/-- A number put together is finite if its exponent is not too large.  The coefficient may have one
binary digit too many. -/
theorem isFinite_compose {n : Bool} {m : Nat} {e : Int} (hm : m ≤ 2 ^ 53) (he : e ≤ 970) :
    (compose n m e).isFinite = true := by
  have hfields : bitsOf n m e < 2 ^ 64 ∧ bitsOf n m e / 2 ^ 52 % 2 ^ 11 ≠ 2047 := by
    rw [bitsOf_eq]
    cases n with
    | false => rw [if_neg Bool.false_ne_true]; omega
    | true => rw [if_pos rfl]; omega
  have hbits : (UInt64.ofNat (bitsOf n m e)).toNat = bitsOf n m e := by
    rw [UInt64.toNat_ofNat']
    exact Nat.mod_eq_of_lt hfields.1
  rw [isFinite_iff_exponent, compose, toBits_ofBits (by rw [hbits]; exact hfields.2), hbits]
  exact hfields.2

/-! ## Down, up and away from zero -/

theorem isFinite_awayFromZero {x : Float} (h : x.isFinite = true) :
    (awayFromZero x).isFinite = true := by
  obtain ⟨n, m, e, hp⟩ := isFinite_iff.mp h
  have hfits := fits_of_parts hp
  unfold awayFromZero
  rw [hp]
  dsimp only
  by_cases whole : 0 ≤ e
  · rw [if_pos whole]
    exact h
  · rw [if_neg whole]
    by_cases low : e < -52
    · rw [if_pos low]
      exact isFinite_compose (by decide) (by decide)
    · rw [if_neg low, Nat.shiftRight_eq_div_pow, Nat.shiftLeft_eq]
      -- The last place before the point grows by one, and it is one of the fifty-three.
      have hplaces : 2 ^ 53 = 2 ^ (53 - (-e).toNat) * 2 ^ (-e).toNat := by
        rw [← Nat.pow_add]
        congr 1
        omega
      have hquotient : m / 2 ^ (-e).toNat < 2 ^ (53 - (-e).toNat) := by
        rw [Nat.div_lt_iff_lt_mul (Nat.two_pow_pos _), ← hplaces]
        exact hfits.lt
      have hle : (m / 2 ^ (-e).toNat + 1) * 2 ^ (-e).toNat ≤ 2 ^ 53 := by
        rw [hplaces]
        exact Nat.mul_le_mul_right _ hquotient
      exact isFinite_compose hle (by omega)

theorem isFinite_floor {x : Float} (h : x.isFinite = true) : (floor x).isFinite = true := by
  unfold floor
  split
  · exact h
  · split
    · exact isFinite_awayFromZero h
    · rw [isFinite_truncate]
      exact h

theorem isFinite_ceiling {x : Float} (h : x.isFinite = true) : (ceiling x).isFinite = true := by
  unfold ceiling
  split
  · exact h
  · split
    · rw [isFinite_truncate]
      exact h
    · exact isFinite_awayFromZero h

/-! ## Rounding a sum

Arithmetic works on unpacked numbers.  `Moderate` says of one that it can be packed without becoming
infinite. -/

/-- A zero or a number whose exponent is not above the greatest one. -/
def Moderate : UnpackedFloat → Prop
  | .zero _ => True
  | .finite _ _ exponent _ => exponent ≤ 971
  | _ => False

/-- A moderate number packs to a finite one. -/
theorem isFinite_pack {u : UnpackedFloat} (h : Moderate u) :
    (Float.ofModel (Float.Model.pack u)).isFinite = true := by
  have hexp : (@unpackExponent double (UnpackedFloat.pack double u)).toNat ≠ 2047 := by
    cases u with
    | zero s =>
      unfold UnpackedFloat.pack packedZero
      rw [unpackExponent_packComponents]
      decide
    | finite s m e hpos =>
      have he : e ≤ 971 := h
      have hbiased : (e + (Format.exponentBias double : Nat) + (52 : Nat)).toNat < 2047 := by
        have : (Format.exponentBias double : Int) = 1023 := rfl
        omega
      unfold UnpackedFloat.pack
      dsimp only
      rw [if_neg (show ¬ 2 ^ 11 ≤ _ + 1 by omega)]
      split
      · rw [unpackExponent_packComponents, BitVec.toNat_ofNat]
        omega
      · rw [unpackExponent_packComponents]
        decide
    | infinity s => exact h.elim
    | notANumber => exact h.elim
  rw [toNat_unpackExponent] at hexp
  rw [isFinite_iff_exponent]
  exact hexp

theorem mantissa_shiftRight (em : ExtendedMantissa) (k : Nat) :
    (em >>> k).mantissa = em.mantissa / 2 ^ k := by
  induction k with
  | zero => exact (Nat.div_one _).symm
  | succ k ih =>
    have hstep : (em >>> (k + 1)).mantissa = (em >>> k).mantissa / 2 := rfl
    rw [hstep, ih, Nat.div_div_eq_div_mul, Nat.pow_succ]

theorem roundedMantissa_le (em : ExtendedMantissa) : em.roundedMantissa ≤ em.mantissa + 1 := by
  obtain ⟨m, round, sticky⟩ := em
  cases round <;> cases sticky <;>
    simp only [ExtendedMantissa.roundedMantissa, ExtendedMantissa.accuracy,
      Accuracy.roundToNearestEven] <;> omega

theorem targetExponent_eq (m : Nat) (e : Int) :
    Format.targetExponent double (totalExponent m e) = max (Nat.log 2 m + e - 52) (-1074) := by
  simp only [Format.targetExponent, totalExponent, Format.mantissaBits, Format.minExponent,
    Nat.log2_eq_log_two]
  norm_num
  omega

/-- Shifting a coefficient to the wanted exponent drops as many digits as the exponent grows by. -/
theorem shiftToTargetExponent_exact (m : Nat) (e : Int) :
    ∃ k : Nat, (shiftToTargetExponent double m e .exact).1.mantissa = m / 2 ^ k ∧
      (shiftToTargetExponent double m e .exact).2 = e + k ∧
      e + k = max e (max (Nat.log 2 m + e - 52) (-1074)) := by
  refine ⟨(max (Nat.log 2 m + e - 52) (-1074) - e).toNat, ?_, ?_, by omega⟩
  · unfold shiftToTargetExponent shiftToExponent
    rw [targetExponent_eq]
    exact mantissa_shiftRight _ _
  · unfold shiftToTargetExponent shiftToExponent
    rw [targetExponent_eq]

/-- Rounding upwards makes a number longer by at most one digit. -/
theorem log_roundedMantissa_le (em : ExtendedMantissa) :
    Nat.log 2 em.roundedMantissa ≤ Nat.log 2 em.mantissa + 1 := by
  calc Nat.log 2 em.roundedMantissa
    _ ≤ Nat.log 2 (em.mantissa + 1) := Nat.log_mono_right (roundedMantissa_le em)
    _ ≤ Nat.log 2 em.mantissa + 1 := by
      apply Nat.le_of_lt_succ
      apply Nat.log_lt_of_lt_pow (Nat.succ_ne_zero _)
      have hlt := Nat.lt_pow_succ_log_self (b := 2) (by decide) em.mantissa
      rw [Nat.pow_succ]
      omega

/-- A number that is far from the greatest one stays moderate when it is rounded. -/
theorem moderate_roundWithAccuracy {s : Sign} {m : Nat} {e : Int} (hm : Nat.log 2 m + e ≤ 960)
    (he : e ≤ 960) : Moderate (roundWithAccuracy double s m e .exact) := by
  obtain ⟨k, hmantissa, hexponent, hk⟩ := shiftToTargetExponent_exact m e
  unfold roundWithAccuracy
  generalize shiftToTargetExponent double m e .exact = first at hmantissa hexponent
  obtain ⟨em, e'⟩ := first
  have hlog := log_roundedMantissa_le em
  dsimp only at hmantissa hexponent ⊢
  rw [hmantissa, Nat.log_div_base_pow] at hlog
  obtain ⟨k', -, hexponent', hk'⟩ := shiftToTargetExponent_exact em.roundedMantissa e'
  rw [hexponent']
  split
  · trivial
  · show e' + k' ≤ 971
    omega

/-- Digits put behind a number make it longer by as many. -/
theorem log_shiftLeft_le (m k : Nat) : Nat.log 2 (m <<< k) ≤ Nat.log 2 m + k := by
  rw [Nat.shiftLeft_eq]
  apply Nat.le_of_lt_succ
  apply Nat.log_lt_of_lt_pow' (Nat.succ_ne_zero _)
  have hlt := Nat.lt_pow_succ_log_self (b := 2) (by decide) m
  calc m * 2 ^ k
    _ < 2 ^ (Nat.log 2 m + 1) * 2 ^ k := Nat.mul_lt_mul_of_pos_right hlt (Nat.two_pow_pos k)
    _ = 2 ^ (Nat.log 2 m + k + 1) := by rw [← Nat.pow_add]; congr 1; omega

theorem moderate_round {s : Sign} {m : Nat} {e : Int} (hm : Nat.log 2 m + e ≤ 960)
    (he : e ≤ 960) : Moderate (UnpackedFloat.round double s m e) := by
  unfold UnpackedFloat.round decreaseExponent
  dsimp only
  generalize (e - Format.targetExponent double (totalExponent m e)).toNat = k
  have hlog := log_shiftLeft_le m k
  exact moderate_roundWithAccuracy (by omega) (by omega)

theorem moderate_normalize {m e : Int} {s : Sign} (hm : Nat.log 2 m.natAbs + e ≤ 960)
    (he : e ≤ 960) : Moderate (UnpackedFloat.normalize double m e s) := by
  unfold UnpackedFloat.normalize
  split
  · rename_i h
    rw [compare_lt_iff_lt] at h
    have habs : (-m).toNat = m.natAbs := by omega
    exact moderate_round (by rw [habs]; exact hm) he
  · trivial
  · rename_i h
    rw [compare_gt_iff_gt] at h
    have habs : m.toNat = m.natAbs := by omega
    exact moderate_round (by rw [habs]; exact hm) he

theorem natAbs_apply (s : Sign) (m : Nat) : (s.apply m).natAbs = m := by
  cases s with
  | negative => exact Int.natAbs_neg m
  | positive => rfl

/-- Two coefficients at one exponent: their sum has at most one digit more than fifty-three and the
digits that were put behind. -/
theorem log_sum_le {m m' : Nat} (hm : m < 2 ^ 53) (hm' : m' < 2 ^ 53) (s s' : Sign) (k k' : Nat) :
    Nat.log 2 (s.apply (m <<< k : Nat) + s'.apply (m' <<< k' : Nat)).natAbs ≤ 53 + max k k' := by
  apply Nat.le_of_lt_succ
  apply Nat.log_lt_of_lt_pow' (Nat.succ_ne_zero _)
  have hbound : ∀ {n j : Nat}, n < 2 ^ 53 → j ≤ max k k' → n <<< j < 2 ^ (53 + max k k') := by
    intro n j hn hj
    calc n <<< j
      _ = n * 2 ^ j := Nat.shiftLeft_eq n j
      _ < 2 ^ 53 * 2 ^ j := Nat.mul_lt_mul_of_pos_right hn (Nat.two_pow_pos j)
      _ ≤ 2 ^ 53 * 2 ^ max k k' := Nat.mul_le_mul_left _ (Nat.pow_le_pow_right (by decide) hj)
      _ = 2 ^ (53 + max k k') := (Nat.pow_add 2 53 _).symm
  have hleft := hbound hm (Nat.le_max_left k k')
  have hright := hbound hm' (Nat.le_max_right k k')
  have htriangle := Int.natAbs_add_le (s.apply (m <<< k : Nat)) (s'.apply (m' <<< k' : Nat))
  rw [natAbs_apply, natAbs_apply] at htriangle
  rw [Nat.pow_succ]
  omega

/-- What arithmetic sees of a finite number: a zero, or its coefficient and exponent. -/
theorem unpack_cases {x : Float} {n : Bool} {m : Nat} {e : Int} (h : parts x = .finite n m e) :
    (∃ s, x.toModel.unpack = .zero s) ∨
      ∃ s hpos, x.toModel.unpack = .finite s m e hpos := by
  rw [parts_eq_ofUnpacked] at h
  cases hu : x.toModel.unpack with
  | zero s => exact .inl ⟨s, rfl⟩
  | finite s m' e' hpos =>
    rw [hu] at h
    cases h
    exact .inr ⟨s, hpos, rfl⟩
  | infinity s =>
    rw [hu] at h
    cases h
  | notANumber =>
    rw [hu] at h
    cases h

/-- The sum of two numbers that are far from the greatest ones is finite. -/
theorem isFinite_add {x y : Float} {n n' : Bool} {m m' : Nat} {e e' : Int}
    (hx : parts x = .finite n m e) (hy : parts y = .finite n' m' e') (he : e ≤ 900)
    (he' : e' ≤ 900) : (x + y).isFinite = true := by
  have hm := (fits_of_parts hx).lt
  have hm' := (fits_of_parts hy).lt
  apply isFinite_pack
  obtain ⟨s, hx⟩ | ⟨s, hpos, hx⟩ := unpack_cases hx
  · obtain ⟨s', hy⟩ | ⟨s', hpos', hy⟩ := unpack_cases hy
    · rw [hx, hy, UnpackedFloat.add]
      split
      · trivial
      · trivial
    · rw [hx, hy]
      show e' ≤ 971
      omega
  · obtain ⟨s', hy⟩ | ⟨s', hpos', hy⟩ := unpack_cases hy
    · rw [hx, hy]
      show e ≤ 971
      omega
    · rw [hx, hy, UnpackedFloat.add]
      have hlog := log_sum_le hm hm' s s' (e - min e e').toNat (e' - min e e').toNat
      exact moderate_normalize (by omega) (by omega)

theorem parts_half : parts 0.5 = .finite false (2 ^ 52) (-53) := rfl

theorem isFinite_nearest {x : Float} (h : x.isFinite = true) : (nearest x).isFinite = true := by
  obtain ⟨n, m, e, hp⟩ := isFinite_iff.mp h
  unfold nearest
  rw [hp]
  dsimp only
  split
  · exact h
  · exact isFinite_floor (isFinite_add hp parts_half (by omega) (by decide))

end BlockSteps.Decimal
