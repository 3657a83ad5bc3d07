import Mathlib

/-!
# The bits of a double

A double is its 64 bits: one of sign, eleven of exponent and fifty-two of fraction.  The arithmetic
on doubles works on them by *unpacking* into a sign, a coefficient and an exponent, and by *packing*
the result.  This module says what unpacking is in plain arithmetic on the number that the bits
spell, and that a double made from given bits has these bits (`toBits_ofBits`).

**What is left out.**  Many rows of bits stand for "not a number", and a double keeps only one of
them.  Their exponent bits are all ones, and so are those of the infinities; `toBits_ofBits`
excludes both at once, since no finite number has these exponent bits.
-/

namespace BlockSteps.Decimal

open Float.Model Float.Model.UnpackedFloat

/-- The layout of a double. -/
abbrev double : Float.Model.Format := .binary64

/-! ## The three fields -/

theorem toNat_unpackMantissa (b : BitVec 64) :
    (@unpackMantissa double b).toNat = b.toNat % 2 ^ 52 := by
  simp [unpackMantissa, BitVec.extractLsb_toNat]

theorem toNat_unpackExponent (b : BitVec 64) :
    (@unpackExponent double b).toNat = b.toNat / 2 ^ 52 % 2 ^ 11 := by
  simp [unpackExponent, BitVec.extractLsb_toNat, Nat.shiftRight_eq_div_pow]

theorem toNat_unpackSign (b : BitVec 64) :
    (@unpackSign double b).toNat = b.toNat / 2 ^ 63 := by
  have := b.isLt
  simp [unpackSign, BitVec.extractLsb_toNat, Nat.shiftRight_eq_div_pow]
  omega

theorem toBitVec_ofBitVec (b : BitVec 1) : (Sign.ofBitVec b).toBitVec = b := by
  revert b; decide

/-- The fraction of a number behind its leading one. -/
theorem toNat_one_append (v : BitVec 52) : (1#1 ++ v).toNat = 2 ^ 52 + v.toNat := by
  have := Nat.two_pow_add_eq_or_of_lt (i := 52) (b := v.toNat) v.isLt 1
  rw [BitVec.toNat_append, Nat.shiftLeft_eq, Nat.mul_comm]
  simpa using this.symm

/-- The three fields side by side are all of the bits. -/
theorem packComponents_fields (b : BitVec 64) :
    packComponents double (Sign.ofBitVec (@unpackSign double b))
      (@unpackExponent double b) (@unpackMantissa double b) = b := by
  simp only [packComponents, toBitVec_ofBitVec]
  apply BitVec.eq_of_toNat_eq
  rw [BitVec.toNat_append, BitVec.toNat_append, toNat_unpackSign, toNat_unpackExponent,
    toNat_unpackMantissa]
  have := b.isLt
  rw [Nat.shiftLeft_eq, Nat.shiftLeft_eq, Nat.mul_comm _ (2 ^ _), Nat.mul_comm _ (2 ^ _),
    ← Nat.two_pow_add_eq_or_of_lt, ← Nat.two_pow_add_eq_or_of_lt]
  · show 2 ^ 52 * (2 ^ 11 * _ + _) + _ = _
    omega
  · exact Nat.mod_lt _ (by decide)
  · exact Nat.mod_lt _ (by decide)

/-! ## Made from bits -/

/-- A coefficient with its leading one has 53 binary digits. -/
theorem log2_coefficient {fraction : Nat} (h : fraction < 2 ^ 52) :
    (2 ^ 52 + fraction).log2 = 52 := by
  have hne : 2 ^ 52 + fraction ≠ 0 := by omega
  have upper := (Nat.log2_lt (k := 53) hne).mpr (by omega)
  have lower := (Nat.le_log2 (k := 52) hne).mpr (by omega)
  omega

/-- Packing undoes unpacking where the exponent bits are not all ones. -/
theorem pack_unpack {b : BitVec 64} (h : b.toNat / 2 ^ 52 % 2 ^ 11 ≠ 2047) :
    UnpackedFloat.pack double (UnpackedFloat.unpack double b) = b := by
  have fields := packComponents_fields b
  have hexp : (@unpackExponent double b).toNat ≠ 2047 := by
    rw [toNat_unpackExponent]; exact h
  have hlow : (@unpackMantissa double b).toNat < 2 ^ 52 :=
    (@unpackMantissa double b).isLt
  have hhigh : (@unpackExponent double b).toNat < 2048 :=
    (@unpackExponent double b).isLt
  have ones : @unpackExponent double b ≠ -1#11 := fun hc => hexp (by rw [hc]; rfl)
  unfold UnpackedFloat.unpack
  simp only []
  rw [if_neg ones]
  by_cases zeros : @unpackExponent double b = 0#11
  · rw [if_pos zeros]
    rw [zeros] at fields
    by_cases none : @unpackMantissa double b = 0#52
    · rw [dif_pos none]
      rw [none] at fields
      exact fields
    · rw [dif_neg none]
      have hpos : (@unpackMantissa double b).toNat ≠ 0 :=
        fun hc => none (BitVec.eq_of_toNat_eq hc)
      have hlog := (Nat.log2_lt hpos).mpr hlow
      unfold UnpackedFloat.pack
      rw [zeros]
      simp [Format.exponentBias, Format.mantissaBits]
      rw [if_neg (by omega), fields]
  · rw [if_neg zeros]
    have biased : ((@unpackExponent double b).toNat -
        ((Format.exponentBias double : Nat) + (52 : Nat)) +
        (Format.exponentBias double : Nat) + (52 : Nat) : Int).toNat =
        (@unpackExponent double b).toNat := by
      omega
    have fraction : BitVec.ofNat 52 (2 ^ 52 + (@unpackMantissa double b).toNat) =
        @unpackMantissa double b := by
      apply BitVec.eq_of_toNat_eq
      rw [BitVec.toNat_ofNat]
      omega
    unfold UnpackedFloat.pack
    simp only [toNat_one_append, log2_coefficient hlow, biased, fraction]
    rw [if_neg (show ¬ 2048 ≤ (@unpackExponent double b).toNat + 1 by omega),
      if_pos (show 52 + 1 = Format.mantissaBits double from rfl), BitVec.ofNat_toNat,
      BitVec.setWidth_eq, fields]

/-- A double made from bits has these bits, unless the exponent bits are all ones. -/
theorem toBits_ofBits {b : UInt64} (h : b.toNat / 2 ^ 52 % 2 ^ 11 ≠ 2047) :
    (Float.ofBits b).toBits = b :=
  UInt64.toBitVec_inj.mp (pack_unpack h)

end BlockSteps.Decimal
