import Mathlib
import BlockSteps.Decimal.Binary
import BlockSteps.Decimal.Bits

/-!
# Taking a double apart and putting it together

Two facts on which everything rests that is said about doubles.  A double put together from a
coefficient and an exponent that fit has exactly these parts (`parts_compose`).  And the parts are
what arithmetic sees: the operations and comparisons of doubles are defined on an unpacked form, and
`parts_eq_ofUnpacked` says that this form and the parts tell the same.
-/

namespace BlockSteps.Decimal

/-! ## Taking apart and putting together -/

/-- Which coefficients go with which exponents.  A coefficient has all its 53 binary digits, unless
the exponent is the least one. -/
structure Fits (coefficient : Nat) (exponent : Int) : Prop where
  /-- There are at most 53 binary digits. -/
  lt : coefficient < 2 ^ 53
  /-- There are fewer only at the least exponent. -/
  full : 2 ^ 52 ≤ coefficient ∨ exponent = -1074
  /-- The least exponent. -/
  least : -1074 ≤ exponent
  /-- The greatest exponent. -/
  greatest : exponent ≤ 971

/-- The parts of bits by division: the three fields are digits of the number that the bits spell. -/
theorem partsOfBits_eq (bits : Nat) :
    partsOfBits bits =
      if bits / 2 ^ 52 % 2 ^ 11 = 2047 then
        if bits % 2 ^ 52 = 0 then .infinite (decide (2 ^ 63 ≤ bits)) else .nan
      else if bits / 2 ^ 52 % 2 ^ 11 = 0 then
        .finite (decide (2 ^ 63 ≤ bits)) (bits % 2 ^ 52) (-1074)
      else
        .finite (decide (2 ^ 63 ≤ bits)) (2 ^ 52 + bits % 2 ^ 52)
          ((bits / 2 ^ 52 % 2 ^ 11 : Nat) - 1075) := by
  unfold partsOfBits
  simp only [Nat.one_shiftLeft, Nat.shiftRight_eq_div_pow]
  rfl

theorem bitsOf_eq (n : Bool) (m : Nat) (e : Int) :
    bitsOf n m e = (if n then 2 ^ 63 else 0) + (e + 1074).toNat * 2 ^ 52 + m := by
  unfold bitsOf
  simp only [Nat.shiftLeft_eq, Nat.one_mul]

/-- Parts read off bits have a coefficient that fits. -/
theorem fits_of_partsOfBits {bits m : Nat} {n : Bool} {e : Int}
    (h : partsOfBits bits = .finite n m e) : Fits m e := by
  have hexp : bits / 2 ^ 52 % 2 ^ 11 < 2 ^ 11 := Nat.mod_lt _ (by decide)
  have hlow : bits % 2 ^ 52 < 2 ^ 52 := Nat.mod_lt _ (by decide)
  rw [partsOfBits_eq] at h
  split at h
  · split at h <;> cases h
  · split at h
    · cases h
      exact ⟨by omega, .inr rfl, by omega, by omega⟩
    · cases h
      exact ⟨by omega, .inl (by omega), by omega, by omega⟩

theorem fits_of_parts {x : Float} {m : Nat} {n : Bool} {e : Int}
    (h : parts x = .finite n m e) : Fits m e := fits_of_partsOfBits h

/-- The sign of a finite double, as its bit has it. -/
theorem isNegative_of_parts {x : Float} {n : Bool} {m : Nat} {e : Int}
    (h : parts x = .finite n m e) : isNegative x = n := by
  unfold parts partsOfBits at h
  unfold isNegative
  dsimp only at h
  split at h
  · split at h <;> cases h
  · split at h
    · cases h
      rfl
    · cases h
      rfl

theorem bitsOf_lt {n : Bool} {m : Nat} {e : Int} (h : Fits m e) : bitsOf n m e < 2 ^ 64 := by
  have := h.lt
  have := h.greatest
  rw [bitsOf_eq]
  cases n
  · rw [if_neg Bool.false_ne_true]; omega
  · rw [if_pos rfl]; omega

/-- The three fields of the bits of a number. -/
theorem fields_bitsOf {n : Bool} {m : Nat} {e : Int} (h : Fits m e) :
    bitsOf n m e % 2 ^ 52 = m % 2 ^ 52 ∧
      bitsOf n m e / 2 ^ 52 % 2 ^ 11 = (e + 1074).toNat + m / 2 ^ 52 ∧
      (2 ^ 63 ≤ bitsOf n m e ↔ n = true) := by
  have := h.lt
  have := h.greatest
  rw [bitsOf_eq]
  cases n
  · rw [if_neg Bool.false_ne_true]
    refine ⟨by omega, by omega, ?_⟩
    simp only [Bool.false_eq_true, iff_false]
    omega
  · rw [if_pos rfl]
    refine ⟨by omega, by omega, ?_⟩
    simp only [iff_true]
    omega

/-- The exponent bits of a number are not all ones. -/
theorem exponent_bitsOf {n : Bool} {m : Nat} {e : Int} (h : Fits m e) :
    bitsOf n m e / 2 ^ 52 % 2 ^ 11 ≠ 2047 := by
  rw [(fields_bitsOf h).2.1]
  have := h.lt
  have := h.greatest
  omega

theorem partsOfBits_bitsOf {n : Bool} {m : Nat} {e : Int} (h : Fits m e) :
    partsOfBits (bitsOf n m e) = .finite n m e := by
  obtain ⟨low, mid, high⟩ := fields_bitsOf (n := n) h
  have hn : decide (2 ^ 63 ≤ bitsOf n m e) = n := by
    rw [Bool.eq_iff_iff, decide_eq_true_iff, high]
  have := h.lt
  have := h.least
  rw [partsOfBits_eq, if_neg (exponent_bitsOf h), hn, low, mid]
  rcases h.full with full | rfl
  · rw [if_neg (by omega)]
    congr 1 <;> omega
  · by_cases small : m < 2 ^ 52
    · rw [if_pos (by omega)]
      congr 1
      omega
    · rw [if_neg (by omega)]
      congr 1 <;> omega

theorem toBits_compose {n : Bool} {m : Nat} {e : Int} (h : Fits m e) :
    (compose n m e).toBits.toNat = bitsOf n m e := by
  have hn : (UInt64.ofNat (bitsOf n m e)).toNat = bitsOf n m e := by
    rw [UInt64.toNat_ofNat']
    exact Nat.mod_eq_of_lt (bitsOf_lt h)
  unfold compose
  rw [toBits_ofBits (by rw [hn]; exact exponent_bitsOf h), hn]

/-- A number put together has these parts. -/
theorem parts_compose {n : Bool} {m : Nat} {e : Int} (h : Fits m e) :
    parts (compose n m e) = .finite n m e := by
  unfold parts
  rw [toBits_compose h, partsOfBits_bitsOf h]

theorem fits_zero : Fits 0 (-1074) := ⟨by decide, .inr rfl, by decide, by decide⟩

/-! ## What arithmetic sees -/

open Float.Model Float.Model.UnpackedFloat in
/-- The parts that the unpacking of a double gives. -/
def Parts.ofUnpacked : UnpackedFloat → Parts
  | .notANumber => .nan
  | .infinity sign => .infinite (sign == .negative)
  | .zero sign => .finite (sign == .negative) 0 (-1074)
  | .finite sign coefficient exponent _ => .finite (sign == .negative) coefficient exponent

open Float.Model Float.Model.UnpackedFloat in
theorem sign_unpackSign (b : BitVec 64) :
    (Sign.ofBitVec (@unpackSign double b) == .negative) = decide (2 ^ 63 ≤ b.toNat) := by
  have hs := toNat_unpackSign b
  have hlt := b.isLt
  unfold Sign.ofBitVec
  by_cases h : @unpackSign double b = 0#1
  · have hb : b.toNat / 2 ^ 63 = 0 := by rw [← hs, h]; rfl
    have : ¬ 2 ^ 63 ≤ b.toNat := by omega
    rw [if_pos h, decide_eq_false this]
    rfl
  · have h0 : (@unpackSign double b).toNat ≠ 0 := fun hc => h (BitVec.eq_of_toNat_eq hc)
    have : 2 ^ 63 ≤ b.toNat := by omega
    rw [if_neg h, decide_eq_true this]
    rfl

open Float.Model Float.Model.UnpackedFloat in
theorem partsOfBits_eq_ofUnpacked (b : BitVec 64) :
    partsOfBits b.toNat = Parts.ofUnpacked (UnpackedFloat.unpack double b) := by
  rw [partsOfBits_eq]
  unfold UnpackedFloat.unpack
  simp only [← toNat_unpackMantissa, ← toNat_unpackExponent, ← sign_unpackSign]
  have ones : @unpackExponent double b = -1#11 ↔
      (@unpackExponent double b).toNat = 2047 := by
    rw [← BitVec.toNat_inj]; rfl
  have zeros : @unpackExponent double b = 0#11 ↔
      (@unpackExponent double b).toNat = 0 := by
    rw [← BitVec.toNat_inj]; rfl
  have none : @unpackMantissa double b = 0#52 ↔
      (@unpackMantissa double b).toNat = 0 := by
    rw [← BitVec.toNat_inj]; rfl
  by_cases h1 : @unpackExponent double b = -1#11
  · rw [if_pos (ones.1 h1), if_pos h1]
    by_cases h3 : @unpackMantissa double b = 0#52
    · rw [if_pos (none.1 h3), if_pos h3]; rfl
    · rw [if_neg (fun h => h3 (none.2 h)), if_neg h3]; rfl
  · rw [if_neg (fun h => h1 (ones.2 h)), if_neg h1]
    by_cases h2 : @unpackExponent double b = 0#11
    · rw [if_pos (zeros.1 h2), if_pos h2]
      by_cases h3 : @unpackMantissa double b = 0#52
      · rw [dif_pos h3, none.1 h3]; rfl
      · rw [dif_neg h3]
        simp [Parts.ofUnpacked, zeros.1 h2, Format.exponentBias]
    · rw [if_neg (fun h => h2 (zeros.2 h)), if_neg h2]
      simp only [Parts.ofUnpacked, toNat_one_append]
      rfl

/-- The parts of a double are those on which its arithmetic is defined. -/
theorem parts_eq_ofUnpacked (x : Float) : parts x = Parts.ofUnpacked x.toModel.unpack :=
  partsOfBits_eq_ofUnpacked x.toModel.toBits.toBitVec

/-- A double is finite exactly if its parts are. -/
theorem isFinite_iff {x : Float} : x.isFinite = true ↔ ∃ n m e, parts x = .finite n m e := by
  rw [parts_eq_ofUnpacked]
  show x.toModel.unpack.isFinite = true ↔ _
  cases x.toModel.unpack <;> simp [Parts.ofUnpacked, Float.Model.UnpackedFloat.isFinite]

end BlockSteps.Decimal
