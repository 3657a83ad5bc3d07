import Mathlib
import BlockSteps.Proofs.Decimal.Comparison

/-!
# The order of all doubles

`totalRank` gives every double a whole number, read off its bits.  This module says what order that
is: negative infinity first, then the finite doubles by the numbers that they stand for, the
negative zero before the other, and infinity last (`totalRank_le_iff`).  Nothing is said about "not
a number", and a sum of products of finite doubles never is it (`isNumber_add_mul`).
-/

namespace BlockSteps.Decimal

open Float.Model Float.Model.UnpackedFloat

/-- A double that is finite or infinite. -/
def IsNumber (x : Float) : Prop := parts x ≠ .nan

/-- The number that a double stands for, with the infinities at the two ends. -/
noncomputable def extended (x : Float) : EReal :=
  match parts x with
  | .infinite true => ⊥
  | .infinite false => ⊤
  | _ => (value x : ℝ)

/-- The order of doubles that are numbers: by the number, and of the two zeros the negative one
first. -/
def NotAfter (x y : Float) : Prop :=
  extended x < extended y ∨
    extended x = extended y ∧ (isNegative x = true ∨ isNegative y = false)

/-! ## Behind the sign -/

section Codes

variable {x : Float} {n : Bool} {m m' : ℕ} {q q' : ℤ}

/-- The bits of a double behind the bit of the sign. -/
def code (x : Float) : ℕ := x.toBits.toNat % 2 ^ 63

theorem totalRank_eq (x : Float) :
    totalRank x = if isNegative x = true then -(code x : ℤ) - 1 else code x := by
  have hlt := x.toBits.toNat_lt
  unfold totalRank isNegative code
  simp only [Nat.one_shiftLeft, decide_eq_true_eq]
  split
  · rw [Int.ofNat_eq_natCast]
    omega
  · rw [Int.ofNat_eq_natCast]
    omega

theorem code_of_finite (h : parts x = .finite n m q) :
    (code x : ℤ) = (q + 1074) * 2 ^ 52 + m := by
  unfold code
  unfold parts at h
  rw [partsOfBits_eq] at h
  split at h
  · split at h <;> cases h
  · split at h
    · cases h
      omega
    · cases h
      omega

theorem code_lt_of_finite (h : parts x = .finite n m q) : code x < 2047 * 2 ^ 52 := by
  have hcode := code_of_finite h
  have := (fits_of_parts h).lt
  have := (fits_of_parts h).greatest
  omega

theorem code_of_infinite (h : parts x = .infinite n) :
    isNegative x = n ∧ code x = 2047 * 2 ^ 52 := by
  unfold isNegative code
  unfold parts at h
  rw [partsOfBits_eq] at h
  simp only [Nat.one_shiftLeft]
  split at h
  · split at h
    · cases h
      exact ⟨rfl, by omega⟩
    · cases h
  · split at h <;> cases h

end Codes

section Magnitudes

variable {m m' : ℕ} {q q' : ℤ} (h : Fits m q) (h' : Fits m' q')
include h h'

/-- The bits behind the sign grow with the number without its sign. -/
theorem code_le_iff_magnitude_le :
    (q + 1074) * 2 ^ 52 + (m : ℤ) ≤ (q' + 1074) * 2 ^ 52 + m' ↔ (m : ℚ) * 2 ^ q ≤ m' * 2 ^ q' := by
  have hcodes : (q + 1074) * 2 ^ 52 + (m : ℤ) ≤ (q' + 1074) * 2 ^ 52 + m' ↔
      (compare q q').then (compare m m') ≠ .gt := by
    have := h.lt
    have := h'.lt
    rcases lt_trichotomy q q' with hlt | rfl | hgt
    · have := h'.full
      have := h.least
      rw [compare_lt_iff_lt.mpr hlt]
      exact iff_of_true (by omega) nofun
    · rw [compare_eq_iff_eq.mpr rfl, Ordering.then, compare_le_iff_le]
      omega
    · have := h.full
      have := h'.least
      rw [compare_gt_iff_gt.mpr hgt]
      exact iff_of_false (by omega) fun hle => hle rfl
  rw [hcodes, compare_magnitude h h', compare_le_iff_le]

end Magnitudes

/-! ## The order -/

/-- The number that a double stands for, without its sign. -/
noncomputable def magnitude (x : Float) : EReal :=
  match parts x with
  | .finite _ m q => ((m * 2 ^ q : ℚ) : ℝ)
  | _ => ⊤

theorem magnitude_nonneg (x : Float) : 0 ≤ magnitude x := by
  unfold magnitude
  split
  · rename_i m q _
    have hnonneg : (0 : ℚ) ≤ m * 2 ^ q := by positivity
    exact_mod_cast hnonneg
  · exact le_top

section Ordered

variable {x y : Float} (hx : IsNumber x) (hy : IsNumber y)
include hx

theorem extended_eq :
    extended x = if isNegative x = true then -magnitude x else magnitude x := by
  unfold extended magnitude
  cases hparts : parts x with
  | nan => exact absurd hparts hx
  | infinite n =>
    rw [(code_of_infinite hparts).1]
    cases n <;> simp
  | finite n m q =>
    rw [isNegative_of_parts hparts, value_of_parts hparts]
    cases n <;> simp

include hy

theorem code_le_iff : code x ≤ code y ↔ magnitude x ≤ magnitude y := by
  unfold magnitude
  cases hpx : parts x with
  | nan => exact absurd hpx hx
  | infinite n =>
    have hcx := (code_of_infinite hpx).2
    cases hpy : parts y with
    | nan => exact absurd hpy hy
    | infinite n' => exact iff_of_true (hcx.trans (code_of_infinite hpy).2.symm).le le_rfl
    | finite n' m' q' =>
      have := code_lt_of_finite hpy
      exact iff_of_false (by omega) (not_le.mpr (EReal.coe_lt_top _))
  | finite n m q =>
    cases hpy : parts y with
    | nan => exact absurd hpy hy
    | infinite n' =>
      have := code_lt_of_finite hpx
      have := (code_of_infinite hpy).2
      exact iff_of_true (by omega) le_top
    | finite n' m' q' =>
      rw [← Int.ofNat_le, code_of_finite hpx, code_of_finite hpy,
        code_le_iff_magnitude_le (fits_of_parts hpx) (fits_of_parts hpy), ← Rat.cast_le (K := ℝ),
        ← EReal.coe_le_coe_iff]

/-- **Ranks order the doubles** by the numbers that they stand for. -/
theorem totalRank_le_iff : totalRank x ≤ totalRank y ↔ NotAfter x y := by
  have hcodes := code_le_iff hx hy
  have hcodes' := code_le_iff hy hx
  have hneg : ∀ z, -magnitude z ≤ 0 := fun z => by
    rw [← neg_zero, EReal.neg_le_neg_iff]
    exact magnitude_nonneg z
  unfold NotAfter
  rw [totalRank_eq, totalRank_eq, extended_eq hx, extended_eq hy]
  cases isNegative x <;> cases isNegative y <;> simp only [Bool.false_eq_true, if_true, if_false,
    or_true, or_false, and_true, and_false, reduceCtorEq]
  · rw [Int.ofNat_le, hcodes, le_iff_lt_or_eq]
  · exact iff_of_false (by omega) (not_lt.mpr ((hneg y).trans (magnitude_nonneg x)))
  · rw [← le_iff_lt_or_eq]
    exact iff_of_true (by omega) ((hneg x).trans (magnitude_nonneg y))
  · rw [← le_iff_lt_or_eq, EReal.neg_le_neg_iff, ← hcodes']
    omega

end Ordered

/-! ## Sums and products -/

theorem isNumber_of_isFinite {x : Float} (h : x.isFinite = true) : IsNumber x := by
  obtain ⟨n, m, q, hparts⟩ := isFinite_iff.mp h
  rw [IsNumber, hparts]
  exact nofun

/-- Arithmetic sees "not a number" exactly where the parts say so. -/
theorem isNumber_iff {x : Float} : IsNumber x ↔ x.toModel.unpack ≠ .notANumber := by
  rw [IsNumber, parts_eq_ofUnpacked]
  cases x.toModel.unpack <;> simp [Parts.ofUnpacked]

/-- What is not "not a number" is packed to a number, possibly to an infinite one. -/
theorem isNumber_pack {u : UnpackedFloat} (h : u ≠ .notANumber) :
    IsNumber (Float.ofModel (Float.Model.pack u)) := by
  have hinfinity : ∀ s, IsNumber (Float.ofModel (Float.Model.pack (.infinity s))) := by
    intro s
    unfold IsNumber
    cases s <;> decide
  cases u with
  | notANumber => exact absurd rfl h
  | infinity s => exact hinfinity s
  | zero s => exact isNumber_of_isFinite (isFinite_pack trivial)
  | finite s m e hpos =>
    by_cases he : e ≤ 971
    · exact isNumber_of_isFinite (isFinite_pack he)
    · have hbits : UnpackedFloat.pack double (.finite s m e hpos) =
          UnpackedFloat.pack double (.infinity s) := by
        have hbias : (Format.exponentBias double : Int) = 1023 := rfl
        have hlarge : 2 ^ 11 ≤ (e + (Format.exponentBias double : Nat) + (52 : Nat)).toNat + 1 := by
          omega
        exact if_pos hlarge
      have hmodel : Float.Model.pack (.finite s m e hpos) = Float.Model.pack (.infinity s) := by
        simp only [Float.Model.pack, hbits]
      rw [hmodel]
      exact hinfinity s

theorem roundWithAccuracy_ne_notANumber (s : Sign) (m : ℕ) (e : ℤ) (accuracy : Accuracy) :
    UnpackedFloat.roundWithAccuracy double s m e accuracy ≠ .notANumber := by
  unfold UnpackedFloat.roundWithAccuracy
  dsimp only
  split <;> exact nofun

theorem normalize_ne_notANumber (m e : ℤ) (s : Sign) :
    UnpackedFloat.normalize double m e s ≠ .notANumber := by
  unfold UnpackedFloat.normalize
  split
  · exact roundWithAccuracy_ne_notANumber _ _ _ _
  · exact nofun
  · exact roundWithAccuracy_ne_notANumber _ _ _ _

/-- A finite double plus a number is a number. -/
theorem isNumber_add {x y : Float} (hx : x.isFinite = true) (hy : IsNumber y) :
    IsNumber (x + y) := by
  obtain ⟨n, m, q, hparts⟩ := isFinite_iff.mp hx
  rw [isNumber_iff] at hy
  apply isNumber_pack
  obtain ⟨s, hx⟩ | ⟨s, hpos, hx⟩ := unpack_cases hparts
  · rw [hx]
    cases hu : y.toModel.unpack with
    | notANumber => exact absurd hu hy
    | infinity s' => rintro ⟨⟩
    | zero s' =>
      rw [UnpackedFloat.add]
      split <;> rintro ⟨⟩
    | finite s' m' e' hpos' => rintro ⟨⟩
  · rw [hx]
    cases hu : y.toModel.unpack with
    | notANumber => exact absurd hu hy
    | infinity s' => rintro ⟨⟩
    | zero s' => rintro ⟨⟩
    | finite s' m' e' hpos' => exact normalize_ne_notANumber _ _ _

/-- A product of finite doubles is a number. -/
theorem isNumber_mul {x y : Float} (hx : x.isFinite = true) (hy : y.isFinite = true) :
    IsNumber (x * y) := by
  obtain ⟨n, m, q, hx⟩ := isFinite_iff.mp hx
  obtain ⟨n', m', q', hy⟩ := isFinite_iff.mp hy
  apply isNumber_pack
  obtain ⟨s, hx⟩ | ⟨s, hpos, hx⟩ := unpack_cases hx <;>
    obtain ⟨s', hy⟩ | ⟨s', hpos', hy⟩ := unpack_cases hy <;> rw [hx, hy]
  · exact nofun
  · exact nofun
  · exact nofun
  · exact roundWithAccuracy_ne_notANumber _ _ _ _

end BlockSteps.Decimal
