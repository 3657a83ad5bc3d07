import Mathlib
import BlockSteps.Decimal.Composition

/-!
# Truncation

A number without its fraction: the places of the coefficient behind the point become zero
(`parts_truncate`), and nothing else changes.  So the whole part stays, as an exact natural number
(`wholePart_truncate`).
-/

namespace BlockSteps.Decimal

theorem scaledDown_of_nonneg {m : Nat} {e : Int} (h : 0 ≤ e) :
    scaledDown m e = m * 2 ^ e.toNat := by
  rw [scaledDown, if_pos h, Nat.shiftLeft_eq]

theorem scaledDown_of_neg {m : Nat} {e : Int} (h : e < 0) :
    scaledDown m e = m / 2 ^ (-e).toNat := by
  rw [scaledDown, if_neg (by omega), Nat.shiftRight_eq_div_pow]

theorem wholePart_of_parts {x : Float} {n : Bool} {m : Nat} {e : Int}
    (h : parts x = .finite n m e) : wholePart x = scaledDown m e := by
  unfold wholePart
  rw [h]

/-- A coefficient without its last places still fits, as long as the leading one is none of them. -/
theorem fits_drop {m : Nat} {e : Int} (h : Fits m e) (low : -52 ≤ e) :
    Fits (m / 2 ^ (-e).toNat * 2 ^ (-e).toNat) e := by
  have full : 2 ^ 52 ≤ m := h.full.resolve_right (by omega)
  have whole : 2 ^ 52 = 2 ^ (52 - (-e).toNat) * 2 ^ (-e).toNat := by
    rw [← Nat.pow_add]
    congr 1
    omega
  have hq : 2 ^ (52 - (-e).toNat) ≤ m / 2 ^ (-e).toNat := by
    rw [Nat.le_div_iff_mul_le (Nat.two_pow_pos _), ← whole]
    exact full
  have lower := Nat.mul_le_mul_right (2 ^ (-e).toNat) hq
  have upper := Nat.div_mul_le_self m (2 ^ (-e).toNat)
  rw [← whole] at lower
  exact ⟨Nat.lt_of_le_of_lt upper h.lt, .inl lower, h.least, h.greatest⟩

/-- Where the point stands before all 53 places, there is only fraction. -/
theorem scaledDown_eq_zero {m : Nat} {e : Int} (h : Fits m e) (low : e < -52) :
    scaledDown m e = 0 := by
  rw [scaledDown_of_neg (by omega)]
  exact Nat.div_eq_of_lt
    (Nat.lt_of_lt_of_le h.lt (Nat.pow_le_pow_right (by decide) (by omega)))

/-- Truncation keeps the coefficient but for the places behind the point. -/
theorem parts_truncate {x : Float} {n : Bool} {m : Nat} {e : Int}
    (h : parts x = .finite n m e) :
    parts (truncate x) =
      if 0 ≤ e then .finite n m e
      else if e < -52 then .finite n 0 (-1074)
      else .finite n (m / 2 ^ (-e).toNat * 2 ^ (-e).toNat) e := by
  unfold truncate
  rw [h]
  simp only []
  by_cases whole : 0 ≤ e
  · rw [if_pos whole, if_pos whole, h]
  · rw [if_neg whole, if_neg whole]
    by_cases low : e < -52
    · rw [if_pos low, if_pos low, parts_compose fits_zero]
    · rw [if_neg low, if_neg low, Nat.shiftRight_eq_div_pow, Nat.shiftLeft_eq,
        parts_compose (fits_drop (fits_of_parts h) (by omega))]

/-- Truncation keeps the whole part. -/
theorem wholePart_truncate (x : Float) : wholePart (truncate x) = wholePart x := by
  cases h : parts x with
  | nan => simp only [truncate, h]
  | infinite n => simp only [truncate, h]
  | finite n m e =>
    have ht := parts_truncate h
    by_cases whole : 0 ≤ e
    · simp only [truncate, h, if_pos whole]
    · rw [if_neg whole] at ht
      rw [wholePart_of_parts h]
      by_cases low : e < -52
      · rw [if_pos low] at ht
        rw [wholePart_of_parts ht, scaledDown_eq_zero (fits_of_parts h) low,
          scaledDown_eq_zero fits_zero (by decide)]
      · rw [if_neg low] at ht
        rw [wholePart_of_parts ht, scaledDown_of_neg (by omega), scaledDown_of_neg (by omega),
          Nat.mul_div_cancel _ (Nat.two_pow_pos _)]

/-- Truncation neither makes a number finite nor infinite. -/
theorem isFinite_truncate (x : Float) : (truncate x).isFinite = x.isFinite := by
  rw [Bool.eq_iff_iff, isFinite_iff, isFinite_iff]
  cases h : parts x with
  | nan => simp only [truncate, h]
  | infinite n => simp only [truncate, h]
  | finite n m e =>
    rw [parts_truncate h]
    refine ⟨fun _ => ⟨n, m, e, rfl⟩, fun _ => ?_⟩
    split
    · exact ⟨n, m, e, rfl⟩
    · split
      · exact ⟨n, 0, -1074, rfl⟩
      · exact ⟨n, m / 2 ^ (-e).toNat * 2 ^ (-e).toNat, e, rfl⟩

/-- A finite number truncates to zero exactly if its whole part is zero. -/
theorem isZero_truncate_iff {x : Float} (h : x.isFinite = true) :
    isZero (truncate x) = true ↔ wholePart x = 0 := by
  obtain ⟨n, m, e, hp⟩ := isFinite_iff.mp h
  have ht := parts_truncate hp
  rw [wholePart_of_parts hp]
  by_cases whole : 0 ≤ e
  · rw [if_pos whole] at ht
    rw [scaledDown_of_nonneg whole]
    simp [isZero, ht]
  · rw [if_neg whole] at ht
    by_cases low : e < -52
    · rw [if_pos low] at ht
      rw [scaledDown_eq_zero (fits_of_parts hp) low]
      simp [isZero, ht]
    · rw [if_neg low] at ht
      rw [scaledDown_of_neg (by omega)]
      simp [isZero, ht]

end BlockSteps.Decimal
