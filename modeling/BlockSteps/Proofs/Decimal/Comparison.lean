import Mathlib
import BlockSteps.Proofs.Decimal.Scientific

/-!
# Doubles as numbers

A finite double stands for a rational number, its `value`.  This module says that what a machine
does with doubles and words is arithmetic on these numbers:

* comparing two finite doubles compares their values (`lt_iff_value_lt`, `le_iff_value_le`,
  `beq_iff_value_eq`), because coefficients have all their places and so exponents go first;
* the whole part of a double above zero is the floor of its value (`wholePart_eq_floor`);
* turned into a word it is this floor, or the greatest word if that is less (`toNat_toUInt64`).

A word turned into a double is rounded, up or down, so nothing of the kind can be said there.  What
can be said is `lt_value_of_toFloat_lt`: no double lies between a word and the double that it is
turned into, so that a double above the second is above the first.
-/

namespace BlockSteps.Decimal

open Float.Model Float.Model.UnpackedFloat

/-- The number that a double stands for; `0` for one that is not finite. -/
def value (x : Float) : ℚ :=
  match parts x with
  | .finite negative coefficient exponent =>
    (if negative then -1 else 1) * (coefficient * 2 ^ exponent)
  | _ => 0

theorem value_of_parts {x : Float} {n : Bool} {m : ℕ} {q : ℤ} (h : parts x = .finite n m q) :
    value x = (if n then -1 else 1) * (m * 2 ^ q) := by
  rw [value, h]

theorem value_zero : value 0 = 0 := by
  rw [value_of_parts (show parts 0 = .finite false 0 (-1074) from rfl)]
  norm_num

theorem value_one : value 1 = 1 := by
  rw [value_of_parts (show parts 1 = .finite false (2 ^ 52) (-52) from rfl)]
  norm_num

/-! ## Comparing doubles -/

section Magnitudes

variable {m m' : ℕ} {q q' : ℤ} (h : Fits m q) (h' : Fits m' q')
include h h'

/-- Of two doubles without their signs, the one with the greater exponent is greater. -/
theorem magnitude_lt_of_exponent_lt (hlt : q < q') : (m : ℚ) * 2 ^ q < m' * 2 ^ q' := by
  have hfull : 2 ^ 52 ≤ m' := h'.full.resolve_right fun hleast => by
    have := h.least
    omega
  calc (m : ℚ) * 2 ^ q
    _ < 2 ^ 53 * 2 ^ q := by
      have : (m : ℚ) < 2 ^ 53 := by exact_mod_cast h.lt
      gcongr
    _ = 2 ^ 52 * 2 ^ (q + 1) := by rw [zpow_add_one₀ two_ne_zero]; ring
    _ ≤ m' * 2 ^ q' := by
      have hm : (2 : ℚ) ^ 52 ≤ m' := by exact_mod_cast hfull
      have hq : (2 : ℚ) ^ (q + 1) ≤ 2 ^ q' := zpow_le_zpow_right₀ one_le_two hlt
      gcongr

/-- Doubles without their signs compare by the exponent first and then by the coefficient. -/
theorem compare_magnitude :
    (compare q q').then (compare m m') = compare ((m : ℚ) * 2 ^ q) (m' * 2 ^ q') := by
  rcases lt_trichotomy q q' with hlt | rfl | hgt
  · rw [compare_lt_iff_lt.mpr hlt, compare_lt_iff_lt.mpr (magnitude_lt_of_exponent_lt h h' hlt)]
    rfl
  · have hq : (0 : ℚ) < 2 ^ q := by positivity
    rw [compare_eq_iff_eq.mpr rfl, Ordering.then]
    rcases lt_trichotomy m m' with hlt | rfl | hgt
    · rw [compare_lt_iff_lt.mpr hlt, eq_comm, compare_lt_iff_lt, mul_lt_mul_iff_left₀ hq]
      exact_mod_cast hlt
    · rw [compare_eq_iff_eq.mpr rfl, compare_eq_iff_eq.mpr rfl]
    · rw [compare_gt_iff_gt.mpr hgt, eq_comm, compare_gt_iff_gt, mul_lt_mul_iff_left₀ hq]
      exact_mod_cast hgt
  · rw [compare_gt_iff_gt.mpr hgt, compare_gt_iff_gt.mpr (magnitude_lt_of_exponent_lt h' h hgt)]
    rfl

end Magnitudes

/-- Changing both signs turns a comparison round. -/
theorem compare_neg (a b : ℚ) : compare (-a) (-b) = (compare a b).swap := by
  rcases lt_trichotomy a b with h | rfl | h
  · rw [compare_lt_iff_lt.mpr h, compare_gt_iff_gt.mpr (neg_lt_neg h)]
    rfl
  · rw [compare_eq_iff_eq.mpr rfl, compare_eq_iff_eq.mpr rfl]
    rfl
  · rw [compare_gt_iff_gt.mpr h, compare_lt_iff_lt.mpr (neg_lt_neg h)]
    rfl

section Compared

variable {x y : Float}

/-- What arithmetic sees of a finite double: a zero, or a number on either side of it. -/
theorem unpack_sides (h : x.isFinite = true) :
    (∃ s, x.toModel.unpack = .zero s ∧ value x = 0) ∨
      ∃ m q, ∃ hm : 0 < m, Fits m q ∧ (0 : ℚ) < m * 2 ^ q ∧
        (x.toModel.unpack = .finite .positive m q hm ∧ value x = m * 2 ^ q ∨
          x.toModel.unpack = .finite .negative m q hm ∧ value x = -(m * 2 ^ q)) := by
  obtain ⟨n, m, q, hparts⟩ := isFinite_iff.mp h
  have hvalue := value_of_parts hparts
  rcases m.eq_zero_or_pos with rfl | hm
  · obtain ⟨s, hs⟩ | ⟨-, hpos, -⟩ := unpack_cases hparts
    · exact .inl ⟨s, hs, by simp [hvalue]⟩
    · exact absurd hpos (lt_irrefl 0)
  · have hunpack := unpack_of_parts hparts hm
    have hpos : (0 : ℚ) < m := Nat.cast_pos.mpr hm
    refine .inr ⟨m, q, hm, fits_of_parts hparts, by positivity, ?_⟩
    cases n with
    | false => exact .inl ⟨hunpack, by simp [hvalue]⟩
    | true => exact .inr ⟨hunpack, by simp [hvalue]⟩

variable (hx : x.isFinite = true) (hy : y.isFinite = true)
include hx hy

theorem compare_unpack :
    x.toModel.unpack.compare y.toModel.unpack = some (compare (value x) (value y)) := by
  obtain ⟨s, hx, hvx⟩ | ⟨m, q, hm, hfits, hpos, ⟨hx, hvx⟩ | ⟨hx, hvx⟩⟩ := unpack_sides hx <;>
    obtain ⟨s', hy, hvy⟩ | ⟨m', q', hm', hfits', hpos', ⟨hy, hvy⟩ | ⟨hy, hvy⟩⟩ :=
      unpack_sides hy <;> rw [hx, hy, hvx, hvy]
  · rfl
  · exact congrArg some (compare_lt_iff_lt.mpr hpos').symm
  · exact congrArg some (compare_gt_iff_gt.mpr (neg_neg_of_pos hpos')).symm
  · exact congrArg some (compare_gt_iff_gt.mpr hpos).symm
  · exact congrArg some (compare_magnitude hfits hfits')
  · exact congrArg some (compare_gt_iff_gt.mpr (by linarith)).symm
  · exact congrArg some (compare_lt_iff_lt.mpr (neg_neg_of_pos hpos)).symm
  · exact congrArg some (compare_lt_iff_lt.mpr (by linarith)).symm
  · rw [compare_neg, ← compare_magnitude hfits hfits']
    rfl

/-- Finite doubles compare as the numbers that they stand for. -/
theorem lt_iff_value_lt : x < y ↔ value x < value y := by
  have hlt : x < y ↔ x.toModel.unpack.lt y.toModel.unpack = true := decide_eq_true_iff
  rw [hlt, UnpackedFloat.lt, compare_unpack hx hy, beq_iff_eq, Option.some.injEq,
    compare_lt_iff_lt]

theorem le_iff_value_le : x ≤ y ↔ value x ≤ value y := by
  have hle : x ≤ y ↔ x.toModel.unpack.le y.toModel.unpack = true := decide_eq_true_iff
  rw [hle, UnpackedFloat.le, compare_unpack hx hy, Option.any_some]
  exact Ordering.isLE_iff_ne_gt.trans compare_le_iff_le

theorem beq_iff_value_eq : (x == y) = true ↔ value x = value y := by
  have heq : (x == y) = x.toModel.unpack.beq y.toModel.unpack := rfl
  rw [heq, UnpackedFloat.beq, compare_unpack hx hy, beq_iff_eq, Option.some.injEq,
    compare_eq_iff_eq]

end Compared

/-! ## Whole parts -/

/-- The whole part of a double without its sign is its floor. -/
theorem floor_magnitude (m : ℕ) (q : ℤ) : ⌊(m : ℚ) * 2 ^ q⌋₊ = scaledDown m q := by
  rcases lt_or_ge q 0 with hneg | hpos
  · obtain ⟨k, rfl⟩ : ∃ k : ℕ, q = -k := ⟨(-q).toNat, by omega⟩
    rw [scaledDown_of_neg hneg, neg_neg, Int.toNat_natCast, ← Nat.floor_div_eq_div (K := ℚ),
      zpow_neg, zpow_natCast, div_eq_mul_inv]
    push_cast
    rfl
  · obtain ⟨k, rfl⟩ : ∃ k : ℕ, q = k := ⟨q.toNat, by omega⟩
    rw [scaledDown_of_nonneg hpos, Int.toNat_natCast, zpow_natCast]
    exact_mod_cast Nat.floor_natCast (R := ℚ) (m * 2 ^ k)

/-- The parts of a finite double that is above zero. -/
theorem exists_parts_of_value_pos {x : Float} (hx : x.isFinite = true) (hpos : 0 < value x) :
    ∃ m q, parts x = .finite false m q ∧ Fits m q ∧ value x = m * 2 ^ q := by
  obtain ⟨n, m, q, hparts⟩ := isFinite_iff.mp hx
  have hvalue := value_of_parts hparts
  cases n with
  | false =>
    rw [if_neg Bool.false_ne_true, one_mul] at hvalue
    exact ⟨m, q, hparts, fits_of_parts hparts, hvalue⟩
  | true =>
    have hnonneg : (0 : ℚ) ≤ m * 2 ^ q := by positivity
    rw [if_pos rfl] at hvalue
    linarith

theorem wholePart_eq_floor {x : Float} (hx : x.isFinite = true) (hpos : 0 < value x) :
    wholePart x = ⌊value x⌋₊ := by
  obtain ⟨m, q, hparts, -, hvalue⟩ := exists_parts_of_value_pos hx hpos
  rw [wholePart_of_parts hparts, hvalue, floor_magnitude]

/-- A number above zero without its fraction is its whole part. -/
theorem value_truncate {x : Float} (hx : x.isFinite = true) (hpos : 0 < value x) :
    value (truncate x) = wholePart x := by
  obtain ⟨m, q, hparts, hfits, -⟩ := exists_parts_of_value_pos hx hpos
  have ht := parts_truncate hparts
  rw [wholePart_of_parts hparts]
  by_cases whole : 0 ≤ q
  · rw [if_pos whole] at ht
    obtain ⟨k, rfl⟩ : ∃ k : ℕ, q = k := ⟨q.toNat, by omega⟩
    rw [value_of_parts ht, scaledDown_of_nonneg whole, Int.toNat_natCast, zpow_natCast]
    push_cast
    simp
  · rw [if_neg whole] at ht
    by_cases low : q < -52
    · rw [if_pos low] at ht
      rw [value_of_parts ht, scaledDown_eq_zero hfits low]
      simp
    · rw [if_neg low] at ht
      obtain ⟨k, rfl⟩ : ∃ k : ℕ, q = -k := ⟨(-q).toNat, by omega⟩
      rw [value_of_parts ht, scaledDown_of_neg (by omega), neg_neg, Int.toNat_natCast, zpow_neg,
        zpow_natCast]
      push_cast
      simp

/-! ## Doubles turned into words -/

theorem roundToInt_positive (m : ℕ) (q : ℤ) : roundToInt .positive m q = scaledDown m q := by
  have hmantissa : roundToInt .positive m q =
      (ExtendedMantissa.ofMantissaAndAccuracy (m <<< (q - 0).toNat) .exact >>>
        (0 - (q - (q - 0).toNat)).toNat).mantissa := rfl
  rw [hmantissa, mantissa_shiftRight, sub_zero, Nat.shiftLeft_eq]
  rcases lt_or_ge q 0 with hneg | hpos
  · rw [scaledDown_of_neg hneg, show q.toNat = 0 by omega]
    simp [ExtendedMantissa.ofMantissaAndAccuracy]
  · rw [scaledDown_of_nonneg hpos, show (0 - (q - q.toNat)).toNat = 0 by omega]
    simp [ExtendedMantissa.ofMantissaAndAccuracy]

theorem toNat_ofNatClamp (n : ℕ) : (UInt64.ofNatClamp n).toNat = min n (2 ^ 64 - 1) := by
  unfold UInt64.ofNatClamp
  split
  · rename_i h
    have : n < 2 ^ 64 := h
    rw [UInt64.toNat_ofNatLT]
    omega
  · rename_i h
    have : ¬ n < 2 ^ 64 := h
    rw [UInt64.toNat_ofNatLT]
    show 2 ^ 64 - 1 = _
    omega

/-- A double above zero is turned into the word of its whole part, or into the greatest word. -/
theorem toNat_toUInt64 {x : Float} (hx : x.isFinite = true) (hpos : 0 < value x) :
    x.toUInt64.toNat = min (wholePart x) (2 ^ 64 - 1) := by
  obtain ⟨m, q, hparts, -, hvalue⟩ := exists_parts_of_value_pos hx hpos
  have hm : 0 < m := by
    refine Nat.pos_of_ne_zero fun hzero => ?_
    rw [hvalue, hzero, Nat.cast_zero, zero_mul] at hpos
    exact lt_irrefl 0 hpos
  have hint : x.toModel.unpack.toInt 0 (UInt64.size - 1) = scaledDown m q := by
    rw [unpack_of_parts hparts hm]
    exact roundToInt_positive m q
  have hword : x.toUInt64 =
      UInt64.ofNatClamp (x.toModel.unpack.toInt 0 (UInt64.size - 1)).toNat := rfl
  rw [hword, toNat_ofNatClamp, hint, Int.toNat_natCast, wholePart_of_parts hparts]

/-! ## Words turned into doubles -/

/-- A double above the one as which a number reads is above the number itself. -/
theorem ReadsAs.lt_of_lt {v : ℚ} {m m' : ℕ} {q q' : ℤ} (h : ReadsAs v m q) (hfits : Fits m q)
    (hfits' : Fits m' q') (hlt : (m : ℚ) * 2 ^ q < m' * 2 ^ q') : v < m' * 2 ^ q' := by
  have hq : (0 : ℚ) < 2 ^ q := by positivity
  have hle : q ≤ q' := by
    by_contra hgt
    exact lt_asymm hlt (magnitude_lt_of_exponent_lt hfits' hfits (not_le.mp hgt))
  -- The greater double has a whole number of the places of the smaller one.
  obtain ⟨k, rfl⟩ : ∃ k : ℕ, q' = q + k := ⟨(q' - q).toNat, by omega⟩
  have hplaces : (m' : ℚ) * 2 ^ (q + k) = (m' * 2 ^ k : ℕ) * 2 ^ q := by
    rw [zpow_add₀ two_ne_zero, zpow_natCast]
    push_cast
    ring
  rw [hplaces] at hlt ⊢
  have hnext : ((m + 1 : ℕ) : ℚ) ≤ (m' * 2 ^ k : ℕ) :=
    Nat.cast_le.mpr (Nat.cast_lt.mp ((mul_lt_mul_iff_left₀ hq).mp hlt))
  have hnear := h.nearest.2.1
  push_cast at hnext
  rw [← div_lt_iff₀ hq]
  push_cast
  linarith

/-- Every whole number that is not too great for the doubles reads as one of them. -/
theorem exists_readsAs {c : ℕ} (hpos : 0 < c) (hc : Nat.log 2 c ≤ 1000) :
    ∃ m q, Fits m q ∧ 0 < m ∧ ReadsAs c m q := by
  rcases lt_or_ge c (2 ^ 53) with hsmall | hlarge
  · obtain ⟨m, q, hfits, hfull, hvalue⟩ := exists_eq_magnitude hpos hsmall
    refine ⟨m, q, hfits, by omega, ?_⟩
    rw [hvalue]
    exact readsAs_self m q
  have hlog : 53 ≤ Nat.log 2 c := (Nat.le_log_iff_pow_le (by decide) hpos.ne').mpr hlarge
  obtain ⟨k, hk⟩ : ∃ k : ℕ, Nat.log 2 c = 52 + k := ⟨Nat.log 2 c - 52, by omega⟩
  have hpower : (0 : ℚ) < 2 ^ k := by positivity
  have hlow : (2 : ℚ) ^ 52 ≤ c / 2 ^ k := by
    rw [le_div_iff₀ hpower, ← pow_add, ← hk]
    exact_mod_cast Nat.pow_log_le_self 2 hpos.ne'
  have hhigh : (c : ℚ) / 2 ^ k < 2 ^ 53 := by
    rw [div_lt_iff₀ hpower, ← pow_add, show 53 + k = Nat.log 2 c + 1 by omega]
    exact_mod_cast Nat.lt_pow_succ_log_self (by decide) c
  obtain ⟨r, hr⟩ : ∃ r, NearestEven ((c : ℚ) / 2 ^ k) r :=
    ⟨_, ((represents_exact (m := c) rfl).shiftRight k).nearestEven⟩
  have hrlow : 2 ^ 52 ≤ r := by
    have hlt : ((2 ^ 52 : ℕ) : ℚ) < (r + 1 : ℕ) := by
      have := hr.2.1
      push_cast
      linarith
    exact Nat.le_of_lt_succ (Nat.cast_lt.mp hlt)
  have hrhigh : r ≤ 2 ^ 53 := by
    have hlt : (r : ℚ) < (2 ^ 53 + 1 : ℕ) := by
      have := hr.1
      push_cast
      linarith
    exact Nat.le_of_lt_succ (Nat.cast_lt.mp hlt)
  rcases hrhigh.eq_or_lt with rfl | hlt
  · -- The number is rounded up to a power of two, which has one place less.
    have hhalf : (c : ℚ) / 2 ^ (k + 1 : ℤ) = c / 2 ^ k / 2 := by
      rw [zpow_add_one₀ two_ne_zero, zpow_natCast, div_div]
    have hnear := hr.1
    push_cast at hnear
    refine ⟨2 ^ 52, k + 1, ⟨by decide, .inl le_rfl, by omega, by omega⟩, by decide, ?_⟩
    refine ⟨⟨?_, ?_, fun hodd => absurd hodd (by decide)⟩, fun _ _ => ?_⟩ <;>
      rw [hhalf] <;> push_cast <;> linarith
  · refine ⟨r, k, ⟨hlt, .inl hrlow, by omega, by omega⟩, by omega, ?_, fun hr _ => ?_⟩
    · rw [zpow_natCast]
      exact hr
    · rw [zpow_natCast, hr]
      push_cast
      linarith

/-- A whole number that is not too great for the doubles is turned into a finite one. -/
theorem isFinite_ofInt {i : ℤ} (h : i.natAbs < 2 ^ 64) : (Float.ofInt i).isFinite = true := by
  have hnat : ∀ c : ℕ, 0 < c → c < 2 ^ 64 →
      ∃ m q, Fits m q ∧ 0 < m ∧ Float.ofNat c = compose false m q := by
    intro c hpos hc
    have hlog : Nat.log 2 c ≤ 1000 := by
      have := Nat.log_lt_of_lt_pow hpos.ne' hc
      omega
    obtain ⟨m, q, hfits, hm, hreads⟩ := exists_readsAs hpos hlog
    have hscaled : ReadsAs ((c : ℚ) * 10 ^ (0 : ℤ)) m q := by rwa [zpow_zero, mul_one]
    exact ⟨m, q, hfits, hm, ofScientific_eq (parts_compose hfits) hm hscaled⟩
  cases i with
  | ofNat c =>
    rcases c.eq_zero_or_pos with rfl | hpos
    · rfl
    · obtain ⟨m, q, hfits, -, heq⟩ := hnat c hpos h
      rw [show Float.ofInt (Int.ofNat c) = Float.ofNat c from rfl, heq]
      exact isFinite_iff.mpr ⟨_, _, _, parts_compose hfits⟩
  | negSucc k =>
    obtain ⟨m, q, hfits, hm, heq⟩ := hnat (k + 1) k.succ_pos h
    rw [show Float.ofInt (Int.negSucc k) = -Float.ofNat (k + 1) from rfl, heq,
      neg_eq (parts_compose hfits) (parts_compose (n := true) hfits) hm]
    exact isFinite_iff.mpr ⟨_, _, _, parts_compose hfits⟩

/-- A double above the one into which a word is turned is above the word. -/
theorem lt_value_of_toFloat_lt {w : UInt64} {x : Float} (hx : x.isFinite = true)
    (h : w.toFloat < x) : (w.toNat : ℚ) < value x := by
  rcases w.toNat.eq_zero_or_pos with hzero | hpos
  · obtain rfl : w = 0 := UInt64.toNat_inj.mp hzero
    have hfloat : UInt64.toFloat 0 = 0 := rfl
    rw [hfloat, lt_iff_value_lt rfl hx, value_zero] at h
    exact_mod_cast h
  · have hlog : Nat.log 2 w.toNat ≤ 1000 := by
      have := Nat.log_lt_of_lt_pow hpos.ne' w.toNat_lt
      omega
    obtain ⟨m, q, hfits, hm, hreads⟩ := exists_readsAs hpos hlog
    have hparts := parts_toFloat hpos hreads hfits hm
    rw [lt_iff_value_lt (isFinite_iff.mpr ⟨_, _, _, hparts⟩) hx, value_of_parts hparts,
      if_neg Bool.false_ne_true, one_mul] at h
    have habove : 0 < value x := lt_of_le_of_lt (by positivity) h
    obtain ⟨m', q', -, hfits', hvalue⟩ := exists_parts_of_value_pos hx habove
    rw [hvalue] at h ⊢
    exact hreads.lt_of_lt hfits hfits' h

end BlockSteps.Decimal
