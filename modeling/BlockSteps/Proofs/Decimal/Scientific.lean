import Mathlib
import BlockSteps.Decimal.Literal
import BlockSteps.Proofs.Decimal.Nearest

/-!
# Literals are read exactly

A literal `± c * 10 ^ e` is turned into a double by arithmetic on doubles: a multiplication by a
power of ten, or a division by one, with a short way for numbers that are small enough for both
factors to be doubles.  Each way ends with one rounding of the exact number, so what comes out is
the double as which the literal reads.

**Main statements.**  `ofScientific_eq` for the digits and the power of ten, `Literal.toFloat_eq`
for a literal with its sign, and `ofInt_eq` for whole numbers.
-/

namespace BlockSteps.Decimal

open Float.Model Float.Model.UnpackedFloat

/-! ## Packing what was unpacked -/

/-- The sign of a number, as arithmetic has it. -/
def signIf (negative : Bool) : Sign := if negative then .negative else .positive

theorem unpack_of_parts {x : Float} {n : Bool} {m : ℕ} {q : ℤ} (h : parts x = .finite n m q)
    (hm : 0 < m) : x.toModel.unpack = .finite (signIf n) m q hm := by
  rw [parts_eq_ofUnpacked] at h
  cases hu : x.toModel.unpack with
  | zero s =>
    rw [hu] at h
    cases h
    exact absurd hm (lt_irrefl 0)
  | finite s m' q' hpos =>
    rw [hu] at h
    cases h
    cases s <;> rfl
  | infinity s =>
    rw [hu] at h
    cases h
  | notANumber =>
    rw [hu] at h
    cases h

theorem unpack_of_parts_zero {x : Float} {n : Bool} {q : ℤ} (h : parts x = .finite n 0 q) :
    x.toModel.unpack = .zero (signIf n) := by
  rw [parts_eq_ofUnpacked] at h
  cases hu : x.toModel.unpack with
  | zero s =>
    rw [hu] at h
    cases h
    cases s <;> rfl
  | finite s m' q' hpos =>
    rw [hu] at h
    cases h
    exact absurd hpos (lt_irrefl 0)
  | infinity s =>
    rw [hu] at h
    cases h
  | notANumber =>
    rw [hu] at h
    cases h

/-- A finite double is what its sign, coefficient and exponent say. -/
theorem eq_of_parts {x y : Float} {n : Bool} {m : ℕ} {q : ℤ} (hx : parts x = .finite n m q)
    (hy : parts y = .finite n m q) : x = y := by
  have hunpack : x.toModel.unpack = y.toModel.unpack := by
    rcases Nat.eq_zero_or_pos m with rfl | hm
    · rw [unpack_of_parts_zero hx, unpack_of_parts_zero hy]
    · rw [unpack_of_parts hx hm, unpack_of_parts hy hm]
  have hpack : ∀ {z : Float}, parts z = .finite n m q →
      UnpackedFloat.pack double z.toModel.unpack = z.toModel.toBits.toBitVec := fun h =>
    pack_unpack (isFinite_iff_exponent.mp (isFinite_iff.mpr ⟨n, m, q, h⟩))
  have hbits : x.toModel.toBits.toBitVec = y.toModel.toBits.toBitVec := by
    rw [← hpack hx, ← hpack hy, hunpack]
  obtain ⟨⟨bits, valid⟩⟩ := x
  obtain ⟨⟨bits', valid'⟩⟩ := y
  congr 2
  exact UInt64.toBitVec_inj.mp hbits

/-- A double is what its parts are packed to. -/
theorem ofModel_pack {x : Float} {n : Bool} {m : ℕ} {q : ℤ} (h : parts x = .finite n m q)
    (hm : 0 < m) : Float.ofModel (Float.Model.pack (.finite (signIf n) m q hm)) = x := by
  have hfinite := isFinite_iff_exponent.mp (isFinite_iff.mpr ⟨n, m, q, h⟩)
  have hbits : UnpackedFloat.pack double x.toModel.unpack = x.toModel.toBits.toBitVec :=
    pack_unpack hfinite
  rw [← unpack_of_parts h hm]
  obtain ⟨⟨bits, valid⟩⟩ := x
  simp only [Float.Model.pack]
  congr 2
  exact UInt64.toBitVec_inj.mp hbits

/-- The negated double has the other sign. -/
theorem neg_eq {x y : Float} {m : ℕ} {q : ℤ} (hx : parts x = .finite false m q)
    (hy : parts y = .finite true m q) (hm : 0 < m) : -x = y := by
  have hneg : -x = Float.ofModel (Float.Model.pack (UnpackedFloat.neg x.toModel.unpack)) := rfl
  rw [hneg, unpack_of_parts hx hm]
  exact ofModel_pack hy hm

/-! ## Products, quotients and whole numbers -/

/-- A coefficient with all its places is rounded at the last of them. -/
theorem le_placeOf {n : ℕ} (e : ℤ) (hn : 2 ^ 52 ≤ n) : e ≤ placeOf n e := by
  have hlog : 52 ≤ Nat.log 2 n := (Nat.le_log_iff_pow_le (by decide) (by omega)).mpr hn
  unfold placeOf
  omega

/-- The product of two numbers is the double as which it reads. -/
theorem mul_eq {m m' n : ℕ} {q q' e : ℤ} {hm : 0 < m} {hm' : 0 < m'} {v : ℚ} {x : Float}
    (hx : parts x = .finite false n e) (hn : 0 < n) (hreads : ReadsAs v n e)
    (hv : v = m * 2 ^ q * (m' * 2 ^ q')) (hfull : 2 ^ 52 ≤ m) :
    Float.ofModel (Float.Model.pack (UnpackedFloat.mul double (.finite .positive m q hm)
      (.finite .positive m' q' hm'))) = x := by
  have hplaces : 2 ^ 52 ≤ m * m' := hfull.trans (Nat.le_mul_of_pos_right m hm')
  have hrepresents : Represents (.ofMantissaAndAccuracy (m * m') .exact) (v / 2 ^ (q + q')) := by
    apply represents_exact
    rw [hv, zpow_add₀ two_ne_zero]
    push_cast
    field_simp
  have hround := roundWithAccuracy_eq (s := .positive * .positive) hreads (fits_of_parts hx) hn
    hrepresents (le_placeOf _ hplaces)
  have hmul : UnpackedFloat.mul double (.finite .positive m q hm) (.finite .positive m' q' hm') =
      roundWithAccuracy double (.positive * .positive) (m * m') (q + q') .exact := rfl
  rw [hmul, hround]
  exact ofModel_pack hx hn

/-- The note on a quotient says how its rest compares with half of the divisor. -/
theorem represents_quotient {a b : ℕ} (hb : 0 < b) :
    Represents (.ofMantissaAndAccuracy (a / b) (accuracyOfFraction (a % b) b)) (a / b : ℚ) := by
  have hb' : (0 : ℚ) < b := Nat.cast_pos.mpr hb
  have ha : (a : ℚ) / b = (a / b : ℕ) + (a % b : ℕ) / b := by
    have hdivmod : (a : ℚ) = b * (a / b : ℕ) + (a % b : ℕ) := by
      exact_mod_cast (Nat.div_add_mod a b).symm
    field_simp
    linarith
  have hrest : ((a % b : ℕ) : ℚ) / b < 1 := by
    rw [div_lt_one hb']
    exact Nat.cast_lt.mpr (Nat.mod_lt a hb)
  rw [ha]
  generalize a % b = r at hrest
  unfold accuracyOfFraction
  split
  · rename_i hzero
    subst hzero
    apply represents_exact
    simp
  · rename_i hne
    have hpos : (0 : ℚ) < r / b := div_pos (Nat.cast_pos.mpr (Nat.pos_of_ne_zero hne)) hb'
    rcases hcompare : compare (2 * r) b with _ | _ | _
    · have hlt : ((2 * r : ℕ) : ℚ) < b := Nat.cast_lt.mpr (compare_lt_iff_lt.mp hcompare)
      have : (r : ℚ) / b < 1 / 2 := by
        rw [div_lt_iff₀ hb']
        push_cast at hlt
        linarith
      show ((a / b : ℕ) : ℚ) < (a / b : ℕ) + r / b ∧ _ < ((a / b : ℕ) : ℚ) + 1 / 2
      exact ⟨by linarith, by linarith⟩
    · have heq : ((2 * r : ℕ) : ℚ) = b := by exact_mod_cast (compare_eq_iff_eq.mp hcompare)
      show ((a / b : ℕ) : ℚ) + r / b = (a / b : ℕ) + 1 / 2
      rw [← heq]
      push_cast
      have : (r : ℚ) ≠ 0 := Nat.cast_ne_zero.mpr hne
      field_simp
    · have hgt : (b : ℚ) < (2 * r : ℕ) := Nat.cast_lt.mpr (compare_gt_iff_gt.mp hcompare)
      have : (1 : ℚ) / 2 < r / b := by
        rw [lt_div_iff₀ hb']
        push_cast at hgt
        linarith
      show ((a / b : ℕ) : ℚ) + 1 / 2 < (a / b : ℕ) + r / b ∧ _ < ((a / b : ℕ) : ℚ) + 1
      exact ⟨by linarith, by linarith⟩

/-- The exponent of the quotient of two numbers before it is rounded. -/
def quotientPlace (m : ℕ) (q : ℤ) (m' : ℕ) (q' : ℤ) : ℤ :=
  min (q - q') (max ((Nat.log 2 m + q) - (Nat.log 2 m' + q') - 53) (-1074))

/-- The dividend is shifted by as many places as the exponent is lowered, and divided. -/
theorem divCore_eq (m : ℕ) (q : ℤ) (m' : ℕ) (q' : ℤ) {k : ℕ}
    (hk : k = (q - q' - quotientPlace m q m' q').toNat) :
    divCore double m q m' q' = (m * 2 ^ k / m', quotientPlace m q m' q',
      accuracyOfFraction (m * 2 ^ k % m') m') := by
  have htarget : min (q - q')
      (Format.targetExponent double (totalExponent m q - totalExponent m' q')) =
      quotientPlace m q m' q' := by
    simp only [quotientPlace, Format.targetExponent, totalExponent, Format.mantissaBits,
      Format.minExponent, Nat.log2_eq_log_two]
    norm_num
    congr 2
    omega
  unfold divCore
  dsimp only
  rw [htarget, ← hk, Nat.shiftLeft_eq]

/-- The dividend is shifted until the quotient has all its places, unless it is exact before. -/
theorem quotientPlace_le {m m' : ℕ} (q q' : ℤ) (hm : 0 < m) (hm' : 0 < m') {k : ℕ}
    (hk : k = (q - q' - quotientPlace m q m' q').toNat) :
    quotientPlace m q m' q' ≤ placeOf (m * 2 ^ k / m') (quotientPlace m q m' q') := by
  by_cases hleast : quotientPlace m q m' q' ≤ -1074
  · exact hleast.trans (le_max_right _ _)
  · have hexponent : 53 + Nat.log 2 m' ≤ Nat.log 2 m + k := by
      unfold quotientPlace at hk hleast
      omega
    refine le_placeOf _ ?_
    rw [Nat.le_div_iff_mul_le hm']
    calc 2 ^ 52 * m'
      _ ≤ 2 ^ 52 * 2 ^ (Nat.log 2 m' + 1) :=
        Nat.mul_le_mul_left _ (Nat.lt_pow_succ_log_self (by decide) m').le
      _ = 2 ^ (53 + Nat.log 2 m') := by
        rw [← Nat.pow_add]
        congr 1
        omega
      _ ≤ 2 ^ (Nat.log 2 m + k) := Nat.pow_le_pow_right (by decide) hexponent
      _ = 2 ^ Nat.log 2 m * 2 ^ k := Nat.pow_add 2 _ _
      _ ≤ m * 2 ^ k := Nat.mul_le_mul_right _ (Nat.pow_log_le_self 2 hm.ne')

/-- The quotient of two numbers is the double as which it reads. -/
theorem div_eq {m m' n : ℕ} {q q' e : ℤ} {hm : 0 < m} {hm' : 0 < m'} {v : ℚ} {x : Float}
    (hx : parts x = .finite false n e) (hn : 0 < n) (hreads : ReadsAs v n e)
    (hv : v = m * 2 ^ q / (m' * 2 ^ q')) :
    Float.ofModel (Float.Model.pack (UnpackedFloat.div double (.finite .positive m q hm)
      (.finite .positive m' q' hm'))) = x := by
  obtain ⟨k, hk⟩ : ∃ k : ℕ, k = (q - q' - quotientPlace m q m' q').toNat := ⟨_, rfl⟩
  have hcore := divCore_eq m q m' q' hk
  have hplaces := quotientPlace_le q q' hm hm' hk
  have hkt : (k : ℤ) = q - q' - quotientPlace m q m' q' := by
    have : quotientPlace m q m' q' ≤ q - q' := min_le_left _ _
    omega
  generalize quotientPlace m q m' q' = t at hcore hplaces hkt
  have hrepresents : Represents (.ofMantissaAndAccuracy (m * 2 ^ k / m')
      (accuracyOfFraction (m * 2 ^ k % m') m')) (v / 2 ^ t) := by
    have hvalue : v / 2 ^ t = ((m * 2 ^ k : ℕ) : ℚ) / m' := by
      have hpower : (2 : ℚ) ^ k = 2 ^ q / 2 ^ q' / 2 ^ t := by
        rw [← zpow_natCast, hkt, zpow_sub₀ two_ne_zero, zpow_sub₀ two_ne_zero]
      rw [hv]
      push_cast
      rw [hpower]
      field_simp
    rw [hvalue]
    exact represents_quotient hm'
  have hround := roundWithAccuracy_eq (s := .positive / .positive) hreads (fits_of_parts hx) hn
    hrepresents hplaces
  have hdiv : UnpackedFloat.div double (.finite .positive m q hm) (.finite .positive m' q' hm') =
      roundWithAccuracy double (.positive / .positive) (m * 2 ^ k / m') t
        (accuracyOfFraction (m * 2 ^ k % m') m') := by
    show (match divCore double m q m' q' with
      | (m, e, acc) => roundWithAccuracy double (Sign.positive / Sign.positive) m e acc) = _
    rw [hcore]
  rw [hdiv, hround]
  exact ofModel_pack hx hn

/-- A natural number below `2 ^ 53` is a double. -/
theorem exists_eq_magnitude {c : ℕ} (hpos : 0 < c) (hc : c < 2 ^ 53) :
    ∃ m q, Fits m q ∧ 2 ^ 52 ≤ m ∧ (c : ℚ) = m * 2 ^ q := by
  obtain ⟨j, hj⟩ : ∃ j, j = 52 - Nat.log 2 c := ⟨_, rfl⟩
  have hlog : Nat.log 2 c ≤ 52 := Nat.le_of_lt_succ (Nat.log_lt_of_lt_pow hpos.ne' hc)
  have hlow : 2 ^ 52 ≤ c * 2 ^ j := by
    calc 2 ^ 52
      _ = 2 ^ Nat.log 2 c * 2 ^ j := by rw [← Nat.pow_add]; congr 1; omega
      _ ≤ c * 2 ^ j := Nat.mul_le_mul_right _ (Nat.pow_log_le_self 2 hpos.ne')
  have hhigh : c * 2 ^ j < 2 ^ 53 := by
    calc c * 2 ^ j
      _ < 2 ^ (Nat.log 2 c + 1) * 2 ^ j :=
        Nat.mul_lt_mul_of_pos_right (Nat.lt_pow_succ_log_self (by decide) c) (Nat.two_pow_pos j)
      _ = 2 ^ 53 := by rw [← Nat.pow_add]; congr 1; omega
  refine ⟨c * 2 ^ j, -j, ⟨hhigh, .inl hlow, by omega, by omega⟩, hlow, ?_⟩
  push_cast
  rw [zpow_neg, zpow_natCast]
  field_simp

/-- A word is turned into the double as which its number reads. -/
theorem parts_toFloat {w : UInt64} {m : ℕ} {q : ℤ} (hpos : 0 < w.toNat)
    (hreads : ReadsAs w.toNat m q) (hfits : Fits m q) (hm : 0 < m) :
    parts w.toFloat = .finite false m q := by
  obtain ⟨k, hk⟩ : ∃ k, k = 52 - Nat.log 2 w.toNat := ⟨_, rfl⟩
  have hrepresents : Represents (.ofMantissaAndAccuracy (w.toNat * 2 ^ k) .exact)
      ((w.toNat : ℚ) / 2 ^ (-k : ℤ)) := by
    apply represents_exact
    rw [zpow_neg, zpow_natCast]
    push_cast
    field_simp
  have hplaces : -(k : ℤ) ≤ placeOf (w.toNat * 2 ^ k) (-k) := by
    refine le_placeOf _ ?_
    calc 2 ^ 52
      _ ≤ 2 ^ (Nat.log 2 w.toNat + k) := Nat.pow_le_pow_right (by decide) (by omega)
      _ = 2 ^ Nat.log 2 w.toNat * 2 ^ k := Nat.pow_add 2 _ _
      _ ≤ w.toNat * 2 ^ k := Nat.mul_le_mul_right _ (Nat.pow_log_le_self 2 hpos.ne')
  have hround := roundWithAccuracy_eq (s := .positive) hreads hfits hm hrepresents hplaces
  have hnormalize : UnpackedFloat.ofUInt64 double w =
      roundWithAccuracy double .positive (w.toNat * 2 ^ k) (-k) .exact := by
    have hcompare : compare (w.toNat : ℤ) 0 = .gt := compare_gt_iff_gt.mpr (by omega)
    have hshift : (-Format.targetExponent double (totalExponent w.toNat 0)).toNat = k := by
      rw [targetExponent_eq]
      omega
    unfold UnpackedFloat.ofUInt64 UnpackedFloat.ofNat UnpackedFloat.ofInt UnpackedFloat.normalize
    rw [hcompare]
    simp only [Int.toNat_natCast, UnpackedFloat.round, decreaseExponent, zero_sub, hshift,
      Nat.shiftLeft_eq]
  have hfloat : w.toFloat =
      Float.ofModel (Float.Model.pack (UnpackedFloat.ofUInt64 double w)) := rfl
  have hparts := parts_compose (n := false) hfits
  rw [hfloat, hnormalize, hround, ← hparts]
  congr 1
  exact ofModel_pack hparts hm

/-- A natural number below `2 ^ 53` is turned into itself. -/
theorem exists_parts_toFloat {c : ℕ} (hpos : 0 < c) (hc : c < 2 ^ 53) :
    ∃ m q, parts c.toUInt64.toFloat = .finite false m q ∧ 2 ^ 52 ≤ m ∧ (c : ℚ) = m * 2 ^ q := by
  obtain ⟨m, q, hfits, hfull, hvalue⟩ := exists_eq_magnitude hpos hc
  have hnat : c.toUInt64.toNat = c := Nat.mod_eq_of_lt (by omega)
  refine ⟨m, q, parts_toFloat (by rwa [hnat]) ?_ hfits (by omega), hfull, hvalue⟩
  rw [hnat, hvalue]
  exact readsAs_self m q

/-! ## Literals -/

/-- Whether the parts are those of the `k`-th power of ten. -/
def Parts.isPowerOfTen (k : ℕ) : Parts → Bool
  | .finite false m q => decide (0 < m ∧ -52 ≤ q ∧ 10 ^ k * 2 ^ 52 = m * 2 ^ (q + 52).toNat)
  | _ => false

theorem isPowerOfTen_table : ∀ i : Fin Float.exactlyRepresentablePowersOfTen.size,
    (parts Float.exactlyRepresentablePowersOfTen[(i : ℕ)]).isPowerOfTen i = true := by
  decide +kernel

/-- The powers of ten up to the twenty-second are doubles. -/
theorem parts_powerOfTen {k : ℕ} (hk : k < Float.exactlyRepresentablePowersOfTen.size) :
    ∃ m q, 0 < m ∧ parts Float.exactlyRepresentablePowersOfTen[k] = .finite false m q ∧
      (10 : ℚ) ^ k = m * 2 ^ q := by
  have hpower := isPowerOfTen_table ⟨k, hk⟩
  unfold Parts.isPowerOfTen at hpower
  split at hpower
  · rename_i m q hparts
    obtain ⟨hm, hq, hpower⟩ := of_decide_eq_true hpower
    refine ⟨m, q, hm, hparts, ?_⟩
    have hpower' : (10 : ℚ) ^ k * 2 ^ 52 = m * 2 ^ (q + 52).toNat := by exact_mod_cast hpower
    have hexponent : (2 : ℚ) ^ (q + 52).toNat = 2 ^ q * 2 ^ 52 := by
      rw [← zpow_natCast, ← zpow_natCast, ← zpow_add₀ two_ne_zero]
      congr 1
      omega
    rw [hexponent, ← mul_assoc] at hpower'
    exact mul_right_cancel₀ (by positivity) hpower'
  · exact absurd hpower Bool.false_ne_true

/-- What reads as a number that is not zero is not zero, and not closer to zero than half of the
least double. -/
theorem ReadsAs.half_le {v : ℚ} {m : ℕ} {q : ℤ} (h : ReadsAs v m q) (hm : 0 < m)
    (hfits : Fits m q) : (2 : ℚ) ^ (-1075 : ℤ) ≤ v := by
  have hq : (0 : ℚ) < 2 ^ q := by positivity
  have hm' : (1 : ℚ) ≤ m := Nat.one_le_cast.mpr hm
  have hhalf : 1 / 2 ≤ v / 2 ^ q := by
    have := h.nearest.1
    linarith
  calc (2 : ℚ) ^ (-1075 : ℤ)
    _ ≤ 2 ^ (q - 1) := zpow_le_zpow_right₀ one_le_two (by have := hfits.least; omega)
    _ = 1 / 2 * 2 ^ q := by rw [zpow_sub_one₀ two_ne_zero]; ring
    _ ≤ v := (le_div_iff₀ hq).mp hhalf

section

variable {c m : ℕ} {e q : ℤ} {x : Float}

theorem pos_of_readsAs (hm : 0 < m) (hfits : Fits m q) (hreads : ReadsAs (c * 10 ^ e) m q) :
    0 < c := by
  refine Nat.pos_of_ne_zero fun hzero => ?_
  have hlow := hreads.half_le hm hfits
  rw [hzero, Nat.cast_zero, zero_mul] at hlow
  exact absurd hlow (not_le.mpr (by positivity))

/-- The short way: both the digits and the power of ten are doubles. -/
theorem ofScientific_short (hx : parts x = .finite false m q) (hm : 0 < m)
    (hreads : ReadsAs (c * 10 ^ e) m q) (hc : c < 2 ^ 53) (he : e.natAbs ≤ 22) :
    Float.ofScientific c (decide (e < 0)) e.natAbs = x := by
  have hpos := pos_of_readsAs hm (fits_of_parts hx) hreads
  have hk : e.natAbs < Float.exactlyRepresentablePowersOfTen.size := Nat.lt_succ_of_le he
  obtain ⟨m₁, q₁, hparts₁, hfull₁, hvalue₁⟩ := exists_parts_toFloat hpos hc
  obtain ⟨m₂, q₂, hm₂, hparts₂, hvalue₂⟩ := parts_powerOfTen hk
  have hunpack₁ := unpack_of_parts hparts₁ (by omega)
  have hunpack₂ := unpack_of_parts hparts₂ hm₂
  unfold Float.ofScientific
  rw [dif_pos ⟨hc, he⟩]
  dsimp only
  by_cases hneg : e < 0
  · have hdiv : ∀ a b : Float, a / b = Float.ofModel (Float.Model.pack
        (UnpackedFloat.div double a.toModel.unpack b.toModel.unpack)) := fun _ _ => rfl
    rw [decide_eq_true hneg, if_pos rfl, hdiv, hunpack₁, hunpack₂]
    refine div_eq hx hm hreads ?_
    rw [← hvalue₁, ← hvalue₂, ← zpow_natCast, div_eq_mul_inv, ← zpow_neg]
    congr 2
    omega
  · have hmul : ∀ a b : Float, a * b = Float.ofModel (Float.Model.pack
        (UnpackedFloat.mul double a.toModel.unpack b.toModel.unpack)) := fun _ _ => rfl
    rw [decide_eq_false hneg, if_neg Bool.false_ne_true, hmul, hunpack₁, hunpack₂]
    refine mul_eq hx hm hreads ?_ hfull₁
    rw [← hvalue₁, ← hvalue₂, ← zpow_natCast]
    congr 2
    omega

/-- The exponent of what reads as a double is not beyond those that are looked at. -/
theorem exponent_of_readsAs (hm : 0 < m) (hfits : Fits m q) (hreads : ReadsAs (c * 10 ^ e) m q) :
    e ≤ 2 ^ 11 ∧ -(2 ^ 11 + (Nat.log 2 c : ℤ)) ≤ e := by
  have hpos := pos_of_readsAs hm hfits hreads
  constructor
  · refine not_lt.mp fun hbig => ?_
    have hge : (2 : ℚ) ^ (1024 : ℤ) ≤ c * 10 ^ e := by
      calc (2 : ℚ) ^ (1024 : ℤ)
        _ ≤ 10 ^ (1024 : ℤ) := zpow_le_zpow_left₀ (by norm_num) (by norm_num) (by norm_num)
        _ ≤ 10 ^ e := zpow_le_zpow_right₀ (by norm_num) (by omega)
        _ ≤ c * 10 ^ e := le_mul_of_one_le_left (by positivity) (Nat.one_le_cast.mpr hpos)
    have hlt := hge.trans_lt (hreads.lt_next hfits)
    rw [zpow_lt_zpow_iff_right₀ one_lt_two] at hlt
    have := hfits.greatest
    omega
  · refine not_lt.mp fun hsmall => ?_
    have hlog : (c : ℚ) < 2 ^ (Nat.log 2 c + 1 : ℤ) := by
      exact_mod_cast Nat.lt_pow_succ_log_self (by decide) c
    have hten : (10 : ℚ) ^ e ≤ 2 ^ e := by
      obtain ⟨k, rfl⟩ : ∃ k : ℕ, e = -k := ⟨e.natAbs, by omega⟩
      rw [zpow_neg, zpow_neg, zpow_natCast, zpow_natCast]
      gcongr
      norm_num
    have hlt : (c : ℚ) * 10 ^ e < 2 ^ (-1075 : ℤ) := by
      calc (c : ℚ) * 10 ^ e
        _ < 2 ^ (Nat.log 2 c + 1 : ℤ) * 10 ^ e := mul_lt_mul_of_pos_right hlog (by positivity)
        _ ≤ 2 ^ (Nat.log 2 c + 1 : ℤ) * 2 ^ e := by gcongr
        _ = 2 ^ (Nat.log 2 c + 1 + e : ℤ) := (zpow_add₀ two_ne_zero _ _).symm
        _ ≤ 2 ^ (-1075 : ℤ) := zpow_le_zpow_right₀ one_le_two (by omega)
    exact absurd (hreads.half_le hm hfits) (not_le.mpr hlt)

/-- The long way: the digits and the power of ten are multiplied or divided as they are. -/
theorem ofScientific_long (hx : parts x = .finite false m q) (hm : 0 < m)
    (hreads : ReadsAs (c * 10 ^ e) m q) :
    Float.ofModel (Float.Model.ofScientific c e) = x := by
  have hfits := fits_of_parts hx
  have hpos := pos_of_readsAs hm hfits hreads
  obtain ⟨hbig, hsmall⟩ := exponent_of_readsAs hm hfits hreads
  rw [← Nat.log2_eq_log_two] at hsmall
  unfold Float.Model.ofScientific UnpackedFloat.ofScientific
  rw [dif_neg hpos.ne', if_neg (not_lt.mpr hbig), if_neg (not_lt.mpr hsmall)]
  by_cases hneg : 0 ≤ e
  · rw [if_pos hneg]
    refine mul_eq hx hm hreads ?_ ?_
    · rw [Nat.shiftLeft_eq, zpow_zero, mul_one]
      push_cast
      have hten : (10 : ℚ) ^ e.toNat = 10 ^ e := by
        rw [← zpow_natCast, Int.toNat_of_nonneg hneg]
      have hplaces :
          (2 : ℚ) ^ (Format.mantissaBits double) * 2 ^ (-(Format.mantissaBits double : ℤ)) = 1 := by
        rw [← zpow_natCast, ← zpow_add₀ two_ne_zero, add_neg_cancel, zpow_zero]
      rw [hten, mul_assoc (c : ℚ), hplaces, mul_one]
    · rw [Nat.shiftLeft_eq]
      calc 2 ^ 52
        _ ≤ 2 ^ Format.mantissaBits double := Nat.pow_le_pow_right (by decide) (by decide)
        _ ≤ c * 2 ^ Format.mantissaBits double := Nat.le_mul_of_pos_left _ hpos
  · rw [if_neg hneg]
    refine div_eq hx hm hreads ?_
    rw [zpow_zero, mul_one, mul_one, div_eq_mul_inv]
    push_cast
    rw [← zpow_natCast, ← zpow_neg]
    congr 2
    omega

/-- **Digits and a power of ten are read as the double in whose interval they lie.** -/
theorem ofScientific_eq (hx : parts x = .finite false m q) (hm : 0 < m)
    (hreads : ReadsAs (c * 10 ^ e) m q) :
    Float.ofScientific c (decide (e < 0)) e.natAbs = x := by
  by_cases hshort : c < 2 ^ 53 ∧ e.natAbs ≤ 22
  · exact ofScientific_short hx hm hreads hshort.1 hshort.2
  · have he :
        (if decide (e < 0) = true then Int.negOfNat e.natAbs else Int.ofNat e.natAbs) = e := by
      by_cases hneg : e < 0
      · rw [if_pos (by simpa using hneg), Int.negOfNat_eq, Int.ofNat_eq_natCast]
        omega
      · rw [if_neg (by simpa using hneg), Int.ofNat_eq_natCast]
        omega
    unfold Float.ofScientific
    rw [dif_neg hshort]
    dsimp only
    rw [he]
    exact ofScientific_long hx hm hreads

end

/-- **A literal is read as the double in whose interval it lies**, with its sign. -/
theorem Literal.toFloat_eq {l : Literal} {x : Float} {m : ℕ} {q : ℤ}
    (hx : parts x = .finite l.negative m q) (hm : 0 < m)
    (hreads : ReadsAs (l.coefficient * 10 ^ l.exponent) m q) : l.toFloat = x := by
  have hfits := fits_of_parts hx
  have hmagnitude := ofScientific_eq (parts_compose (n := false) hfits) hm hreads
  unfold toFloat
  rw [hmagnitude]
  cases hneg : l.negative with
  | false =>
    rw [hneg] at hx
    dsimp only
    rw [if_neg Bool.false_ne_true, ← ofModel_pack hx hm]
    exact (ofModel_pack (parts_compose hfits) hm).symm
  | true =>
    rw [hneg] at hx
    exact neg_eq (parts_compose hfits) hx hm

/-- A natural number that is a double is read as this double. -/
theorem ofNat_eq {c m : ℕ} {q : ℤ} {x : Float} (hx : parts x = .finite false m q) (hm : 0 < m)
    (hc : (c : ℚ) = m * 2 ^ q) : Float.ofNat c = x := by
  have hreads : ReadsAs ((c : ℚ) * 10 ^ (0 : ℤ)) m q := by
    rw [zpow_zero, mul_one, hc]
    exact readsAs_self m q
  exact ofScientific_eq hx hm hreads

/-- A whole number that is a double is read as this double. -/
theorem ofInt_eq {n : Bool} {c m : ℕ} {q : ℤ} {x : Float} (hx : parts x = .finite n m q)
    (hm : 0 < m) (hc : (c : ℚ) = m * 2 ^ q) : Float.ofInt (if n then -c else c) = x := by
  cases n with
  | false => exact ofNat_eq hx hm hc
  | true =>
    have hfits := fits_of_parts hx
    have hpos : 0 < c := by
      have : (0 : ℚ) < c := by
        rw [hc]
        have : (0 : ℚ) < m := Nat.cast_pos.mpr hm
        positivity
      exact Nat.cast_pos.mp this
    obtain ⟨k, rfl⟩ : ∃ k, c = k + 1 := ⟨c - 1, by omega⟩
    have hneg : (if true = true then -((k + 1 : ℕ) : ℤ) else (k + 1 : ℕ)) = Int.negSucc k := rfl
    rw [hneg]
    show -Float.ofNat (k + 1) = x
    rw [ofNat_eq (parts_compose (n := false) hfits) hm hc]
    exact neg_eq (parts_compose hfits) hx hm

end BlockSteps.Decimal
