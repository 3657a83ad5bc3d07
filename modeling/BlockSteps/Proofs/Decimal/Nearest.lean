import Mathlib
import BlockSteps.Proofs.Decimal.Rounding

/-!
# Arithmetic rounds to the nearest double

An operation on doubles computes its result exactly, as a coefficient with a note of what lies
behind its last place, and then rounds.  This module says which double comes out: the one in whose
interval the exact result lies.

* `NearestEven w m`: the whole number `m` is the nearest one to `w`, and even if another is as near.
* `ReadsAs v m q`: the number `v` lies in the interval of the double `m * 2 ^ q`.  Above a power of
  two doubles lie twice as far apart as below, so the interval of a power of two reaches only half
  as far down.

**Main statement.**  `roundWithAccuracy_eq`: a coefficient that represents `v`, and has places
enough, is rounded to the double as which `v` reads.
-/

namespace BlockSteps.Decimal

open Float.Model Float.Model.UnpackedFloat

/-! ## Nearest whole numbers -/

/-- The nearest whole number, the even one of two that are equally near. -/
def NearestEven (w : ℚ) (m : ℕ) : Prop :=
  (m : ℚ) - 1 / 2 ≤ w ∧ w ≤ m + 1 / 2 ∧
    (m % 2 = 1 → (m : ℚ) - 1 / 2 < w ∧ w < m + 1 / 2)

theorem nearestEven_self (m : ℕ) : NearestEven m m :=
  ⟨by linarith, by linarith, fun _ => ⟨by linarith, by linarith⟩⟩

/-- There is only one. -/
theorem NearestEven.unique {w : ℚ} {m n : ℕ} (hm : NearestEven w m) (hn : NearestEven w n) :
    m = n := by
  -- Of two neighbours one is odd, and between them lies no number that is near to both.
  have key : ∀ {a b : ℕ}, a < b → NearestEven w a → NearestEven w b → False := by
    intro a b hab ⟨_, hlow, hodd⟩ ⟨hhigh, _, hodd'⟩
    have hle : ((a + 1 : ℕ) : ℚ) ≤ b := Nat.cast_le.mpr hab
    push_cast at hle
    have hb : (b : ℚ) = (a + 1 : ℕ) := by
      push_cast
      linarith
    have hb' : b = a + 1 := Nat.cast_injective hb
    push_cast at hb
    rcases Nat.mod_two_eq_zero_or_one a with ha | ha
    · have := (hodd' (by omega)).1
      linarith
    · have := (hodd ha).2
      linarith
  rcases Nat.lt_trichotomy m n with h | h | h
  · exact (key h hm hn).elim
  · exact h
  · exact (key h hn hm).elim

/-! ## Coefficients with the places behind them -/

/-- What a coefficient and its two further bits say of a number: the first bit is the next place,
the second whether anything follows. -/
def Represents (em : ExtendedMantissa) (w : ℚ) : Prop :=
  match em.roundBit, em.stickyBit with
  | false, false => w = em.mantissa
  | false, true => (em.mantissa : ℚ) < w ∧ w < em.mantissa + 1 / 2
  | true, false => w = em.mantissa + 1 / 2
  | true, true => (em.mantissa : ℚ) + 1 / 2 < w ∧ w < em.mantissa + 1

theorem represents_exact {m : ℕ} {w : ℚ} (h : w = m) :
    Represents (.ofMantissaAndAccuracy m .exact) w := h

theorem Represents.bounds {em : ExtendedMantissa} {w : ℚ} (h : Represents em w) :
    (em.mantissa : ℚ) ≤ w ∧ w < em.mantissa + 1 := by
  obtain ⟨m, round, sticky⟩ := em
  cases round <;> cases sticky <;> simp only [Represents] at h ⊢ <;> constructor <;> linarith

/-- Dropping the last place turns it into the bit of the next place. -/
theorem Represents.shiftRightOne {em : ExtendedMantissa} {w : ℚ} (h : Represents em w) :
    Represents em.shiftRightOne (w / 2) := by
  obtain ⟨m, round, sticky⟩ := em
  have hm : (m : ℚ) = 2 * (m / 2 : ℕ) + (m % 2 : ℕ) := by exact_mod_cast (Nat.div_add_mod m 2).symm
  have hbit : m % 2 = 0 ∧ (m % 2 != 0) = false ∨ m % 2 = 1 ∧ (m % 2 != 0) = true := by
    rcases Nat.mod_two_eq_zero_or_one m with hr | hr <;> rw [hr] <;> decide
  rcases hbit with ⟨hr, hbit⟩ | ⟨hr, hbit⟩ <;> rw [hr] at hm <;> push_cast at hm <;>
    cases round <;> cases sticky <;>
    simp only [Represents, ExtendedMantissa.shiftRightOne, hbit, Bool.or_false, Bool.or_true]
      at h ⊢ <;>
    (try constructor) <;> linarith

theorem Represents.shiftRight {em : ExtendedMantissa} {w : ℚ} (h : Represents em w) (k : ℕ) :
    Represents (em >>> k) (w / 2 ^ k) := by
  induction k with
  | zero =>
    rw [pow_zero, div_one]
    exact h
  | succ k ih =>
    rw [pow_succ, ← div_div]
    exact ih.shiftRightOne

/-- Rounding the coefficient gives the nearest whole number. -/
theorem Represents.nearestEven {em : ExtendedMantissa} {w : ℚ} (h : Represents em w) :
    NearestEven w em.roundedMantissa := by
  obtain ⟨m, round, sticky⟩ := em
  cases round <;> cases sticky <;> simp only [Represents] at h <;>
    simp only [NearestEven, ExtendedMantissa.roundedMantissa, ExtendedMantissa.accuracy,
      Accuracy.roundToNearestEven]
  · rw [h]
    exact nearestEven_self m
  · exact ⟨by linarith, by linarith, fun _ => ⟨by linarith, by linarith⟩⟩
  · rcases Nat.mod_two_eq_zero_or_one m with hr | hr <;> rw [hr] <;> push_cast
    · exact ⟨by linarith, by linarith, fun hodd => absurd hodd (by omega)⟩
    · exact ⟨by linarith, by linarith, fun hodd => absurd hodd (by omega)⟩
  · push_cast
    exact ⟨by linarith, by linarith, fun _ => ⟨by linarith, by linarith⟩⟩

/-! ## The interval of a double -/

/-- The number lies in the interval of the double `m * 2 ^ q`. -/
structure ReadsAs (v : ℚ) (m : ℕ) (q : ℤ) : Prop where
  /-- It is at most half a place away. -/
  nearest : NearestEven (v / 2 ^ q) m
  /-- Below a power of two it is at most a quarter of a place away. -/
  quarter : m = 2 ^ 52 → -1074 < q → (m : ℚ) - 1 / 4 ≤ v / 2 ^ q

/-- A double reads as itself. -/
theorem readsAs_self (m : ℕ) (q : ℤ) : ReadsAs (m * 2 ^ q) m q := by
  have hq : (m : ℚ) * 2 ^ q / 2 ^ q = m := mul_div_cancel_right₀ _ (by positivity)
  refine ⟨by rw [hq]; exact nearestEven_self m, fun _ _ => by rw [hq]; linarith⟩

/-- A double that is not a power of two, and one that has nothing below, is at least half a place
above the numbers that read as less. -/
theorem ReadsAs.lt_next {v : ℚ} {m : ℕ} {q : ℤ} (h : ReadsAs v m q) (hfits : Fits m q) :
    v < 2 ^ (53 + q) := by
  have hq : (0 : ℚ) < 2 ^ q := by positivity
  have hm : (m : ℚ) ≤ 2 ^ 53 - 1 := by
    have : ((m + 1 : ℕ) : ℚ) ≤ (2 ^ 53 : ℕ) := Nat.cast_le.mpr hfits.lt
    push_cast at this
    linarith
  have hw : v / 2 ^ q < 2 ^ 53 := by
    have := h.nearest.2.1
    linarith
  rw [zpow_add₀ two_ne_zero]
  exact (div_lt_iff₀ hq).mp hw

/-! ## Rounding -/

/-- The exponent to which a coefficient is brought before it is rounded. -/
def placeOf (m : ℕ) (e : ℤ) : ℤ := max (Nat.log 2 m + e - 52) (-1074)

/-- Bringing a coefficient to a higher exponent keeps what it represents. -/
theorem represents_shiftToExponent {m : ℕ} {e t : ℤ} {acc : Accuracy} {v : ℚ}
    (h : Represents (.ofMantissaAndAccuracy m acc) (v / 2 ^ e)) (het : e ≤ t) :
    Represents (shiftToExponent m e acc t).1 (v / 2 ^ t) ∧ (shiftToExponent m e acc t).2 = t := by
  have ht : e + ((t - e).toNat : ℤ) = t := by omega
  refine ⟨?_, ht⟩
  have hv : v / 2 ^ t = v / 2 ^ e / 2 ^ (t - e).toNat := by
    rw [div_div, ← zpow_natCast, ← zpow_add₀ two_ne_zero, ht]
  rw [hv]
  exact h.shiftRight _

/-- The number that a coefficient with its bits represents lies below the next power of two, and
above the last one if the coefficient is not zero. -/
theorem Represents.log_bounds {m : ℕ} {e : ℤ} {acc : Accuracy} {v : ℚ}
    (h : Represents (.ofMantissaAndAccuracy m acc) (v / 2 ^ e)) :
    v < 2 ^ (Nat.log 2 m + 1 + e) ∧ (m ≠ 0 → 2 ^ (Nat.log 2 m + e) ≤ v) := by
  have he : (0 : ℚ) < 2 ^ e := by positivity
  have hmantissa : (ExtendedMantissa.ofMantissaAndAccuracy m acc).mantissa = m := by
    rcases acc with _ | o
    · rfl
    · cases o <;> rfl
  obtain ⟨hlow, hhigh⟩ := h.bounds
  rw [hmantissa] at hlow hhigh
  constructor
  · have hlog : ((m + 1 : ℕ) : ℚ) ≤ (2 ^ (Nat.log 2 m + 1) : ℕ) :=
      Nat.cast_le.mpr (Nat.lt_pow_succ_log_self (by decide) m)
    push_cast at hlog
    rw [zpow_add₀ two_ne_zero, ← div_lt_iff₀ he]
    exact_mod_cast hhigh.trans_le hlog
  · intro hm
    have hlog : ((2 ^ Nat.log 2 m : ℕ) : ℚ) ≤ m := Nat.cast_le.mpr (Nat.pow_log_le_self 2 hm)
    push_cast at hlog
    rw [zpow_add₀ two_ne_zero, ← le_div_iff₀ he]
    exact_mod_cast hlog.trans hlow

section

variable {m n : ℕ} {q e : ℤ} {acc : Accuracy} {v : ℚ}

/-- A number that reads as `m * 2 ^ q` is not rounded above the last place of `m`. -/
theorem ReadsAs.placeOf_le (hreads : ReadsAs v m q) (hfits : Fits m q)
    (h : Represents (.ofMantissaAndAccuracy n acc) (v / 2 ^ e)) (he : e ≤ placeOf n e) :
    placeOf n e ≤ q := by
  obtain ⟨-, hlower⟩ := h.log_bounds
  have hnext := hreads.lt_next hfits
  have := hfits.least
  unfold placeOf at he ⊢
  by_cases hn : n = 0
  · subst hn
    simp only [Nat.log_zero_right, Nat.cast_zero] at he ⊢
    omega
  · have hlt := (zpow_lt_zpow_iff_right₀ (one_lt_two (α := ℚ))).mp ((hlower hn).trans_lt hnext)
    omega

/-- If it is rounded below that place, then it lies just below a power of two, and it is rounded at
the next place down. -/
theorem ReadsAs.eq_pow_of_placeOf_lt (hreads : ReadsAs v m q) (hfits : Fits m q)
    (h : Represents (.ofMantissaAndAccuracy n acc) (v / 2 ^ e)) (hlt : placeOf n e < q) :
    m = 2 ^ 52 ∧ placeOf n e + 1 = q ∧ v / 2 ^ q < 2 ^ 52 := by
  obtain ⟨hupper, -⟩ := h.log_bounds
  have hq : (0 : ℚ) < 2 ^ q := by positivity
  unfold placeOf at hlt ⊢
  have hfull : 2 ^ 52 ≤ m := hfits.full.resolve_right fun hleast => by omega
  have hbelow : v / 2 ^ q < 2 ^ 52 := by
    rw [div_lt_iff₀ hq]
    refine hupper.trans_le ?_
    rw [← zpow_natCast, ← zpow_add₀ two_ne_zero]
    refine zpow_le_zpow_right₀ one_le_two ?_
    push_cast
    omega
  have hhalf := hreads.nearest.1
  have hm : m = 2 ^ 52 := by
    have hm : (m : ℚ) < (2 ^ 52 + 1 : ℕ) := by
      push_cast
      linarith
    have := Nat.cast_lt.mp hm
    omega
  have hv : (2 : ℚ) ^ (51 + q) < v := by
    rw [zpow_add₀ two_ne_zero, ← lt_div_iff₀ hq]
    have hm' : (m : ℚ) = 2 ^ 52 := by exact_mod_cast hm
    rw [hm'] at hhalf
    refine lt_of_lt_of_le ?_ hhalf
    norm_num
  have := (zpow_lt_zpow_iff_right₀ (one_lt_two (α := ℚ))).mp (hv.trans hupper)
  exact ⟨hm, by omega, hbelow⟩

/-- A number that reads as `m * 2 ^ q` is rounded at its last place, or one place further down if it
lies below a power of two; and there it is nearest to the same double. -/
theorem ReadsAs.nearestEven_placeOf (hreads : ReadsAs v m q) (hfits : Fits m q)
    (h : Represents (.ofMantissaAndAccuracy n acc) (v / 2 ^ e)) (he : e ≤ placeOf n e) :
    (placeOf n e = q ∧ NearestEven (v / 2 ^ placeOf n e) m) ∨
      (placeOf n e + 1 = q ∧ m = 2 ^ 52 ∧ NearestEven (v / 2 ^ placeOf n e) (2 ^ 53)) := by
  rcases (hreads.placeOf_le hfits h he).eq_or_lt with heq | hlt
  · exact .inl ⟨heq, heq ▸ hreads.nearest⟩
  · obtain ⟨hm, hplace, hbelow⟩ := hreads.eq_pow_of_placeOf_lt hfits h hlt
    have hleast : -1074 ≤ placeOf n e := le_max_right _ _
    have hquarter := hreads.quarter hm (by omega)
    have hdouble : v / 2 ^ placeOf n e = 2 * (v / 2 ^ q) := by
      rw [← hplace, zpow_add_one₀ two_ne_zero]
      field_simp
    rw [hm] at hquarter
    push_cast at hquarter
    refine .inr ⟨hplace, hm, ?_⟩
    rw [hdouble]
    refine ⟨?_, ?_, fun hodd => absurd hodd (by decide)⟩
    · push_cast
      linarith
    · push_cast
      linarith

end

/-- **A number is rounded to the double as which it reads**, if its coefficient has places enough or
is exact to the last place of all. -/
theorem roundWithAccuracy_eq {s : Sign} {m n : ℕ} {q e : ℤ} {acc : Accuracy} {v : ℚ}
    (hreads : ReadsAs v m q) (hfits : Fits m q) (hm : 0 < m)
    (h : Represents (.ofMantissaAndAccuracy n acc) (v / 2 ^ e)) (he : e ≤ placeOf n e) :
    roundWithAccuracy double s n e acc = .finite s m q hm := by
  obtain ⟨hfirst, hexponent⟩ := represents_shiftToExponent h he
  have hplaces := hreads.nearestEven_placeOf hfits h he
  have htarget : shiftToTargetExponent double n e acc = shiftToExponent n e acc (placeOf n e) := by
    unfold shiftToTargetExponent
    rw [targetExponent_eq]
    rfl
  unfold roundWithAccuracy
  rw [htarget]
  generalize shiftToExponent n e acc (placeOf n e) = first at hfirst hexponent
  obtain ⟨em, e'⟩ := first
  dsimp only at hfirst hexponent ⊢
  subst hexponent
  have hnearest := hfirst.nearestEven
  -- What was rounded may have become a digit longer; then its last digit is dropped again.
  have hsecond : (shiftToTargetExponent double em.roundedMantissa (placeOf n e) .exact).1.mantissa =
      m ∧ (shiftToTargetExponent double em.roundedMantissa (placeOf n e) .exact).2 = q := by
    obtain ⟨k, hk, hk', hmax⟩ := shiftToTargetExponent_exact em.roundedMantissa (placeOf n e)
    rw [hk, hk']
    rcases hplaces with ⟨heq, hq⟩ | ⟨heq, hpower, hq⟩
    · have hmantissa := hnearest.unique hq
      have hlog : Nat.log 2 m ≤ 52 := Nat.le_of_lt_succ (Nat.log_lt_of_lt_pow hm.ne' hfits.lt)
      have := hfits.least
      rw [hmantissa] at hmax ⊢
      obtain rfl : k = 0 := by omega
      exact ⟨Nat.div_one m, by omega⟩
    · have hmantissa := hnearest.unique hq
      have hlog : Nat.log 2 (2 ^ 53) = 53 := Nat.log_pow (by decide) 53
      have := hfits.least
      have hleast : -1074 ≤ placeOf n e := le_max_right _ _
      rw [hmantissa, hlog] at hmax
      rw [hmantissa]
      obtain rfl : k = 1 := by omega
      exact ⟨by rw [hpower]; decide, by omega⟩
  generalize shiftToTargetExponent double em.roundedMantissa (placeOf n e) .exact = second
    at hsecond
  obtain ⟨em', e''⟩ := second
  obtain ⟨rfl, rfl⟩ := hsecond
  exact dif_neg hm.ne'

end BlockSteps.Decimal
