import Mathlib
import BlockSteps.Decimal.Shortest
import BlockSteps.Proofs.Decimal.Nearest

/-!
# The shortest digits read back

The search for the shortest digits of a double looks at multiples of powers of ten, and takes one
that lies in the interval of the double (`Grid.reads`).  If it finds none it takes the exact decimal
form.  So whatever it takes reads back as the double, and how long it searches does not matter.

**Main statement.**  `readsAs_shortest`.
-/

namespace BlockSteps.Decimal

/-! ## One power of ten -/

/-- A quarter of the last place and the power of ten, in the common unit. -/
theorem unit_eq (q k : ℤ) :
    0 < (Grid.of q k).quarter ∧
      ((Grid.of q k).unit : ℚ) * 2 ^ (q - 2) = (Grid.of q k).quarter * 10 ^ k := by
  have hquarter : (Grid.of q k).quarter = 10 ^ (-k).toNat * 2 ^ (q - 2).toNat :=
    Nat.shiftLeft_eq _ _
  have hunit : (Grid.of q k).unit = 10 ^ k.toNat * 2 ^ (2 - q).toNat := Nat.shiftLeft_eq _ _
  refine ⟨by rw [hquarter]; positivity, ?_⟩
  have htwo : (2 : ℚ) ^ (2 - q).toNat * 2 ^ (q - 2) = 2 ^ (q - 2).toNat := by
    rw [← zpow_natCast, ← zpow_natCast, ← zpow_add₀ two_ne_zero]
    congr 1
    omega
  have hten : (10 : ℚ) ^ (-k).toNat * 10 ^ k = 10 ^ k.toNat := by
    rw [← zpow_natCast, ← zpow_natCast, ← zpow_add₀ (by norm_num)]
    congr 1
    omega
  rw [hquarter, hunit]
  push_cast
  rw [mul_assoc, htwo, mul_right_comm, hten]

/-- A multiple in the common unit, in places of the double. -/
theorem place_eq (q k : ℤ) (c : ℕ) :
    (c : ℚ) * 10 ^ k / 2 ^ q = c * (Grid.of q k).unit / (4 * (Grid.of q k).quarter) := by
  obtain ⟨hpos, hunit⟩ := unit_eq q k
  have hquarter : (0 : ℚ) < (Grid.of q k).quarter := Nat.cast_pos.mpr hpos
  have hfour : (2 : ℚ) ^ q = 4 * 2 ^ (q - 2) := by
    rw [zpow_sub₀ two_ne_zero]
    norm_num
    ring
  rw [hfour, div_eq_div_iff (by positivity) (by positivity)]
  linear_combination (-4 * (c : ℚ)) * hunit

/-- What `reads` asks for is that the multiple lies in the interval. -/
theorem readsAs_of_reads {m c : ℕ} {q k : ℤ} (hm : 0 < m)
    (h : (Grid.of q k).reads m (m == 1 <<< 52 && decide (-1074 < q)) c = true) :
    ReadsAs (c * 10 ^ k) m q := by
  obtain ⟨hpos, -⟩ := unit_eq q k
  have hw := place_eq q k c
  generalize Grid.of q k = g at h hpos hw
  obtain ⟨near, hnear⟩ : ∃ near, near = (m == 1 <<< 52 && decide (-1074 < q)) := ⟨_, rfl⟩
  rw [← hnear] at h
  have hquarter : (0 : ℚ) < 4 * g.quarter := by
    have : (0 : ℚ) < g.quarter := Nat.cast_pos.mpr hpos
    positivity
  have hlow : (((4 * m - if near then 1 else 2) * g.quarter : ℕ) : ℚ) =
      (m - if near then 1 / 4 else 1 / 2) * (4 * g.quarter) := by
    rw [Nat.cast_mul, Nat.cast_sub (by split <;> omega)]
    cases near with
    | false =>
      rw [if_neg Bool.false_ne_true, if_neg Bool.false_ne_true]
      push_cast
      ring
    | true =>
      rw [if_pos rfl, if_pos rfl]
      push_cast
      ring
  have hhigh : (((4 * m + 2) * g.quarter : ℕ) : ℚ) = (m + 1 / 2) * (4 * g.quarter) := by
    push_cast
    ring
  have hbounds : (m : ℚ) - (if near then 1 / 4 else 1 / 2) ≤ c * 10 ^ k / 2 ^ q ∧
      (c : ℚ) * 10 ^ k / 2 ^ q ≤ m + 1 / 2 ∧
      (m % 2 = 1 → (m : ℚ) - (if near then 1 / 4 else 1 / 2) < c * 10 ^ k / 2 ^ q ∧
        (c : ℚ) * 10 ^ k / 2 ^ q < m + 1 / 2) := by
    rw [hw, le_div_iff₀ hquarter, div_le_iff₀ hquarter, lt_div_iff₀ hquarter,
      div_lt_iff₀ hquarter, ← hlow, ← hhigh]
    unfold Grid.reads at h
    dsimp only at h
    split at h
    · obtain ⟨h₁, h₂⟩ := of_decide_eq_true h
      exact ⟨by exact_mod_cast h₁, by exact_mod_cast h₂, fun hodd => by omega⟩
    · obtain ⟨h₁, h₂⟩ := of_decide_eq_true h
      exact ⟨by exact_mod_cast h₁.le, by exact_mod_cast h₂.le,
        fun _ => ⟨by exact_mod_cast h₁, by exact_mod_cast h₂⟩⟩
  obtain ⟨hb₁, hb₂, hb₃⟩ := hbounds
  have hle : (if near then 1 / 4 else 1 / 2 : ℚ) ≤ 1 / 2 := by split <;> norm_num
  refine ⟨⟨by linarith, hb₂, fun hodd => ⟨by linarith [(hb₃ hodd).1], (hb₃ hodd).2⟩⟩, ?_⟩
  intro hpower hleast
  have hnear' : near = true := by rw [hnear, hpower, decide_eq_true hleast]; rfl
  rw [hnear', if_pos rfl] at hb₁
  exact hb₁

/-! ## The search -/

/-- The multiple that is taken is one that reads back. -/
theorem reads_of_nearest {g : Grid} {tie : Tie} {m c : ℕ} {near : Bool}
    (h : g.nearest tie m near = some c) : g.reads m near c = true := by
  unfold Grid.nearest at h
  dsimp only at h
  split at h
  · cases h
  · rename_i hbelow _
    cases h
    exact hbelow
  · rename_i _ habove
    cases h
    exact habove
  · rename_i hbelow habove
    split at h
    · cases h
      exact hbelow
    · split at h
      · cases h
        exact habove
      · split at h
        · cases h
          exact habove
        · split at h
          · cases h
            exact hbelow
          · cases h
            exact habove

theorem value_exactDigits (m : ℕ) (q : ℤ) :
    ((exactDigits m q).coefficient : ℚ) * 10 ^ (exactDigits m q).exponent = m * 2 ^ q := by
  unfold exactDigits
  split
  · rename_i hq
    dsimp only
    rw [Nat.shiftLeft_eq, zpow_zero, mul_one]
    push_cast
    rw [← zpow_natCast, Int.toNat_of_nonneg hq]
  · rename_i hq
    dsimp only
    have hfive : ((Nat.pow 5 (-q).toNat : ℕ) : ℚ) = 5 ^ (-q) := by
      show ((5 ^ (-q).toNat : ℕ) : ℚ) = 5 ^ (-q)
      push_cast
      rw [← zpow_natCast, Int.toNat_of_nonneg (by omega)]
    have hten : (10 : ℚ) ^ q = 5 ^ q * 2 ^ q := by
      rw [← mul_zpow]
      norm_num
    rw [Nat.cast_mul, hfive, hten, zpow_neg]
    field_simp

/-- However long the search is, what it takes reads back. -/
theorem readsAs_searchDigits {m : ℕ} {q : ℤ} (hm : 0 < m) (tie : Tie) (steps : ℕ) (k : ℤ) :
    ReadsAs
      ((searchDigits tie m q (m == 1 <<< 52 && decide (-1074 < q)) steps k).coefficient *
        10 ^ (searchDigits tie m q (m == 1 <<< 52 && decide (-1074 < q)) steps k).exponent)
      m q := by
  induction steps generalizing k with
  | zero =>
    rw [searchDigits, value_exactDigits]
    exact readsAs_self m q
  | succ steps ih =>
    rw [searchDigits]
    split
    · rename_i c hc
      exact readsAs_of_reads hm (reads_of_nearest hc)
    · exact ih (k - 1)

/-- **The shortest digits of a double read back as the double.** -/
theorem readsAs_shortest {m : ℕ} {q : ℤ} (hm : 0 < m) (tie : Tie) :
    ReadsAs ((shortest tie m q).coefficient * 10 ^ (shortest tie m q).exponent) m q :=
  readsAs_searchDigits hm tie _ _

end BlockSteps.Decimal
