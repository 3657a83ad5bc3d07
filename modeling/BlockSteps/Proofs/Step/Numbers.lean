import Mathlib
import BlockSteps.Decimal.Truncation
import BlockSteps.Scalar
import BlockSteps.Proofs.Json.RoundTrip

/-!
# Numbers that a document can hold

A document writes a number without a fraction as a whole one, as long as it has no gaps between
whole numbers, and every other number with a point or an exponent.  Either way it is read back as it
was: a double that is whole is the integer that is written, and the shortest digits lie in the
interval of the double.  Only the sign of a zero is lost, since no integer has it.

JSON has no word for "not a number" and none for an infinity.  Where a parameter has such a value,
the document has `null`, and nothing reads that as a parameter.

**Main statements.**  `Scalar.read_eq_ok`: finite parameters are read back.
`Scalar.write_eq_null_iff`: a parameter stands in a document as `null` exactly if it is a number
that is not finite.
-/

namespace BlockSteps

namespace Decimal

variable {x : Float} {n : Bool} {m : ℕ} {q : ℤ}

theorem isZero_of_parts (h : parts x = .finite n m q) : isZero x = true ↔ m = 0 := by
  unfold isZero
  rw [h]
  exact beq_iff_eq

/-- A whole number is its whole part, exactly. -/
theorem wholePart_of_isWhole (h : parts x = .finite n m q) (hx : isWhole x = true) :
    (wholePart x : ℚ) = m * 2 ^ q := by
  rw [wholePart_of_parts h]
  unfold isWhole at hx
  rw [h] at hx
  have hm : m / 2 ^ (-q).toNat * 2 ^ (-q).toNat = m := by
    rw [← Nat.shiftRight_eq_div_pow, ← Nat.shiftLeft_eq]
    exact beq_iff_eq.mp hx
  by_cases hq : 0 ≤ q
  · rw [scaledDown_of_nonneg hq]
    push_cast
    rw [← zpow_natCast, Int.toNat_of_nonneg hq]
  · rw [scaledDown_of_neg (by omega)]
    have hpower : (2 : ℚ) ^ (-q).toNat * 2 ^ q = 1 := by
      rw [← zpow_natCast, ← zpow_add₀ two_ne_zero, Int.toNat_of_nonneg (by omega), neg_add_cancel,
        zpow_zero]
    conv_rhs => rw [← hm]
    push_cast
    rw [mul_assoc, hpower, mul_one]

end Decimal

namespace Scalar

open Decimal

/-- A number is finite; a text is as it is. -/
def IsFinite : Scalar → Prop
  | .number x => x.isFinite = true
  | .text _ => True

instance : DecidablePred IsFinite
  | .number x => inferInstanceAs (Decidable (x.isFinite = true))
  | .text _ => inferInstanceAs (Decidable True)

/-- The value is written as an integer or a string, or the text of the number is read as it. -/
def ReadsBack [Json.Rounding] : Scalar → Prop
  | .number x => integer? x = none → Json.ReadsBack x
  | .text _ => True

instance [Json.Rounding] : DecidablePred ReadsBack
  | .number x => inferInstanceAs (Decidable (integer? x = none → Json.ReadsBack x))
  | .text _ => inferInstanceAs (Decidable True)

/-- What a document keeps of a value: the negative zero becomes zero. -/
def readBack : Scalar → Scalar
  | .number x => .number (if isZero x then 0 else x)
  | .text s => .text s

theorem exists_of_integer? {x : Float} {k : ℤ} (h : integer? x = some k) :
    isWhole x = true ∧ wholePart x ≤ greatestInteger ∧
      k = if isNegative x then -(wholePart x : ℤ) else wholePart x := by
  unfold integer? at h
  split at h
  · rename_i hwhole
    rw [Bool.and_eq_true, decide_eq_true_iff] at hwhole
    exact ⟨hwhole.1, hwhole.2, (Option.some.inj h).symm⟩
  · cases h

theorem json_of_integer? {x : Float} {k : ℤ} (h : integer? x = some k) :
    (number x).json = .integer k := by
  simp only [json, h]

theorem json_of_integer?_eq_none {x : Float} (h : integer? x = none) :
    (number x).json = .real x := by
  simp only [json, h]

/-- A number that is written as an integer is this integer, but for the sign of a zero. -/
theorem ofInt_of_integer? {x : Float} {k : ℤ} (hx : x.isFinite = true) (h : integer? x = some k) :
    Float.ofInt k = if isZero x then 0 else x := by
  obtain ⟨n, m, q, hparts⟩ := isFinite_iff.mp hx
  obtain ⟨hwhole, -, rfl⟩ := exists_of_integer? h
  have hvalue := wholePart_of_isWhole hparts hwhole
  by_cases hzero : isZero x = true
  · have hm := (isZero_of_parts hparts).mp hzero
    rw [hm, Nat.cast_zero, zero_mul] at hvalue
    have hpart : wholePart x = 0 := Nat.cast_eq_zero.mp hvalue
    rw [if_pos hzero, hpart]
    cases isNegative x <;> rfl
  · have hm : 0 < m := Nat.pos_of_ne_zero fun hm => hzero ((isZero_of_parts hparts).mpr hm)
    rw [if_neg hzero, isNegative_of_parts hparts]
    exact ofInt_eq hparts hm hvalue

/-- A zero is written as an integer. -/
theorem isZero_of_integer?_eq_none {x : Float} (hx : x.isFinite = true) (h : integer? x = none) :
    isZero x = false := by
  obtain ⟨n, m, q, hparts⟩ := isFinite_iff.mp hx
  by_contra hzero
  rw [Bool.not_eq_false] at hzero
  have hm := (isZero_of_parts hparts).mp hzero
  subst hm
  have hwhole : isWhole x = true := by
    unfold isWhole
    rw [hparts]
    simp
  have hpart : wholePart x = 0 := by
    rw [wholePart_of_parts hparts]
    unfold scaledDown
    split <;> simp
  unfold integer? at h
  rw [hwhole, hpart] at h
  cases h

theorem readsBack_nearest {v : Scalar} (hv : v.IsFinite) : @ReadsBack .nearest v := by
  cases v with
  | number x => exact fun _ => Json.readsBack_nearest hv
  | text s => trivial

theorem readable_json [Json.Rounding] {v : Scalar} (hv : v.IsFinite) (hback : v.ReadsBack) :
    v.json.Readable := by
  cases v with
  | number x =>
    cases hinteger : integer? x with
    | some k =>
      obtain ⟨-, hle, rfl⟩ := exists_of_integer? hinteger
      unfold greatestInteger at hle
      rw [json_of_integer? hinteger]
      show -2 ^ 63 ≤ _ ∧ _ < 2 ^ 64
      split <;> omega
    | none =>
      rw [json_of_integer?_eq_none hinteger]
      exact ⟨hv, hback hinteger⟩
  | text s => trivial

/-- **A finite parameter is read back**, but for the sign of a zero. -/
theorem read_eq_ok [Json.Rounding] {v : Scalar} (hv : v.IsFinite) (room : Json.Room)
    {d : Json.Draft} (hd : v.json.Says d) : read room d = .ok v.readBack := by
  cases v with
  | number x =>
    cases hinteger : integer? x with
    | some k =>
      rw [json_of_integer? hinteger] at hd
      cases hd with
      | integer hvalue =>
        rw [readBack, ← ofInt_of_integer? hv hinteger, read, Json.Draft.json, hvalue]
        rfl
    | none =>
      rw [json_of_integer?_eq_none hinteger] at hd
      cases hd with
      | real hvalue =>
        rw [readBack, isZero_of_integer?_eq_none hv hinteger, read, Json.Draft.json, hvalue]
        rfl
  | text s =>
    cases hd with
    | text => rfl

/-! ## No word for a number that is not finite -/

theorem json_ne_null (v : Scalar) : v.json ≠ .null := by
  cases v with
  | number x =>
    cases h : integer? x with
    | some k => rw [json_of_integer? h]; exact nofun
    | none => rw [json_of_integer?_eq_none h]; exact nofun
  | text s => exact nofun

theorem integer?_of_not_finite {x : Float} (hx : x.isFinite = false) : integer? x = none := by
  unfold integer? isWhole
  cases hparts : parts x with
  | nan => rfl
  | infinite n => rfl
  | finite n m q =>
    rw [isFinite_iff.mpr ⟨n, m, q, hparts⟩] at hx
    cases hx

/-- **A parameter is written as `null` exactly if it is not finite.** -/
theorem write_eq_null_iff {v : Scalar} (layout : Json.Layout) :
    v.json.write layout = "null" ↔ ¬ v.IsFinite := by
  constructor
  · -- What is finite is read again as it was, and `null` is not read as a parameter.
    intro hnull hv
    let _ : Json.Rounding := .nearest
    obtain ⟨d, hsays, htext⟩ :=
      Json.exists_says_ofText (readable_json hv (readsBack_nearest hv)) layout
    have hdraft : Json.Draft.ofText "null" = (.null, true) := rfl
    rw [hnull, hdraft] at htext
    obtain rfl : Json.Draft.null = d := congrArg Prod.fst htext
    have hne := v.json_ne_null
    generalize v.json = j at hsays hne
    cases hsays
    exact hne rfl
  · intro hv
    cases v with
    | number x =>
      have hx : x.isFinite = false := Bool.not_eq_true _ ▸ hv
      rw [← String.toList_inj, Json.toList_write,
        json_of_integer?_eq_none (integer?_of_not_finite hx), Json.chars,
        Json.chars_of_not_finite hx]
      rfl
    | text s => exact absurd trivial hv

end Scalar

end BlockSteps
