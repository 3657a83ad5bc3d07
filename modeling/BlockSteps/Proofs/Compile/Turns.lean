import Mathlib
import BlockSteps.Decimal.Truncation
import BlockSteps.Compile.Chain

/-!
# How often a loop is run

The compiler computes with the count of a loop as a double, truncated: it compares the double with
zero, reads a natural number off it, and asks whether it is infinite.  `turns` is that natural
number said at once.  For the counts that a workspace can give, the three questions are questions
about `turns`:

* every count of a loop block is finite (`finiteCount_of_loopCount`),
* a loop is not run exactly if it has no turns (`isZero_tripCount_iff`), and
* it is copied once for each turn (`wholePart_tripCount`).
-/

namespace BlockSteps

/-- How many turns a count asks for: none without a count or with one below one, and else as many
as the count has when its fraction is dropped. -/
def turns : Option Float → Nat
  | none => 0
  | some x => if 1 ≤ x then Decimal.wholePart x else 0

theorem wholePart_tripCount (count : Option Float) :
    Decimal.wholePart (tripCount count) = turns count := by
  cases count with
  | none => rfl
  | some x =>
    unfold tripCount turns
    dsimp only
    split
    · exact Decimal.wholePart_truncate x
    · rfl

/-- A count that is finite, if there is one. -/
def FiniteCount (count : Option Float) : Prop := ∀ x, count = some x → x.isFinite = true

theorem isFinite_tripCount {count : Option Float} (h : FiniteCount count) :
    (tripCount count).isFinite = true := by
  cases count with
  | none => rfl
  | some x =>
    unfold tripCount
    dsimp only
    split
    · rw [Decimal.isFinite_truncate]
      exact h x rfl
    · rfl

theorem isZero_tripCount_iff {count : Option Float} (h : FiniteCount count) :
    Decimal.isZero (tripCount count) = true ↔ turns count = 0 := by
  cases count with
  | none => exact ⟨fun _ => rfl, fun _ => rfl⟩
  | some x =>
    unfold tripCount turns
    dsimp only
    split
    · exact Decimal.isZero_truncate_iff (h x rfl)
    · exact ⟨fun _ => rfl, fun _ => rfl⟩

/-! ## Literals and counts -/

/-- A literal is refused for what it shows. -/
theorem FieldValue.eq_malformed_of_number? {block : BlockId} {field : String} {v : FieldValue}
    {e : CompileError} (h : v.number? block field = .error e) :
    e = .malformedLiteral block field v.shown := by
  have hfinite : ∀ {x : Float} {m : CompileError},
      (if x.isFinite then Except.ok (some x) else .error m) = .error e → e = m := by
    intro x m h
    split at h
    · cases h
    · exact (Except.error.inj h).symm
  unfold number? at h
  rcases v with x | s | b
  · exact hfinite h
  · dsimp only at h
    split at h
    · cases h
    · split at h
      · exact hfinite h
      · exact (Except.error.inj h).symm
  · exact (Except.error.inj h).symm

/-- A literal that is read as a number is a finite one. -/
theorem FieldValue.finiteCount_of_number? {v : FieldValue} {block : BlockId} {field : String}
    {count : Option Float} (h : v.number? block field = .ok count) : FiniteCount count := by
  have finite : ∀ {x : Float} {e : CompileError},
      (if x.isFinite then Except.ok (some x) else .error e) = .ok count → FiniteCount count := by
    intro x e h
    split at h
    · rename_i hx
      cases h
      rintro _ ⟨⟩
      exact hx
    · cases h
  cases v with
  | number x => exact finite h
  | text s =>
    unfold number? at h
    dsimp only at h
    split at h
    · cases h
      exact nofun
    · split at h
      · exact finite h
      · cases h
  | flag b => cases h

theorem Block.finiteCount_of_numberField {b : Block} {field : String} {count : Option Float}
    (h : b.numberField field = .ok count) : FiniteCount count := by
  unfold numberField at h
  split at h
  · exact FieldValue.finiteCount_of_number? h
  · cases h
    exact nofun

/-- Only finite numbers pass. -/
theorem Block.finite_eq_ok_iff {b : Block} {slot : String} {x y : Float} :
    b.finite slot x = .ok y ↔ x.isFinite = true ∧ y = x := by
  unfold finite
  by_cases hx : x.isFinite = true
  · rw [if_pos hx, Except.ok.injEq]
    exact ⟨fun h => ⟨hx, h.symm⟩, fun h => h.2.symm⟩
  · rw [if_neg hx]
    exact ⟨nofun, fun h => absurd h.1 hx⟩

namespace Workspace

theorem finiteCount_of_numberInputBy {ws : Workspace} {value : Block → Except Failure Scalar}
    {b : Block} {slot : String} {count : Option Float}
    (h : ws.numberInputBy value b slot = .ok count) : FiniteCount count := by
  obtain ⟨attached, -, h⟩ := bind_eq_ok_iff.mp h
  rcases attached with _ | v
  · cases h
    exact nofun
  · cases v with
    | number x =>
      obtain ⟨y, hy, h⟩ := bind_eq_ok_iff.mp h
      cases h
      obtain ⟨hx, rfl⟩ := Block.finite_eq_ok_iff.mp (checked_eq_ok_iff.mp hy)
      rintro _ ⟨⟩
      exact hx
    | text s => exact FieldValue.finiteCount_of_number? (checked_eq_ok_iff.mp h)

/-- The count of a loop block is finite, whatever its kind. -/
theorem finiteCount_of_loopCount {ws : Workspace} {b : Block} {l : Loop} {count : Option Float}
    (h : ws.loopCount b l = .ok count) : FiniteCount count := by
  cases l with
  | byInput => exact finiteCount_of_numberInputBy h
  | byField => exact Block.finiteCount_of_numberField (checked_eq_ok_iff.mp h)

end Workspace

end BlockSteps
