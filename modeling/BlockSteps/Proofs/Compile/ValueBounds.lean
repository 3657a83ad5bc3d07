import Mathlib
import BlockSteps.Proofs.Compile.NextCircles

/-!
# Values do not depend on the bound

The value of a block is found along its value slots, on a way that a bound keeps from going on for
ever.  This file says that the bound is of no other consequence:

* a greater bound gives the same value or the same error, unless the smaller one was what stopped
  the run (`Workspace.extends_valueWithin`);
* no bound beyond the number of blocks gives more (`Workspace.valueWithin_of_size_le`): if a way
  that long does not come to an end, then it has been led in a circle.

Both are about runs that may fail and in workspaces that may have circles.  `Extends` is the order
behind them.  It is closed under doing one thing after the other, because what comes second is
looked at only where the first came to an end.
-/

namespace BlockSteps

/-- The second run gives what the first gives, unless a bound stopped the first. -/
def Extends {α : Type} (x y : Except Failure α) : Prop := x ≠ .error .endless → y = x

namespace Extends

variable {α β : Type} {x y : Except Failure α}

theorem refl (x : Except Failure α) : Extends x x := fun _ => rfl

theorem bind {f g : α → Except Failure β} (hxy : Extends x y)
    (hfg : ∀ a, x = .ok a → Extends (f a) (g a)) : Extends (x >>= f) (y >>= g) := by
  intro hends
  cases x with
  | error e =>
    have he : (.error e : Except Failure α) ≠ .error .endless := fun h =>
      hends (congrArg _ (Except.error.inj h))
    rw [hxy he]
    rfl
  | ok a =>
    rw [hxy nofun]
    exact hfg a rfl hends

end Extends

/-- The value of an expression is extended if the numbers attached to it are. -/
theorem Expression.extends_evaluate {number number' : String → Except Failure (Option Float)}
    (h : ∀ slot, Extends (number slot) (number' slot)) (b : Block) (e : Expression) :
    Extends (e.evaluate number b) (e.evaluate number' b) := by
  cases e with
  | number | constant | text => exact .refl _
  | arithmetic =>
    apply (h "A").bind
    intro x _
    apply (h "B").bind
    intro y _
    exact .refl _
  | single | round =>
    apply (h "NUM").bind
    intro x _
    exact .refl _

namespace Workspace

variable {ws : Workspace} {b : Block} {bound bound' : Nat}

section Slots

variable {value value' : Block → Except Failure Scalar}
  (h : ∀ c ∈ ws.blocks, Extends (value c) (value' c))
include h

theorem extends_inputBy (slot : String) :
    Extends (ws.inputBy value b slot) (ws.inputBy value' b slot) := by
  unfold inputBy
  split
  · exact .refl _
  · apply (Extends.refl _).bind
    intro c hc
    have hfound := resolve_eq_ok_iff.mp (checked_eq_ok_iff.mp hc)
    exact (h c (mem_of_find? hfound)).bind fun _ _ => .refl _

theorem extends_numberInputBy (slot : String) :
    Extends (ws.numberInputBy value b slot) (ws.numberInputBy value' b slot) :=
  (extends_inputBy h slot).bind fun _ _ => .refl _

end Slots

/-- One block more on the way. -/
theorem extends_valueWithin_succ
    (h : ∀ c ∈ ws.blocks, Extends (ws.valueWithin bound c) (ws.valueWithin bound' c)) :
    Extends (ws.valueWithin (bound + 1) b) (ws.valueWithin (bound' + 1) b) := by
  rw [valueWithin, valueWithin]
  apply (Extends.refl _).bind
  intro k _
  cases k with
  | action a => exact .refl _
  | loop l => exact .refl _
  | expression e => exact Expression.extends_evaluate (extends_numberInputBy h) b e

/-- **A greater bound changes nothing but for what the smaller one stopped.** -/
theorem extends_valueWithin (hle : bound ≤ bound') :
    Extends (ws.valueWithin bound b) (ws.valueWithin bound' b) := by
  induction bound generalizing bound' b with
  | zero => exact fun hends => absurd rfl hends
  | succ bound ih =>
    obtain ⟨bound', rfl⟩ := Nat.exists_eq_succ_of_ne_zero (Nat.ne_zero_of_lt hle)
    exact extends_valueWithin_succ fun _ _ => ih (Nat.le_of_succ_le_succ hle)

/-- A value that is found within a bound is found within every greater one. -/
theorem valueWithin_mono (hle : bound ≤ bound') {v : Scalar} (h : ws.valueWithin bound b = .ok v) :
    ws.valueWithin bound' b = .ok v := by
  rw [extends_valueWithin hle (h ▸ nofun), h]

/-- The search for the value of the block ends within the bound. -/
def EndsWithin (ws : Workspace) (bound : Nat) (b : Block) : Prop :=
  ws.valueWithin bound b ≠ .error .endless

theorem EndsWithin.succ (h : ws.EndsWithin bound b) : ws.EndsWithin (bound + 1) b := by
  unfold EndsWithin
  rw [extends_valueWithin (Nat.le_succ bound) h]
  exact h

/-- A search that ends at all ends on a way no longer than there are blocks. -/
theorem EndsWithin.size (hb : b ∈ ws.blocks) (h : ws.EndsWithin bound b) :
    ws.EndsWithin ws.size b := by
  have hstays : ∀ n, (∀ c ∈ ws.blocks.toList, ws.EndsWithin (n + 1) c → ws.EndsWithin n c) →
      ∀ c ∈ ws.blocks.toList, ws.EndsWithin (n + 2) c → ws.EndsWithin (n + 1) c := by
    intro n hstill c _ hc
    have hback : Extends (ws.valueWithin (n + 2) c) (ws.valueWithin (n + 1) c) :=
      extends_valueWithin_succ fun d hd hends =>
        (extends_valueWithin (Nat.le_succ n) (hstill d (by simpa using hd) hends)).symm
    unfold EndsWithin
    rw [hback hc]
    exact hc
  exact holds_at_length ws.blocks.toList ws.EndsWithin (fun _ _ => EndsWithin.succ) hstays
    (by simpa using hb) h

/-- **The value of a block of the workspace is the same within every bound that is not below the
number of blocks.** -/
theorem valueWithin_of_size_le (hb : b ∈ ws.blocks) (hle : ws.size ≤ bound) :
    ws.valueWithin bound b = ws.valueWithin ws.size b := by
  by_cases hends : ws.EndsWithin ws.size b
  · exact extends_valueWithin hle hends
  · have hnever : ¬ ws.EndsWithin bound b := fun h => hends (h.size hb)
    rw [Decidable.not_not.mp hends, Decidable.not_not.mp hnever]

end Workspace

end BlockSteps
