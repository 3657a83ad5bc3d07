import BlockSteps.Step.Document
import BlockSteps.Workspace.Basic
import BlockSteps.Traced

/-!
# What a compilation may be told, and how it can fail

`Options` are the choices of the person who compiles.  `Failure` has two sides that must not be
mixed up.  A **rejected** workspace has something wrong with it that a `CompileError` names.  A
workspace on which the compiler would run for ever, because blocks refer to each other in a circle,
is **endless**: there is no answer to give, and nothing is claimed about which block is to blame.
-/

namespace BlockSteps

/-- The greatest number of steps where nothing else is said. -/
def defaultMaxSteps : Nat := 100000

/-- The choices of a compilation. -/
structure Options where
  /-- The greatest number of steps. -/
  maxSteps : Nat := defaultMaxSteps
  /-- How copied steps are identified. -/
  ids : IdPolicy := .reuse
  /-- What is called around each main function. -/
  hooks : HookTable := {}
  deriving Repr, DecidableEq

instance : Inhabited Options := ⟨{}⟩

/-- How a compilation can fail. -/
inductive Failure where
  /-- Something is wrong with the workspace. -/
  | rejected (e : CompileError)
  /-- Blocks refer to each other in a circle that nothing breaks. -/
  | endless
  deriving Repr, DecidableEq

/-- A check of the workspace as a part of a compilation. -/
def checked {α : Type} (x : Except CompileError α) : Except Failure α := x.mapError .rejected

instance : MonadLift (Except CompileError) (Except Failure) := ⟨checked⟩

@[simp] theorem checked_ok {α : Type} (a : α) : checked (.ok a) = .ok a := rfl

@[simp] theorem checked_error {α : Type} (e : CompileError) :
    checked (.error e : Except CompileError α) = .error (.rejected e) := rfl

/-- A check succeeds in a compilation exactly if it succeeds. -/
@[simp] theorem checked_eq_ok_iff {α : Type} {x : Except CompileError α} {a : α} :
    checked x = .ok a ↔ x = .ok a := by
  cases x with
  | ok b => rw [checked_ok, Except.ok.injEq, Except.ok.injEq]
  | error e => rw [checked_error]; exact ⟨nofun, nofun⟩

/-- Refuse more steps than are allowed, naming the block at which they became too many. -/
def checkLimit (limit steps : Nat) (block : BlockId) : Except CompileError Unit :=
  if limit < steps then .error (.stepLimitExceeded limit block) else .ok ()

@[simp] theorem checkLimit_eq_ok_iff {limit steps : Nat} {block : BlockId} {u : Unit} :
    checkLimit limit steps block = .ok u ↔ steps ≤ limit := by
  unfold checkLimit
  split
  · rename_i h
    exact ⟨nofun, fun h' => absurd h (Nat.not_lt.mpr h')⟩
  · rename_i h
    exact ⟨fun _ => Nat.not_lt.mp h, fun _ => rfl⟩

end BlockSteps
