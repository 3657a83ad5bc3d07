import BlockSteps.Json.Reader

/-!
# Parameter values

A parameter of a step is a number or a text.  In a document a number without a fraction is written
as an integer as long as every integer of its size is a double; beyond that an integer would claim
digits that the number does not have, and it is written in the document format of reals.
-/

namespace BlockSteps

/-- A parameter value. -/
inductive Scalar where
  /-- A number. -/
  | number (x : Float)
  /-- A text. -/
  | text (s : String)
  deriving Repr, DecidableEq

namespace Scalar

/-- The value as a text: a number in the plain format, a text as it is. -/
def shown : Scalar → String
  | .number x => Decimal.plain x
  | .text s => s

/-- The greatest integer up to which doubles have no gaps. -/
def greatestInteger : Nat := 9007199254740991

/-- The integer that a number is written as, if it is written as one. -/
def integer? (x : Float) : Option Int :=
  if Decimal.isWhole x && decide (Decimal.wholePart x ≤ greatestInteger) then
    some (if Decimal.isNegative x then -Decimal.wholePart x else Decimal.wholePart x)
  else none

/-- The value as it stands in a document. -/
def json : Scalar → Json
  | .number x =>
    match integer? x with
    | some n => .integer n
    | none => .real x
  | .text s => .text s

/-- Read a value: a number of any kind or a string. -/
def read [Json.Rounding] (room : Json.Room) : Json.Reader Scalar := fun d => do
  match ← d.json room with
  | .integer n => pure (.number (Float.ofInt n))
  | .real x => pure (.number x)
  | .text s => pure (.text s)
  | _ => throw (.noAlternative "Scalar")

/-- Several values under names, as they stand in a document. -/
def dictJson (params : Dict Scalar) : Json :=
  .object (params.map Scalar.json).entries

end Scalar

/-- The parameters of a step. -/
abbrev Params := Dict Scalar

end BlockSteps
