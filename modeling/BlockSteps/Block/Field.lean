import BlockSteps.Scalar

/-!
# Literal fields

The fields of a block hold what was typed or chosen in the editor: a number, a text, or the state
of a check box.  A text may well spell a number; whether it does is asked where a number is
wanted, not here.
-/

namespace BlockSteps

/-- What a field of a block holds. -/
inductive FieldValue where
  /-- A number. -/
  | number (x : Float)
  /-- A text. -/
  | text (s : String)
  /-- The state of a check box. -/
  | flag (b : Bool)
  deriving Repr, DecidableEq

namespace FieldValue

/-- The value as a text. -/
def shown : FieldValue → String
  | .number x => Decimal.plain x
  | .text s => s
  | .flag true => "TRUE"
  | .flag false => "FALSE"

/-- The value as JSON. -/
def json : FieldValue → Json
  | .number x => .real x
  | .text s => .text s
  | .flag b => .boolean b

/-- The field value that a JSON value is, if it is one. -/
def ofJson? : Json → Option FieldValue
  | .integer n => some (.number (Float.ofInt n))
  | .real x => some (.number x)
  | .text s => some (.text s)
  | .boolean b => some (.flag b)
  | _ => none

/-- Read a field value: a number of any kind, a string or a truth value. -/
def read (room : Json.Room) : Json.Reader FieldValue := fun d => do
  match ofJson? (← d.json room) with
  | some v => pure v
  | none => throw (.noAlternative "FieldValue")

end FieldValue

end BlockSteps
