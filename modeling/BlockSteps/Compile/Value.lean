import BlockSteps.Compile.Options

/-!
# Values

What a block computes, and what an input or a field of a block amounts to where a number or a text
is wanted.

**Bad input is refused.**  A text that does not spell a number is a malformed literal, and a result
that is not a number or infinite is a non-finite value; neither becomes a parameter.  A text of
blanks only counts as not given.  Rounding needs no check of its own: the argument was checked, and
rounding a finite number gives a finite one.

**Inputs go before fields.**  An attached block decides over the field of the same name, unless it
gives a blank text where a number is wanted; and where neither says anything there is a default.

The recursion along value slots runs on a bound.  `Workspace.value` sets it one above the number of
blocks: a longer way along value slots visits some block twice, so the slots form a circle.
-/

namespace BlockSteps

/-! ## Literals and checks -/

/-- The finite number that a field value is or spells; none for a blank text. -/
def FieldValue.number? (block : BlockId) (field : String) (v : FieldValue) :
    Except CompileError (Option Float) :=
  let malformed : CompileError := .malformedLiteral block field v.shown
  let finite (x : Float) : Except CompileError (Option Float) :=
    if x.isFinite then .ok (some x) else .error malformed
  match v with
  | .number x => finite x
  | .text s =>
    let cs := Text.trimmed s.toList
    if cs.isEmpty then .ok none
    else
      match Decimal.number? cs with
      | some x => finite x
      | none => .error malformed
  | .flag _ => .error malformed

/-- The number in a field of a block, if it has one. -/
def Block.numberField (b : Block) (field : String) : Except CompileError (Option Float) :=
  match b.fields.get? field with
  | some v => v.number? b.id field
  | none => .ok none

/-- The text in a field of a block, or a default. -/
def Block.textField (b : Block) (field : String) (default : String) : String :=
  match b.fields.get? field with
  | some v => v.shown
  | none => default

/-- Let a finite number pass. -/
def Block.finite (b : Block) (slot : String) (x : Float) : Except CompileError Float :=
  if x.isFinite then .ok x else .error (.nonFiniteValue b.id slot)

/-! ## Operations -/

/-- The constants by name. -/
def constant? (name : String) : Option Float :=
  match name with
  | "PI" => some 3.141592653589793
  | "E" => some 2.718281828459045
  | "GOLDEN_RATIO" => some ((1 + Float.sqrt 5) / 2)
  | "SQRT2" => some 1.4142135623730951
  | "SQRT1_2" => some 0.7071067811865476
  | "INFINITY" => some (1 / 0)
  | _ => none

/-- The operations on two numbers by name. -/
def arithmetic? (name : String) : Option (Float → Float → Float) :=
  match name with
  | "ADD" => some (· + ·)
  | "MINUS" => some (· - ·)
  | "MULTIPLY" => some (· * ·)
  | "DIVIDE" => some (· / ·)
  | "POWER" => some Float.pow
  | _ => none

/-- The operations on one number by name. -/
def single? (name : String) : Option (Float → Float) :=
  match name with
  | "ROOT" => some Float.sqrt
  | "ABS" => some Float.abs
  | "NEG" => some (- ·)
  | "LN" => some Float.log
  | "LOG10" => some Float.log10
  | "EXP" => some Float.exp
  | "POW10" => some (Float.pow 10)
  | _ => none

/-- The ways of rounding by name; a half is rounded up. -/
def rounding? (name : String) : Option (Float → Float) :=
  match name with
  | "ROUND" => some Decimal.nearest
  | "ROUNDUP" => some Decimal.ceiling
  | "ROUNDDOWN" => some Decimal.floor
  | _ => none

/-- The operation that a field names, or the default where the field is absent. -/
def Block.operation {α : Type} (b : Block) (field : String) (byName : String → Option α)
    (default : String) : Except CompileError α :=
  let name := b.textField field default
  match byName name with
  | some f => .ok f
  | none => .error (.malformedLiteral b.id field name)

/-! ## Expressions -/

/-- The value of an expression block, given the numbers attached to its slots. -/
def Expression.evaluate (number : (slot : String) → Except Failure (Option Float)) (b : Block) :
    Expression → Except Failure Scalar
  | .number => do
    let n ← b.numberField "NUM"
    pure (.number (n.getD 0))
  | .constant => do
    let x ← b.operation "CONSTANT" constant? "PI"
    let x ← b.finite "CONSTANT" x
    pure (.number x)
  | .arithmetic => do
    let x ← number "A"
    let y ← number "B"
    let f ← b.operation "OP" arithmetic? "ADD"
    let z ← b.finite "OP" (f (x.getD 0) (y.getD 0))
    pure (.number z)
  | .single => do
    let x ← number "NUM"
    let f ← b.operation "OP" single? "ROOT"
    let y ← b.finite "OP" (f (x.getD 0))
    pure (.number y)
  | .round => do
    let x ← number "NUM"
    let f ← b.operation "OP" rounding? "ROUND"
    pure (.number (f (x.getD 0)))
  | .text => pure (.text (b.textField "TEXT" ""))

namespace Workspace

/-- What is attached to a slot, given how the value of a block is found. -/
def inputBy (ws : Workspace) (value : Block → Except Failure Scalar) (b : Block) (slot : String) :
    Except Failure (Option Scalar) :=
  match b.values.get? slot with
  | none => .ok none
  | some id => do
    let child ← ws.resolve b.id id
    let v ← value child
    pure (some v)

/-- The finite number attached to a slot, given how the value of a block is found. -/
def numberInputBy (ws : Workspace) (value : Block → Except Failure Scalar) (b : Block)
    (slot : String) : Except Failure (Option Float) := do
  match ← ws.inputBy value b slot with
  | none => pure none
  | some (.number x) => do
    let x ← b.finite slot x
    pure (some x)
  | some (.text s) => checked ((FieldValue.text s).number? b.id slot)

/-- The value of a block, found on a way of at most `bound` blocks along value slots. -/
def valueWithin (ws : Workspace) : (bound : Nat) → Block → Except Failure Scalar
  | 0, _ => .error .endless
  | bound + 1, b => do
    match ← b.kind with
    | .expression e => e.evaluate (ws.numberInputBy (ws.valueWithin bound) b) b
    | _ => throw (.rejected (.expectedValueBlock b.id b.type))

/-- The value of a block. -/
def value (ws : Workspace) (b : Block) : Except Failure Scalar := ws.valueWithin (ws.size + 1) b

/-- What is attached to a slot of a block. -/
def input (ws : Workspace) (b : Block) (slot : String) : Except Failure (Option Scalar) :=
  ws.inputBy ws.value b slot

/-- The finite number attached to a slot of a block. -/
def numberInput (ws : Workspace) (b : Block) (slot : String) : Except Failure (Option Float) :=
  ws.numberInputBy ws.value b slot

/-- The number for a slot: what is attached, else the field, else the default. -/
def numberParam (ws : Workspace) (b : Block) (slot : String) (default : Float) :
    Except Failure Float := do
  match ← ws.numberInput b slot with
  | some x => pure x
  | none => do
    let x ← b.numberField slot
    pure (x.getD default)

/-- The text for a slot: what is attached, else the field, else the default. -/
def textParam (ws : Workspace) (b : Block) (slot : String) (default : String) :
    Except Failure String := do
  match ← ws.input b slot with
  | some v => pure v.shown
  | none => pure (b.textField slot default)

end Workspace

end BlockSteps
