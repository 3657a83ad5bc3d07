/-!
# Double precision numbers taken apart

Every number of a workspace is a double: a sign, a coefficient below `2 ^ 53` and a power of two.
`Decimal.parts` reads the three off the 64 bits, and what else the library needs to know about a
double it says in exact arithmetic on them: the whole part, rounding toward zero, down and up, and
the order in which top blocks are sorted.

**Why not the library functions for rounding.**  They are opaque to proof.  Through `parts` the
truncation of a count, on which the length of every unrolled loop rests, is a shift of a natural
number, and nothing about it has to be taken on trust.

A double is put together again by `compose`, from its parts alone.
-/

namespace BlockSteps.Decimal

/-- What the bits of a double say. -/
inductive Parts where
  /-- Not a number. -/
  | nan
  /-- An infinity, negative or not. -/
  | infinite (negative : Bool)
  /-- The number `± coefficient * 2 ^ exponent`; the coefficient of either zero is `0`. -/
  | finite (negative : Bool) (coefficient : Nat) (exponent : Int)
  deriving Repr, DecidableEq

/-- The parts of the double with the given 64 bits: one bit of sign, eleven of exponent, and
fifty-two of coefficient, whose leading one is left out unless the exponent bits are all zero. -/
def partsOfBits (bits : Nat) : Parts :=
  let negative := decide (1 <<< 63 ≤ bits)
  let exponent : Nat := (bits >>> 52) % 2048
  let fraction : Nat := bits % (1 <<< 52)
  if exponent = 2047 then
    if fraction = 0 then .infinite negative else .nan
  else if exponent = 0 then .finite negative fraction (-1074)
  else .finite negative (1 <<< 52 + fraction) ((exponent : Int) - 1075)

/-- The parts of a double. -/
def parts (x : Float) : Parts := partsOfBits x.toBits.toNat

/-- The bits of `± coefficient * 2 ^ exponent`.  The leading one of the coefficient adds one to the
exponent bits, which is why they count from the least exponent; and a coefficient of `2 ^ 53` adds
two, as it should. -/
def bitsOf (negative : Bool) (coefficient : Nat) (exponent : Int) : Nat :=
  (if negative then 1 <<< 63 else 0) + (exponent + 1074).toNat <<< 52 + coefficient

/-- The double `± coefficient * 2 ^ exponent`, if there is one. -/
def compose (negative : Bool) (coefficient : Nat) (exponent : Int) : Float :=
  Float.ofBits (UInt64.ofNat (bitsOf negative coefficient exponent))

/-! ## Whole numbers -/

/-- `coefficient * 2 ^ exponent` without its fraction. -/
def scaledDown (coefficient : Nat) (exponent : Int) : Nat :=
  if 0 ≤ exponent then coefficient <<< exponent.toNat else coefficient >>> (-exponent).toNat

/-- The absolute value without its fraction, exactly; `0` for a number that is not finite. -/
def wholePart (x : Float) : Nat :=
  match parts x with
  | .finite _ coefficient exponent => scaledDown coefficient exponent
  | _ => 0

/-- Whether the number is finite and has no fraction. -/
def isWhole (x : Float) : Bool :=
  match parts x with
  | .finite _ coefficient exponent =>
    let places := (-exponent).toNat
    coefficient >>> places <<< places == coefficient
  | _ => false

/-- Whether the number is one of the two zeros. -/
def isZero (x : Float) : Bool :=
  match parts x with
  | .finite _ coefficient _ => coefficient == 0
  | _ => false

/-- Whether the bit of the sign is set. -/
def isNegative (x : Float) : Bool := decide (1 <<< 63 ≤ x.toBits.toNat)

/-- The number without its fraction.  The sign stays, also that of a zero. -/
def truncate (x : Float) : Float :=
  match parts x with
  | .finite negative coefficient exponent =>
    let places := (-exponent).toNat
    if 0 ≤ exponent then x
    else if exponent < -52 then compose negative 0 (-1074)
    else compose negative (coefficient >>> places <<< places) exponent
  | _ => x

/-- The next whole number away from zero.  From a number between minus one and one it is one of
these two; from any other the steps of the coefficient do not go beyond one. -/
def awayFromZero (x : Float) : Float :=
  match parts x with
  | .finite negative coefficient exponent =>
    let places := (-exponent).toNat
    if 0 ≤ exponent then x
    else if exponent < -52 then compose negative (1 <<< 52) (-52)
    else compose negative ((coefficient >>> places + 1) <<< places) exponent
  | _ => x

/-- The greatest whole number that is not above `x`. -/
def floor (x : Float) : Float :=
  if isWhole x then x else if isNegative x then awayFromZero x else truncate x

/-- The least whole number that is not below `x`. -/
def ceiling (x : Float) : Float :=
  if isWhole x then x else if isNegative x then truncate x else awayFromZero x

/-- The nearest whole number, a half rounded up: a half is added, and the sum is rounded down.  From
`2 ^ 53` on, where doubles are whole and lie at least two apart, every number is its own. -/
def nearest (x : Float) : Float :=
  match parts x with
  | .finite _ _ exponent => if 0 < exponent then x else floor (x + 0.5)
  | _ => x

/-- A rank that puts all doubles in one order: by value, the negative zero before the other. -/
def totalRank (x : Float) : Int :=
  let bits := x.toBits.toNat
  if 1 <<< 63 ≤ bits then -(Int.ofNat (bits - 1 <<< 63)) - 1 else Int.ofNat bits

end BlockSteps.Decimal
