import BlockSteps.Json.Value
import BlockSteps.Decimal.Literal

/-!
# The numbers of a JSON text

A number of a JSON text is a whole number of 64 bits, if it is spelled as one, and else a double.
Which double is a matter of how carefully it is computed, and nothing else in reading depends on it;
so it is a parameter, a `Rounding`.  Two of them matter.

* `Rounding.nearest` is what the number says: the double nearest to it.
* `Rounding.stepwise` is what readers do that are in a hurry, and it is the one that is used where
  no other is given.  It takes as many digits as a word holds, turns the word into a double, and
  multiplies it by a power of ten, or divides it by one.  Each of these steps rounds, so what comes
  out may be another double than the nearest one, and a number just below the greatest double may
  come out as too large.

For short numbers the two agree, since the digits and the power of ten are doubles themselves.
-/

namespace BlockSteps.Json

/-- A number as the text writes it. -/
abbrev Numeral := Decimal.Spelling

/-- How a number that is not taken as a whole one becomes a double: an infinity if it is too large
for one. -/
class Rounding where
  /-- The double of a number. -/
  toFloat : Numeral → Float

/-- The double nearest to the number. -/
abbrev Rounding.nearest : Rounding := ⟨fun n => n.literal.toFloat⟩

/-! ## Step by step -/

/-- Take digits into a word, one by one, as long as the word holds them: the word, and the digits
that are left. -/
def takeDigits (word : Nat) : List Char → Nat × List Char
  | [] => (word, [])
  | c :: rest =>
    let next := 10 * word + (c.toNat - '0'.toNat)
    if next < UInt64.size then takeDigits next rest else (word, c :: rest)

/-- The word that the digits of a number fill, and the power of ten that goes with it.  A digit
before the point for which there is no room counts as a place, one behind the point not at all. -/
def Numeral.filled (n : Numeral) : Nat × Int :=
  let (word, passed) := takeDigits 0 n.whole
  let (word, beyond) := takeDigits word n.fraction
  (word, passed.length + beyond.length - n.fraction.length)

/-- The greatest power of ten by which a double is multiplied or divided at once. -/
def greatestPower : Nat := 308

/-- A power of ten. -/
def tenTo (k : Nat) : Float := Float.ofScientific 1 false k

/-- Divide by the greatest power of ten, so many times, and then by another one; a zero is not
divided further. -/
def dividedBy (power : Nat) : (rounds : Nat) → Float → Float
  | 0, x => x / tenTo power
  | rounds + 1, x => if x == 0 then x else dividedBy power rounds (x / tenTo greatestPower)

/-- A double times a power of ten. -/
def timesTenTo (x : Float) (exponent : Int) : Float :=
  if exponent < 0 then
    let places := (-exponent).toNat
    let rounds := (places - 1) / greatestPower
    dividedBy (places - rounds * greatestPower) rounds x
  else if exponent ≤ greatestPower then x * tenTo exponent.toNat
  else if x == 0 then x
  else 1 / 0

/-- The double of a number, step by step.  An exponent of more than 31 bits is not looked at but for
its sign. -/
def Numeral.stepwise (n : Numeral) : Float :=
  let (word, places) := n.filled
  let exponent := n.exponent.getD 0
  let magnitude :=
    if Int32.maxValue.toInt < exponent.natAbs then
      if word = 0 ∨ exponent < 0 then 0 else 1 / 0
    else timesTenTo (UInt64.ofNat word).toFloat (places + exponent)
  if n.negative then -magnitude else magnitude

/-- The double of a number, step by step. -/
instance Rounding.stepwise : Rounding := ⟨Numeral.stepwise⟩

/-! ## Values -/

/-- The value of a number: a 64-bit integer where it is one, else a double.  A negative zero is a
double, since no integer has its sign.  There is no value beyond the doubles. -/
def Numeral.value? [Rounding] (n : Numeral) : Option Json :=
  let c := n.literal.coefficient
  if n.isWhole && !n.negative && decide (c < UInt64.size) then some (.integer c)
  else if n.isWhole && n.negative && decide (0 < c ∧ Int64.minValue.toInt ≤ -c) then
    some (.integer (-c))
  else
    let x := Rounding.toFloat n
    if x.isFinite then some (.real x) else none

end BlockSteps.Json
