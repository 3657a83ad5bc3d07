import BlockSteps.Decimal.Binary
import BlockSteps.Text.Blank

/-!
# Reading numbers

A decimal literal is a sign, a coefficient and a power of ten; its double is the one nearest to
it, and of two equally near ones the one with the even coefficient.  `Literal.toFloat` rounds so
for every literal, since `Float.ofScientific` is exact arithmetic followed by one rounding.

`number?` reads what may stand in a text field of the editor: digits with at most one point
anywhere among them and an optional exponent, or one of the words for the values that are no
finite numbers.  Other formats (JSON, TOML) have stricter forms and read their own characters, but
share `Literal`.
-/

namespace BlockSteps.Decimal

/-- The number `± coefficient * 10 ^ exponent`. -/
structure Literal where
  /-- Whether a minus sign stands before it. -/
  negative : Bool
  /-- All digits, those after the point included, read as one number. -/
  coefficient : Nat
  /-- The power of ten. -/
  exponent : Int
  deriving Repr, DecidableEq

/-- The double nearest to the literal; an infinity if it is too large for one. -/
def Literal.toFloat (l : Literal) : Float :=
  let magnitude := Float.ofScientific l.coefficient (decide (l.exponent < 0)) l.exponent.natAbs
  if l.negative then -magnitude else magnitude

/-- The value of a row of decimal digits. -/
def digitsValue (digits : List Char) : Nat :=
  digits.foldl (fun n c => 10 * n + (c.toNat - '0'.toNat)) 0

/-- A number as it is spelled. -/
structure Spelling where
  /-- Whether a minus sign stands before it. -/
  negative : Bool
  /-- The digits before the point. -/
  whole : List Char
  /-- The digits behind the point; without any there is no point. -/
  fraction : List Char
  /-- The exponent, if there is one. -/
  exponent : Option Int
  deriving Repr, DecidableEq

/-- The literal that is spelled. -/
def Spelling.literal (s : Spelling) : Literal :=
  ⟨s.negative, digitsValue (s.whole ++ s.fraction), s.exponent.getD 0 - s.fraction.length⟩

/-- Whether there is neither a point nor an exponent. -/
def Spelling.isWhole (s : Spelling) : Bool := s.fraction.isEmpty && s.exponent.isNone

/-- The digits a text begins with, and the rest. -/
def digitRun (cs : List Char) : List Char × List Char := cs.span Char.isDigit

/-- A sign, if there is one, and the rest. -/
def signOf : List Char → Bool × List Char
  | '-' :: rest => (true, rest)
  | '+' :: rest => (false, rest)
  | cs => (false, cs)

/-- The digits after the point, and the rest; none if there is no point. -/
def fractionRun : List Char → List Char × List Char
  | '.' :: rest => digitRun rest
  | cs => ([], cs)

/-- A whole text read as an exponent: nothing, or a mark, a sign if there is one, and digits. -/
def exponentOf? : List Char → Option Int
  | [] => some 0
  | mark :: rest =>
    if mark = 'e' ∨ mark = 'E' then
      let (negative, digits) := signOf rest
      if digits.isEmpty ∨ !digits.all Char.isDigit then none
      else
        let n : Int := digitsValue digits
        some (if negative then -n else n)
    else none

/-- A finite decimal literal: digits, a point among, before or after them, an exponent. -/
def literal? (cs : List Char) : Option Literal :=
  let (negative, cs) := signOf cs
  let (whole, cs) := digitRun cs
  let (fraction, cs) := fractionRun cs
  if whole.isEmpty ∧ fraction.isEmpty then none
  else (exponentOf? cs).map fun e =>
    ⟨negative, digitsValue (whole ++ fraction), e - fraction.length⟩

/-- The words for the doubles that are no finite numbers, in any case of letters. -/
def word? (cs : List Char) : Option Float :=
  let (negative, word) := signOf cs
  let word := word.map Char.toLower
  let signed (x : Float) : Float := if negative then -x else x
  if word = "inf".toList ∨ word = "infinity".toList then some (signed (1 / 0))
  else if word = "nan".toList then some (0 / 0)
  else none

/-- The double that a text names, if it names one. -/
def number? (cs : List Char) : Option Float :=
  match literal? cs with
  | some l => some l.toFloat
  | none => word? cs

end BlockSteps.Decimal
