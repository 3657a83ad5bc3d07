import BlockSteps.Decimal.Shortest

/-!
# How numbers are written

Both texts in which a number appears, the plain one shown to people and used as a channel name,
and the one in documents, write the shortest digits that read back.  They differ in a handful of
decisions, which a `Format` lists: which of two equally near decimals is meant, where positional
writing ends, what follows a whole number, and what stands for the values that are no numbers.
-/

namespace BlockSteps.Decimal

/-- The decisions of a number format. -/
structure Format where
  /-- Which of two equally near shortest decimals is written. -/
  tie : Tie
  /-- Whether a number `0.ddd * 10 ^ point` is written without an exponent. -/
  positional : (point : Int) → Bool
  /-- What follows the digits of a whole number written without an exponent. -/
  wholeTail : List Char
  /-- The text of not-a-number. -/
  nan : List Char
  /-- The text of the infinities, by sign. -/
  infinite : (negative : Bool) → List Char

/-- The plain form: never an exponent, no point after a whole number. -/
def Format.plain : Format where
  tie := .up
  positional := fun _ => true
  wholeTail := []
  nan := "NaN".toList
  infinite := fun negative => if negative then "-inf".toList else "inf".toList

/-- The form in documents: positional from `0.00001` up to sixteen digits before the point, a
whole number ends in `.0`, and what is no number is `null`. -/
def Format.document : Format where
  tie := .even
  positional := fun point => decide (-5 < point ∧ point ≤ 16)
  wholeTail := ".0".toList
  nan := "null".toList
  infinite := fun _ => "null".toList

/-- The decimal digits of a natural number. -/
def natChars (n : Nat) : List Char := Nat.toDigits 10 n

theorem isDigit_natChars {n : Nat} {c : Char} (h : c ∈ natChars n) : c.isDigit = true :=
  Nat.isDigit_of_mem_toDigits (by decide) (by decide) h

/-- The decimal digits of an integer, behind a minus sign if it is negative. -/
def intChars (n : Int) : List Char :=
  if n < 0 then '-' :: natChars n.natAbs else natChars n.natAbs

/-- The digits `ddd` of `0.ddd * 10 ^ point` laid out without an exponent. -/
def positionalChars (wholeTail : List Char) (digits : List Char) (point : Int) : List Char :=
  if point ≤ 0 then '0' :: '.' :: (List.replicate (-point).toNat '0' ++ digits)
  else if digits.length ≤ point.toNat then
    digits ++ List.replicate (point.toNat - digits.length) '0' ++ wholeTail
  else digits.take point.toNat ++ '.' :: digits.drop point.toNat

/-- The digits `ddd` of `0.ddd * 10 ^ point` as `d.dd` and an exponent. -/
def exponentChars (digits : List Char) (point : Int) : List Char :=
  match digits with
  | [] => []
  | [d] => d :: 'e' :: intChars (point - 1)
  | d :: rest => d :: '.' :: (rest ++ 'e' :: intChars (point - 1))

/-- The digits of a positive number in the given format. -/
def Format.digits (f : Format) (d : Digits) : List Char :=
  let digits := natChars d.coefficient
  let point := d.exponent + digits.length
  if f.positional point then positionalChars f.wholeTail digits point
  else exponentChars digits point

/-- The text of a double in the given format. -/
def Format.chars (f : Format) (x : Float) : List Char :=
  match parts x with
  | .nan => f.nan
  | .infinite negative => f.infinite negative
  | .finite negative m q =>
    let magnitude := if m = 0 then '0' :: f.wholeTail else f.digits (shortest f.tie m q)
    if negative then '-' :: magnitude else magnitude

/-- The text of a double in the given format. -/
def Format.write (f : Format) (x : Float) : String := String.ofList (f.chars x)

/-- The plain text of a number. -/
def plain (x : Float) : String := Format.plain.write x

end BlockSteps.Decimal
