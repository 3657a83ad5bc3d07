import BlockSteps.Settings.Toml.Text

/-!
# Numbers, dates and truth values of TOML

All of these are written without quotation marks.  The characters up to the next blank, comment,
comma or closing bracket are one token, and the token is one of them as a whole or wrong.
-/

namespace BlockSteps.Toml

/-- The digits without the underscores, each of which must stand between two digits. -/
def joinedDigits? (isDigit : Char → Bool) : List Char → Option (List Char)
  | [] => none
  | [c] => if isDigit c then some [c] else none
  | c :: '_' :: rest =>
    if isDigit c then (joinedDigits? isDigit rest).map (c :: ·) else none
  | c :: rest => if isDigit c then (joinedDigits? isDigit rest).map (c :: ·) else none

/-- The digits of a number in base ten: no zero before other digits. -/
def wholeDigits? (cs : List Char) : Option (List Char) := do
  let digits ← joinedDigits? Char.isDigit cs
  match digits with
  | '0' :: _ :: _ => none
  | _ => some digits

/-- The value of digits in a base. -/
def valueInBase? (base : Nat) (cs : List Char) : Option Nat := do
  let digits ← joinedDigits? (fun c => (Json.hexValue? c).any (· < base)) cs
  some (digits.foldl (fun n c => base * n + (Json.hexValue? c).getD 0) 0)

/-- A whole number of 64 bits. -/
def integer? (cs : List Char) : Option Int := do
  let n ← match cs with
    | '0' :: 'x' :: rest => (valueInBase? 16 rest).map Int.ofNat
    | '0' :: 'o' :: rest => (valueInBase? 8 rest).map Int.ofNat
    | '0' :: 'b' :: rest => (valueInBase? 2 rest).map Int.ofNat
    | _ => do
      let (negative, digits) := Decimal.signOf cs
      let n : Int := Decimal.digitsValue (← wholeDigits? digits)
      some (if negative then -n else n)
  if Int64.minValue.toInt ≤ n ∧ n ≤ Int64.maxValue.toInt then some n else none

/-- A number with a point, an exponent or both, or a word for a value that is no finite number.
Digits that are too large for a double are refused; behind a minus sign they are minus infinity. -/
def real? (cs : List Char) : Option Float := do
  let (negative, magnitude) := Decimal.signOf cs
  let signed (x : Float) : Float := if negative then -x else x
  if magnitude = "inf".toList then some (signed (1 / 0))
  else if magnitude = "nan".toList then some (0 / 0)
  else
    let (mantissa, marked) := magnitude.span fun c => c ≠ 'e' && c ≠ 'E'
    let (whole, pointed) := mantissa.span fun c => c ≠ '.'
    if marked.isEmpty && pointed.isEmpty then none
    else
      let whole ← wholeDigits? whole
      let fraction ← match pointed with
        | [] => some []
        | _ :: rest => joinedDigits? Char.isDigit rest
      let exponent : Int ← match marked with
        | [] => some 0
        | _ :: rest => do
          let (minus, digits) := Decimal.signOf rest
          let n : Int := Decimal.digitsValue (← joinedDigits? Char.isDigit digits)
          some (if minus then -n else n)
      let literal : Decimal.Literal :=
        ⟨negative, Decimal.digitsValue (whole ++ fraction), exponent - fraction.length⟩
      let x := literal.toFloat
      if negative || x.isFinite then some x else none

/-! ## Dates and times -/

/-- The value of two digits. -/
def two? (a b : Char) : Option Nat :=
  if a.isDigit && b.isDigit then some (Decimal.digitsValue [a, b]) else none

/-- The number of days of a month. -/
def daysIn (year month : Nat) : Nat :=
  if month = 2 then
    if year % 4 = 0 ∧ (year % 100 ≠ 0 ∨ year % 400 = 0) then 29 else 28
  else if month = 4 ∨ month = 6 ∨ month = 9 ∨ month = 11 then 30
  else 31

/-- The date that a text begins with, and the rest. -/
def date? : List Char → Option (WithRest (List Char))
  | y :: e :: a :: r :: '-' :: m :: n :: '-' :: d :: t :: rest => do
    let year := 100 * (← two? y e) + (← two? a r)
    let month ← two? m n
    let day ← two? d t
    if 1 ≤ month ∧ month ≤ 12 ∧ 1 ≤ day ∧ day ≤ daysIn year month then
      some ([y, e, a, r, '-', m, n, '-', d, t], rest)
    else none
  | _ => none

/-- How many digits of a second's fraction are kept. -/
def keptPlaces : Nat := 9

/-- The fraction of a second as it is kept: cut off behind its last place, without zeros at the end,
and nothing if it is zero. -/
def keptFraction (digits : List Char) : List Char :=
  match (digits.take keptPlaces).reverse.dropWhile (· = '0') with
  | [] => []
  | kept => '.' :: kept.reverse

/-- The time of day that a text begins with, and the rest. -/
def timeOfDay? : List Char → Option (WithRest (List Char))
  | h :: o :: ':' :: m :: i :: ':' :: s :: e :: rest => do
    let hour ← two? h o
    let minute ← two? m i
    let second ← two? s e
    let clock := [h, o, ':', m, i, ':', s, e]
    if hour ≤ 23 ∧ minute ≤ 59 ∧ second ≤ 60 then
      match rest with
      | '.' :: rest =>
        let (fraction, rest) := Decimal.digitRun rest
        if fraction.isEmpty then none else some (clock ++ keptFraction fraction, rest)
      | _ => some (clock, rest)
    else none
  | _ => none

/-- An offset from the time of Greenwich, or nothing.  No offset has the sign of a later time. -/
def offset? : List Char → Option (List Char)
  | [] => some []
  | ['Z'] => some ['Z']
  | ['z'] => some ['Z']
  | [sign, h, o, ':', m, i] => do
    let hours ← two? h o
    let minutes ← two? m i
    if (sign = '+' ∨ sign = '-') ∧ hours ≤ 23 ∧ minutes ≤ 59 then
      some [if hours = 0 ∧ minutes = 0 then '+' else sign, h, o, ':', m, i]
    else none
  | _ => none

/-- A date, a time of day, or a date with a time and perhaps an offset, as it is written out. -/
def moment? (cs : List Char) : Option (List Char) :=
  match date? cs with
  | some (day, []) => some day
  | some (day, mark :: rest) => do
    let (time, rest) ← timeOfDay? rest
    let offset ← offset? rest
    if mark = 'T' ∨ mark = 't' ∨ mark = ' ' then some (day ++ 'T' :: time ++ offset) else none
  | none =>
    match timeOfDay? cs with
    | some (time, []) => some time
    | _ => none

/-- The name under which the value of a date or time holds its text. -/
def momentName : String := "$__toml_private_datetime"

/-! ## Tokens -/

/-- Whether a character ends a token. -/
def endsToken (c : Char) : Bool :=
  c = ' ' || c = '\t' || c = '\n' || c = '\r' || c = '#' || c = ',' || c = ']' || c = '\x7d'

/-- The token that a text begins with.  The one blank within a token is that between a date and a
time. -/
def token (cs : List Char) : List Char × List Char :=
  let (first, rest) := cs.span fun c => !endsToken c
  match date? first, rest with
  | some (_, []), ' ' :: more =>
    let (second, rest') := more.span fun c => !endsToken c
    match second with
    | c :: _ => if c.isDigit then (first ++ ' ' :: second, rest') else (first, rest)
    | [] => (first, rest)
  | _, _ => (first, rest)

/-- What a token stands for.  A date or time is a table with its text. -/
def tokenValue? (cs : List Char) : Option Setting :=
  if cs = "true".toList then some (.flag true)
  else if cs = "false".toList then some (.flag false)
  else
    match integer? cs with
    | some n => some (.integer n)
    | none =>
      match real? cs with
      | some x => some (.real x)
      | none => (moment? cs).map fun m => .table [(momentName, .text (String.ofList m))]

end BlockSteps.Toml
