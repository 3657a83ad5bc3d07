import BlockSteps.Json.Draft

/-!
# From text to draft

The grammar of JSON, read from left to right.  Every function takes the characters that are left
and gives back what it made of them and the characters after it; where the text is at fault it
gives back the fault and nothing is left.

The recursion runs on a bound for the number of calls.  `Draft.ofText` computes it from the length
of the text, so no caller sees it: between two calls at most one leaves the text as it is.
-/

namespace BlockSteps.Json

/-- The characters left after a piece of text, or none if the piece is at fault. -/
abbrev Left := Option (List Char)

/-- Skip the blanks that may stand between the signs of a JSON text. -/
def skipBlanks : List Char → List Char
  | c :: rest => if c = ' ' ∨ c = '\n' ∨ c = '\t' ∨ c = '\r' then skipBlanks rest else c :: rest
  | [] => []

/-- The rest of a text after an expected word. -/
def afterWord : List Char → List Char → Except Trouble (List Char)
  | [], rest => .ok rest
  | _ :: _, [] => .error .truncated
  | w :: word, c :: rest => if c = w then afterWord word rest else .error .malformed

/-- A value that is spelled as a word. -/
def scanWord (word : List Char) (value : Draft) (cs : List Char) : Draft × Left :=
  match afterWord word cs with
  | .ok rest => (value, some rest)
  | .error t => (.fault (Fault.same t).unlooked, none)

/-! ## Strings

A string is first taken as a row of pieces, because an escape may name half a character: two
UTF-16 surrogates in a row make one character between them. -/

/-- A character of a string, or a UTF-16 code unit that an escape names. -/
inductive Piece where
  /-- A character. -/
  | char (c : Char)
  /-- A code unit. -/
  | unit (n : Nat)
  deriving Repr, DecidableEq

/-- Whether a code unit is the first half of a pair. -/
def isLeading (n : Nat) : Bool := decide (0xd800 ≤ n ∧ n < 0xdc00)

/-- Whether a code unit is the second half of a pair. -/
def isTrailing (n : Nat) : Bool := decide (0xdc00 ≤ n ∧ n < 0xe000)

/-- The character of a pair of code units. -/
def pairedChar (leading trailing : Nat) : Char :=
  Char.ofNat (0x10000 + (leading - 0xd800) * 0x400 + (trailing - 0xdc00))

/-- The characters of a row of pieces, behind those already collected in reverse; none if a half
pair stands alone. -/
def joinPieces (done : List Char) : List Piece → Option (List Char)
  | [] => some done.reverse
  | .char c :: rest => joinPieces (c :: done) rest
  | .unit n :: .unit m :: rest =>
    if isLeading n then
      if isTrailing m then joinPieces (pairedChar n m :: done) rest else none
    else if isTrailing n then none
    else joinPieces (Char.ofNat n :: done) (.unit m :: rest)
  | .unit n :: rest =>
    if isLeading n || isTrailing n then none else joinPieces (Char.ofNat n :: done) rest

/-- The text of a row of pieces; none if a half pair stands alone. -/
def textOfPieces? (pieces : List Piece) : Option String :=
  (joinPieces [] pieces).map String.ofList

/-- The value of a hexadecimal digit. -/
def hexValue? (c : Char) : Option Nat :=
  if c.isDigit then some (c.toNat - '0'.toNat)
  else if 'a' ≤ c ∧ c ≤ 'f' then some (c.toNat - 'a'.toNat + 10)
  else if 'A' ≤ c ∧ c ≤ 'F' then some (c.toNat - 'A'.toNat + 10)
  else none

/-- The value of a row of hexadecimal digits. -/
def hexDigitsValue? (cs : List Char) : Option Nat :=
  cs.foldl (fun n c => n.bind fun n => (hexValue? c).map (16 * n + ·)) (some 0)

/-- What a one-letter escape stands for. -/
def escapedBy? (c : Char) : Option Char :=
  if c = '"' ∨ c = '\\' ∨ c = '/' then some c
  else if c = 'b' then some '\x08'
  else if c = 'f' then some '\x0c'
  else if c = 'n' then some '\n'
  else if c = 'r' then some '\r'
  else if c = 't' then some '\t'
  else none

/-- A scanned string: its pieces, last one first, and either the rest of the text or the fault. -/
abbrev TextScan := List Piece × Except Trouble (List Char)

/-- Scan a string from behind its opening quotation mark.  An escape by number needs four bytes of
text before its digits are looked at. -/
def scanPieces (done : List Piece) : List Char → TextScan
  | [] => (done, .error .truncated)
  | '"' :: rest => (done, .ok rest)
  | ['\\'] => (done, .error .truncated)
  | '\\' :: 'u' :: a :: b :: c :: d :: rest =>
    match hexDigitsValue? [a, b, c, d] with
    | some n => scanPieces (.unit n :: done) rest
    | none => (done, .error .malformed)
  | '\\' :: 'u' :: rest =>
    (done, .error (if (String.ofList rest).utf8ByteSize < 4 then .truncated else .malformed))
  | '\\' :: c :: rest =>
    match escapedBy? c with
    | some e => scanPieces (.char e :: done) rest
    | none => (done, .error .malformed)
  | c :: rest =>
    if c.toNat < 32 then (done, .error .malformed) else scanPieces (.char c :: done) rest

/-- The fault of a string that the text breaks off.  A half pair that something else has followed
is what a reader meets first; one that stands last might still have found its partner. -/
def brokenText (done : List Piece) (t : Trouble) : Fault :=
  let settled := match done with
    | .unit n :: before => if isLeading n then before else done
    | _ => done
  let met := if (textOfPieces? settled.reverse).isNone then .malformed else t
  ⟨met, t, .error met⟩

/-- A string behind its opening quotation mark: its text and the rest, or the fault. -/
def scanText (cs : List Char) : Except Fault (Option String × List Char) :=
  match scanPieces [] cs with
  | (done, .ok rest) => .ok (textOfPieces? done.reverse, rest)
  | (done, .error t) => .error (brokenText done t)

/-! ## Numbers -/

/-- The fault of a number after which the text ends or goes on with something else. -/
def brokenNumber (rest : List Char) : Draft × Left :=
  (.fault ⟨if rest.isEmpty then .truncated else .malformed, .malformed, .error .malformed⟩, none)

/-- The exponent of a number whose digits are known, and the rest. -/
def scanExponent (negative : Bool) (whole fraction : List Char) : List Char → Draft × Left
  | mark :: rest =>
    if mark = 'e' ∨ mark = 'E' then
      let (minus, rest) := Decimal.signOf rest
      let (exponent, rest) := Decimal.digitRun rest
      if exponent.isEmpty then brokenNumber rest
      else
        let e : Int := Decimal.digitsValue exponent
        (.number ⟨negative, whole, fraction, some (if minus then -e else e)⟩, some rest)
    else (.number ⟨negative, whole, fraction, none⟩, some (mark :: rest))
  | [] => (.number ⟨negative, whole, fraction, none⟩, some [])

/-- The fraction and the exponent of a number, and the rest. -/
def scanFraction (negative : Bool) (whole : List Char) : List Char → Draft × Left
  | '.' :: rest =>
    let (fraction, rest) := Decimal.digitRun rest
    if fraction.isEmpty then brokenNumber rest
    else scanExponent negative whole fraction rest
  | rest => scanExponent negative whole [] rest

/-- A number behind its sign: no digit may follow a leading zero. -/
def scanMagnitude (negative : Bool) : List Char → Draft × Left
  | '0' :: rest =>
    match rest with
    | c :: _ => if c.isDigit then (.fault (.same .malformed), none)
      else scanFraction negative ['0'] rest
    | [] => scanFraction negative ['0'] []
  | rest =>
    let (digits, after) := Decimal.digitRun rest
    if digits.isEmpty then brokenNumber after else scanFraction negative digits after

/-! ## Values -/

variable [Rounding]

mutual

/-- One value, with the blanks before it. -/
def scanValue : Nat → List Char → Draft × Left
  | 0, _ => (.fault (.same .truncated), none)
  | bound + 1, cs =>
    match skipBlanks cs with
    | [] => (.fault (.same .truncated), none)
    | c :: rest =>
      if c = '\x7b' then
        let (members, stop, left) := scanMembers bound true rest
        (.object members stop, left)
      else if c = '[' then
        let (items, stop, left) := scanItems bound true rest
        (.array items stop, left)
      else if c = '"' then
        match scanText rest with
        | .ok (s, rest) => (.text s, some rest)
        | .error f => (.fault f, none)
      else if c = 'n' then scanWord "ull".toList .null rest
      else if c = 't' then scanWord "rue".toList (.boolean true) rest
      else if c = 'f' then scanWord "alse".toList (.boolean false) rest
      else if c = '-' then scanMagnitude true rest
      else if c.isDigit then scanMagnitude false (c :: rest)
      else (.fault (.same .malformed), none)

/-- The items of an array and its end.  A comma announces an item, so what is wrong behind one is
the fault of that item. -/
def scanItems : Nat → Bool → List Char → List Draft × Option Fault × Left
  | 0, _, _ => ([], some (.same .truncated), none)
  | bound + 1, first, cs =>
    match skipBlanks cs with
    | [] => ([], some (.same .truncated), none)
    | c :: rest =>
      if c = ']' then ([], none, some rest)
      else if first || c = ',' then
        match scanValue bound (if first then c :: rest else rest) with
        | (item, none) => ([item], none, none)
        | (item, some rest) =>
          let (items, stop, left) := scanItems bound false rest
          (item :: items, stop, left)
      else ([], some (.same .malformed), none)

/-- The members of an object and its end.  A colon that is missing is the fault of the value.  What
is wrong with the first name is met by one who looks for a word; what is wrong behind a comma is
not. -/
def scanMembers : Nat → Bool → List Char → List (Option String × Draft) × Option Fault × Left
  | 0, _, _ => ([], some (.same .truncated), none)
  | bound + 1, first, cs =>
    match skipBlanks cs with
    | [] => ([], some (.same .truncated), none)
    | c :: rest =>
      if c = '\x7d' then ([], none, some rest)
      else if first || c = ',' then
        let seen (f : Fault) : Fault := if first then f else f.unlooked
        match (if first then c :: rest else skipBlanks rest) with
        | [] => ([], some (seen (.same .truncated)), none)
        | q :: rest =>
          if q = '"' then
            match scanText rest with
            | .error f => ([], some (seen f), none)
            | .ok (name, rest) =>
              match skipBlanks rest with
              | [] => ([(name, .fault (.same .truncated))], none, none)
              | colon :: rest =>
                if colon = ':' then
                  match scanValue bound rest with
                  | (value, none) => ([(name, value)], none, none)
                  | (value, some rest) =>
                    let (members, stop, left) := scanMembers bound false rest
                    ((name, value) :: members, stop, left)
                else ([(name, .fault (.same .malformed))], none, none)
          else
            let stray := (scanValue bound (q :: rest)).1
            ([], some (seen ⟨.malformed, .malformed, stray.found⟩), none)
      else ([], some (.same .malformed), none)

end

/-- The draft of a text, and whether only blanks follow its value. -/
def Draft.ofText (text : String) : Draft × Bool :=
  let cs := text.toList
  match scanValue (2 * cs.length + 2) cs with
  | (d, some rest) => (d, (skipBlanks rest).isEmpty)
  | (d, none) => (d, false)

end BlockSteps.Json
