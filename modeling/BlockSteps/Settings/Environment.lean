import BlockSteps.Settings.Toml.Text

/-!
# Settings from the environment

A variable whose name begins with `WORKFLOW_COMPILER_` is a setting.  What follows that beginning,
in small letters, is the way to it through the tables; two underscores, or a point, stand between
the names on the way.  The case of letters does not count anywhere in the name, nor do blanks around
it.  A way with an empty name leads nowhere, and its variable is no setting.

The value is read as a truth value, a number, a text or a character between quotation marks, a list
between brackets or a table between braces where the *whole* of it looks like one, and is a text as
it stands where it does not.  A text between double marks is written as in a file of settings.

**A missing item is an empty text.**  A list ends where its bracket follows at once on the opening
one or on a comma; a blank in between is an item already, and the value of nothing is the empty
text.  So brackets around a blank hold one item, and braces around one are no table.
-/

namespace BlockSteps.Environment

/-- What the names of settings begin with. -/
def marker : List Char := "WORKFLOW_COMPILER_".toList

/-- What follows the marker in a name, if it begins with the marker. -/
def afterMarker? (name : List Char) : Option (List Char) :=
  if (name.take marker.length).map Char.toLower = marker.map Char.toLower then
    some (name.drop marker.length)
  else none

/-- Pairs of underscores as points. -/
def underscoresAsPoints : List Char → List Char
  | '_' :: '_' :: rest => '.' :: underscoresAsPoints rest
  | c :: rest => c :: underscoresAsPoints rest
  | [] => []

/-- The parts of a text between points. -/
def betweenPoints : List Char → List (List Char)
  | [] => [[]]
  | c :: rest =>
    match betweenPoints rest with
    | [] => [[c]]
    | part :: parts => if c = '.' then [] :: part :: parts else (c :: part) :: parts

/-- The names on the way to a setting, if none of them is empty. -/
def path? (rest : List Char) : Option (List String) :=
  let parts := betweenPoints (Text.trimmed (underscoresAsPoints rest))
  if parts.any List.isEmpty then none
  else some (parts.map fun part => String.ofList (part.map Char.toLower))

/-- A value at the end of a way through tables. -/
def nested : List String → Setting → Setting
  | [], s => s
  | name :: rest, s => .table [(name, nested rest s)]

/-! ## Values -/

/-- The blanks between the parts of a value. -/
def isGap (c : Char) : Bool := c = ' ' || c = '\t' || c = '\n' || c = '\r' || c = '\x0c'

/-- The characters that end a value without quotation marks. -/
def isSeparator (c : Char) : Bool :=
  c = ',' || c = '\x7b' || c = '\x7d' || c = '[' || c = ']'

/-- A row of decimal digits, at least one. -/
def digits? (cs : List Char) : Option Nat :=
  if cs.isEmpty || !cs.all Char.isDigit then none else some (Decimal.digitsValue cs)

/-- A whole number of 64 bits, without a sign or with one. -/
def integer? (cs : List Char) : Option Int :=
  match cs with
  | '-' :: rest => do
    let n ← digits? rest
    if Int64.minValue.toInt ≤ -(n : Int) then some (-(n : Int)) else none
  | '+' :: rest => do
    let n ← digits? rest
    if n < UInt64.size then some (n : Int) else none
  | _ => do
    let n ← digits? cs
    if n < UInt64.size then some (n : Int) else none

/-- A value without quotation marks: a number if it spells one, else a text.  A number that is not
whole has a point. -/
def bare (cs : List Char) : Setting :=
  let cs := Text.trimmed cs
  match if cs.contains '.' then Decimal.number? cs else none with
  | some x => .real x
  | none =>
    match integer? cs with
    | some n => .integer n
    | none => .text (String.ofList cs)

/-- The name of an entry of a table, and the rest. -/
def entryName? : List Char → Option (List Char × List Char)
  | '"' :: rest => Toml.basicText [] rest
  | cs =>
    let (name, rest) := cs.span Toml.isBare
    if name.isEmpty then none else some (name, rest)

mutual

/-- A value with the blanks around it, and the rest. -/
def value? : (bound : Nat) → List Char → Option (Setting × List Char)
  | 0, _ => none
  | bound + 1, cs => do
    let cs := cs.dropWhile isGap
    let (s, rest) ←
      match cs with
      | 't' :: 'r' :: 'u' :: 'e' :: rest => some (.flag true, rest)
      | 'f' :: 'a' :: 'l' :: 's' :: 'e' :: rest => some (.flag false, rest)
      | '\x7b' :: rest => do
        let (entries, rest) ← entries? bound rest
        some (.table entries, rest)
      | '[' :: rest => do
        let (items, rest) ← items? bound rest
        some (.list items, rest)
      | '"' :: rest => do
        let (s, rest) ← Toml.basicText [] rest
        some (.text (String.ofList s), rest)
      | '\'' :: c :: '\'' :: rest => some (.char c, rest)
      | '\'' :: _ => none
      | cs =>
        let (token, rest) := cs.span fun c => !isSeparator c
        some (bare token, rest)
    some (s, rest.dropWhile isGap)

/-- The items of a list up to its closing bracket, and the rest. -/
def items? : (bound : Nat) → List Char → Option (List Setting × List Char)
  | 0, _ => none
  | bound + 1, cs =>
    match cs with
    | ']' :: rest => some ([], rest)
    | cs => do
      let (s, rest) ← value? bound cs
      match rest with
      | ',' :: rest => do
        let (items, rest) ← items? bound rest
        some (s :: items, rest)
      | ']' :: rest => some ([s], rest)
      | _ => none

/-- The entries of a table up to its closing brace, and the rest. -/
def entries? : (bound : Nat) → List Char → Option (List (String × Setting) × List Char)
  | 0, _ => none
  | bound + 1, cs =>
    match cs with
    | '\x7d' :: rest => some ([], rest)
    | cs => do
      let (name, rest) ← entryName? (cs.dropWhile isGap)
      match rest.dropWhile isGap with
      | '=' :: rest => do
        let (s, rest) ← value? bound rest
        match rest with
        | ',' :: rest => do
          let (entries, rest) ← entries? bound rest
          some (Dict.place (String.ofList name)
            ((Dict.find? (String.ofList name) entries).getD s) entries, rest)
        | '\x7d' :: rest => some ([(String.ofList name, s)], rest)
        | _ => none
      | _ => none

end

/-- The value of a variable. -/
def valueOf (text : String) : Setting :=
  let cs := text.toList
  match value? (2 * cs.length + 2) cs with
  | some (s, []) => s
  | _ => .text text

/-- The layer of one variable, if it is a setting. -/
def layerOf? (name value : String) : Option Setting := do
  let rest ← afterMarker? (Text.trimmed name.toList)
  let path ← path? rest
  some (nested path (valueOf value))

/-- The layer of an environment: later variables over earlier ones. -/
def layer (entries : List (String × String)) : Setting :=
  entries.foldl (fun lower p =>
    match layerOf? p.1 p.2 with
    | some upper => upper.laidOver lower
    | none => lower) (.table [])

end BlockSteps.Environment
