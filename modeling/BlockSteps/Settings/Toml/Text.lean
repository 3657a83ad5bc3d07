import BlockSteps.Settings.Toml.Table

/-!
# Strings and keys of TOML

Four kinds of strings: between single or double quotation marks, on one line or, between tripled
marks, on several.  Only double marks allow escapes.  A key is a row of names, each a bare word or a
string on one line.
-/

namespace BlockSteps.Toml

/-- What a piece of text is, and the characters that follow it. -/
abbrev WithRest (α : Type) := α × List Char

/-- The blanks within a line. -/
def isLineBlank (c : Char) : Bool := c = ' ' || c = '\t'

/-- Skip the blanks within a line. -/
def skipLineBlanks (cs : List Char) : List Char := cs.dropWhile isLineBlank

/-- Whether a character may stand in a string or comment as it is. -/
def isPlain (c : Char) : Bool := c = '\t' || (32 ≤ c.toNat && c.toNat ≠ 127)

/-- What a one-letter escape stands for. -/
def escapedBy? (c : Char) : Option Char :=
  if c = 'b' then some '\x08'
  else if c = 't' then some '\t'
  else if c = 'n' then some '\n'
  else if c = 'f' then some '\x0c'
  else if c = 'r' then some '\r'
  else if c = '"' ∨ c = '\\' then some c
  else none

/-- The character of a number, if it is the number of one. -/
def charOf? (n : Nat) : Option Char :=
  if n.isValidChar then some (Char.ofNat n) else none

/-- The character that hexadecimal digits name. -/
def hexChar? (digits : List Char) : Option Char := (Json.hexDigitsValue? digits).bind charOf?

/-- A string on one line behind its opening double mark. -/
def basicText (done : List Char) : List Char → Option (WithRest (List Char))
  | '"' :: rest => some (done.reverse, rest)
  | '\\' :: 'u' :: a :: b :: c :: d :: rest => do basicText ((← hexChar? [a, b, c, d]) :: done) rest
  | '\\' :: 'U' :: a :: b :: c :: d :: e :: f :: g :: h :: rest => do
    basicText ((← hexChar? [a, b, c, d, e, f, g, h]) :: done) rest
  | '\\' :: c :: rest => do basicText ((← escapedBy? c) :: done) rest
  | c :: rest => if isPlain c then basicText (c :: done) rest else none
  | [] => none

/-- A string on one line behind its opening single mark. -/
def literalText (done : List Char) : List Char → Option (WithRest (List Char))
  | '\'' :: rest => some (done.reverse, rest)
  | c :: rest => if isPlain c then literalText (c :: done) rest else none
  | [] => none

/-- Whether a line ends here, but for blanks. -/
def lineEnds (cs : List Char) : Bool :=
  match skipLineBlanks cs with
  | '\n' :: _ => true
  | '\r' :: '\n' :: _ => true
  | _ => false

/-- A string on several lines behind its opening marks.  Up to two marks may stand right before the
closing ones.  While `joining`, behind a backslash that ends a line, blanks and line ends are
skipped. -/
def basicLines (done : List Char) (joining : Bool) : List Char → Option (WithRest (List Char))
  | '"' :: '"' :: '"' :: '"' :: '"' :: rest => some (('"' :: '"' :: done).reverse, rest)
  | '"' :: '"' :: '"' :: '"' :: rest => some (('"' :: done).reverse, rest)
  | '"' :: '"' :: '"' :: rest => some (done.reverse, rest)
  | '\r' :: '\n' :: rest => basicLines (if joining then done else '\n' :: done) joining rest
  | '\n' :: rest => basicLines (if joining then done else '\n' :: done) joining rest
  | '\\' :: 'u' :: a :: b :: c :: d :: rest => do
    basicLines ((← hexChar? [a, b, c, d]) :: done) false rest
  | '\\' :: 'U' :: a :: b :: c :: d :: e :: f :: g :: h :: rest => do
    basicLines ((← hexChar? [a, b, c, d, e, f, g, h]) :: done) false rest
  | '\\' :: c :: rest =>
    if c = '\n' then basicLines done true rest
    else if lineEnds (c :: rest) then basicLines done true rest
    else do basicLines ((← escapedBy? c) :: done) false rest
  | c :: rest =>
    if joining && isLineBlank c then basicLines done joining rest
    else if isPlain c then basicLines (c :: done) false rest
    else none
  | [] => none

/-- A string on several lines behind its opening single marks. -/
def literalLines (done : List Char) : List Char → Option (WithRest (List Char))
  | '\'' :: '\'' :: '\'' :: '\'' :: '\'' :: rest => some (('\'' :: '\'' :: done).reverse, rest)
  | '\'' :: '\'' :: '\'' :: '\'' :: rest => some (('\'' :: done).reverse, rest)
  | '\'' :: '\'' :: '\'' :: rest => some (done.reverse, rest)
  | '\r' :: '\n' :: rest => literalLines ('\n' :: done) rest
  | '\n' :: rest => literalLines ('\n' :: done) rest
  | c :: rest => if isPlain c then literalLines (c :: done) rest else none
  | [] => none

/-- A line end right behind the opening marks does not belong to the string. -/
def skipFirstLineEnd : List Char → List Char
  | '\r' :: '\n' :: rest => rest
  | '\n' :: rest => rest
  | cs => cs

/-- A string of any kind; none if no string begins here. -/
def anyText : List Char → Option (WithRest (List Char))
  | '"' :: '"' :: '"' :: rest => basicLines [] false (skipFirstLineEnd rest)
  | '\'' :: '\'' :: '\'' :: rest => literalLines [] (skipFirstLineEnd rest)
  | '"' :: rest => basicText [] rest
  | '\'' :: rest => literalText [] rest
  | _ => none

/-- Whether a character may stand in a bare word. -/
def isBare (c : Char) : Bool := c.isAlphanum || c = '_' || c = '-'

/-- One name of a key. -/
def keyName : List Char → Option (WithRest String)
  | '"' :: rest => (basicText [] rest).map fun p => (String.ofList p.1, p.2)
  | '\'' :: rest => (literalText [] rest).map fun p => (String.ofList p.1, p.2)
  | cs =>
    let (name, rest) := cs.span isBare
    if name.isEmpty then none else some (String.ofList name, rest)

/-- How deep values may nest, and how many names a key may have. -/
def depthLimit : Nat := 79

/-- The names of a key of at most `room` names, the last one apart, and what follows the blanks
behind it. -/
def keyNames : (room : Nat) → List Char → Option (WithRest (List String × String))
  | 0, _ => none
  | room + 1, cs => do
    let (name, rest) ← keyName (skipLineBlanks cs)
    match skipLineBlanks rest with
    | '.' :: rest => do
      let ((path, last), rest) ← keyNames room rest
      some ((name :: path, last), rest)
    | rest => some (([], name), rest)

/-- The names of a key, the last one apart, and what follows the blanks behind it. -/
def key (cs : List Char) : Option (WithRest (List String × String)) := keyNames depthLimit cs

end BlockSteps.Toml
