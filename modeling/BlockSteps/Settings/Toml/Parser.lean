import BlockSteps.Settings.Toml.Scalar

/-!
# Reading TOML

A text is a row of lines: headers, and keys with their values.  A line that is wrong makes the whole
text wrong; which line it was is not reported.

Values nest, and a value may span lines, so the recursion runs on a bound, which `ofText?` computes
from the length of the text: between two calls at most one leaves the text as it is.

**Limits.**  A text stays within `Toml.depthLimit`: no value nests deeper, and no key has more
names.
-/

namespace BlockSteps.Toml

/-- What follows a comment, if one begins here.  Only the end of the line or of the text ends it:
none if it holds a control character. -/
def skipComment? : List Char → Option (List Char)
  | '#' :: rest =>
    match rest.dropWhile isPlain with
    | [] => some []
    | '\n' :: rest => some ('\n' :: rest)
    | '\r' :: '\n' :: rest => some ('\r' :: '\n' :: rest)
    | _ => none
  | cs => some cs

/-- Skip blanks, line ends and comments. -/
def skipGaps? : (bound : Nat) → List Char → Option (List Char)
  | 0, _ => none
  | bound + 1, cs =>
    match skipLineBlanks cs with
    | '\n' :: rest => skipGaps? bound rest
    | '\r' :: '\n' :: rest => skipGaps? bound rest
    | '#' :: rest => do skipGaps? bound (← skipComment? ('#' :: rest))
    | cs => some cs

/-- What follows the end of the line, which must come now. -/
def lineEnd? (cs : List Char) : Option (List Char) := do
  match ← skipComment? (skipLineBlanks cs) with
  | [] => some []
  | '\n' :: rest => some rest
  | '\r' :: '\n' :: rest => some rest
  | _ => none

mutual

/-- A value.  `room` is the number of brackets that may still open. -/
def value : (bound room : Nat) → List Char → Option (WithRest Setting)
  | 0, _, _ => none
  | bound + 1, room, cs =>
    match cs with
    | '[' :: rest => do
      if room = 0 then none
      let (items, rest) ← items bound (room - 1) rest
      some (.list items, rest)
    | '\x7b' :: rest => do
      if room = 0 then none
      match skipLineBlanks rest with
      | '\x7d' :: rest => some (.table [], rest)
      | rest =>
        let (entries, rest) ← inlineEntries bound (room - 1) rest []
        some ((Node.table .defined entries).setting, rest)
    | '"' :: _ => (anyText cs).map fun p => (.text (String.ofList p.1), p.2)
    | '\'' :: _ => (anyText cs).map fun p => (.text (String.ofList p.1), p.2)
    | _ =>
      let (word, rest) := token cs
      (tokenValue? word).map fun s => (s, rest)

/-- The items of a list up to its closing bracket. -/
def items : (bound room : Nat) → List Char → Option (WithRest (List Setting))
  | 0, _, _ => none
  | bound + 1, room, cs => do
    match ← skipGaps? (cs.length + 1) cs with
    | ']' :: rest => some ([], rest)
    | cs => do
      let (s, rest) ← value bound room cs
      match ← skipGaps? (rest.length + 1) rest with
      | ',' :: rest => do
        let (more, rest) ← items bound room rest
        some (s :: more, rest)
      | ']' :: rest => some ([s], rest)
      | _ => none

/-- The entries of a table within a line up to its closing brace, added to those before. -/
def inlineEntries : (bound room : Nat) → List Char → Entries → Option (WithRest Entries)
  | 0, _, _, _ => none
  | bound + 1, room, cs, entries => do
    let ((path, name), rest) ← key cs
    match rest with
    | '=' :: rest => do
      let (s, rest) ← value bound room (skipLineBlanks rest)
      let (_, entries) ← putValue path name s .defined entries
      match skipLineBlanks rest with
      | ',' :: rest => inlineEntries bound room rest entries
      | '\x7d' :: rest => some (entries, rest)
      | _ => none
    | _ => none

end

/-- The lines of a text.  `table` is the way to the table that the last header opened. -/
def lines : (bound : Nat) → List Char → (table : List String) → Entries → Option Entries
  | 0, _, _, _ => none
  | bound + 1, cs, table, entries =>
    match skipLineBlanks cs with
    | [] => some entries
    | '\n' :: rest => lines bound rest table entries
    | '\r' :: '\n' :: rest => lines bound rest table entries
    | '#' :: rest => do lines bound (← lineEnd? ('#' :: rest)) table entries
    | '[' :: '[' :: rest => do
      let ((path, name), rest) ← key rest
      match rest with
      | ']' :: ']' :: rest => do
        let (_, entries) ← extendTables path name .defined entries
        lines bound (← lineEnd? rest) (path ++ [name]) entries
      | _ => none
    | '[' :: rest => do
      let ((path, name), rest) ← key rest
      match rest with
      | ']' :: rest => do
        let (_, entries) ← defineTable path name .defined entries
        lines bound (← lineEnd? rest) (path ++ [name]) entries
      | _ => none
    | cs => do
      let ((path, name), rest) ← key cs
      match rest with
      | '=' :: rest => do
        let (s, rest) ← value (2 * rest.length + 2) depthLimit (skipLineBlanks rest)
        let (_, entries) ← descend false (putValue path name s) table .defined entries
        lines bound (← lineEnd? rest) table entries
      | _ => none

/-- The table that a text describes, if it is TOML.  A mark of the byte order may come first. -/
def ofText? (text : String) : Option Setting :=
  let cs := match text.toList with
    | '\ufeff' :: rest => rest
    | cs => cs
  (lines (cs.length + 1) cs [] []).bind fun entries =>
    (Node.table .defined entries).setting.releasedLayer?

end BlockSteps.Toml
