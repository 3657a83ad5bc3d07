import BlockSteps.Json.Value
import BlockSteps.Decimal.Format
import BlockSteps.Text.Quoted

/-!
# Writing JSON

One writer serves two layouts.  The compact one has no blanks; the indented one puts every item
on a line of its own, two spaces further in than the bracket that holds it, and a blank behind the
colon.  Empty arrays and objects are `[]` and `{}` in both.

The writer appends to a text that is already there.  That keeps a document of many steps linear
to write, and it makes the place of each piece in the output explicit.
-/

namespace BlockSteps.Json

/-- How a value is laid out. -/
inductive Layout where
  /-- Without blanks. -/
  | compact
  /-- One item per line, indented by two spaces for each level. -/
  | indented
  deriving Repr, DecidableEq

/-- One character as it stands inside a string: the quotation mark, the backslash and the
characters below U+0020 are escaped, all else is written as it is. -/
def escapedChar (c : Char) : List Char :=
  if c = '"' then ['\\', '"']
  else if c = '\\' then ['\\', '\\']
  else if c.toNat = 8 then ['\\', 'b']
  else if c = '\t' then ['\\', 't']
  else if c = '\n' then ['\\', 'n']
  else if c.toNat = 12 then ['\\', 'f']
  else if c = '\r' then ['\\', 'r']
  else if c.toNat < 32 then
    '\\' :: 'u' :: '0' :: '0' :: Nat.digitChar (c.toNat / 16) :: [Nat.digitChar (c.toNat % 16)]
  else [c]

/-- Append characters to a text. -/
def appendChars (out : String) (cs : List Char) : String := cs.foldl String.push out

/-- Append a string with its quotation marks. -/
def appendText (out : String) (s : String) : String :=
  (s.foldl (fun out c => appendChars out (escapedChar c)) (out.push '"')).push '"'

/-- Append what separates an item from what stands before it. -/
def Layout.appendBreak (layout : Layout) (depth : Nat) (out : String) : String :=
  match layout with
  | .compact => out
  | .indented => appendChars (out.push '\n') (List.replicate (2 * depth) ' ')

/-- Append what stands between the name and the value of a member. -/
def Layout.appendColon (layout : Layout) (out : String) : String :=
  match layout with
  | .compact => out.push ':'
  | .indented => (out.push ':').push ' '

mutual

/-- Append a value that stands `depth` levels deep. -/
def append (layout : Layout) (depth : Nat) : Json → String → String
  | .null, out => out ++ "null"
  | .boolean true, out => out ++ "true"
  | .boolean false, out => out ++ "false"
  | .integer n, out => appendChars out (Decimal.intChars n)
  | .real x, out => appendChars out (Decimal.Format.document.chars x)
  | .text s, out => appendText out s
  | .array [], out => out ++ "[]"
  | .array (item :: rest), out =>
    let out := appendItems layout (depth + 1) rest
      (append layout (depth + 1) item (layout.appendBreak (depth + 1) (out.push '[')))
    (layout.appendBreak depth out).push ']'
  | .object [], out => (out.push '\x7b').push '\x7d'
  | .object ((name, value) :: rest), out =>
    let out := appendMembers layout (depth + 1) rest
      (append layout (depth + 1) value
        (layout.appendColon
          (appendText (layout.appendBreak (depth + 1) (out.push '\x7b')) name)))
    (layout.appendBreak depth out).push '\x7d'

/-- Append the items that follow the first one of an array. -/
def appendItems (layout : Layout) (depth : Nat) : List Json → String → String
  | [], out => out
  | item :: rest, out =>
    appendItems layout depth rest
      (append layout depth item (layout.appendBreak depth (out.push ',')))

/-- Append the members that follow the first one of an object. -/
def appendMembers (layout : Layout) (depth : Nat) : List (String × Json) → String → String
  | [], out => out
  | (name, value) :: rest, out =>
    appendMembers layout depth rest
      (append layout depth value
        (layout.appendColon (appendText (layout.appendBreak depth (out.push ',')) name)))

end

/-- The text of a value. -/
def write (layout : Layout) (j : Json) : String := append layout 0 j ""

/-- The text of a value without blanks. -/
def compact (j : Json) : String := j.write .compact

/-- The text of a value with one item per line. -/
def indented (j : Json) : String := j.write .indented

end BlockSteps.Json
