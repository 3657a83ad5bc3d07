import BlockSteps.Text.Invisible

/-!
# Quoted text in messages

A message quotes a literal between double quotation marks.  Inside, the mark and the backslash
are written behind a backslash, the line feed, the carriage return, the tab and the null
character by their letters, every other character of `Text.isInvisible` by its number in
hexadecimal digits between braces, and all else as it is.
-/

namespace BlockSteps.Text

/-- The digits of a number in base sixteen, small letters, at least one digit. -/
def hexDigits (n : Nat) : List Char := Nat.toDigits 16 n

/-- One character as it stands between the quotation marks. -/
def quotedChar (c : Char) : List Char :=
  if c = '"' then ['\\', '"']
  else if c = '\\' then ['\\', '\\']
  else if c = '\n' then ['\\', 'n']
  else if c = '\r' then ['\\', 'r']
  else if c = '\t' then ['\\', 't']
  else if c.toNat = 0 then ['\\', '0']
  else if isInvisible c then '\\' :: 'u' :: '\x7b' :: (hexDigits c.toNat ++ ['\x7d'])
  else [c]

/-- The text between quotation marks, as a message shows it. -/
def quoted (s : String) : String :=
  String.ofList ('"' :: (s.toList.flatMap quotedChar ++ ['"']))

end BlockSteps.Text
