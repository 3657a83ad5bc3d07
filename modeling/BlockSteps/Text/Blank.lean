/-!
# Blank characters and trimming

A number literal may stand between blanks, and a literal or a name of nothing but blanks counts
as not given.  *Blank* is the Unicode property White_Space, not the short list of ASCII blanks:
an editor field can hold a no-break space as easily as a tab.
-/

namespace BlockSteps.Text

/-- The characters with the property White_Space. -/
def isBlank (c : Char) : Bool :=
  let n := c.toNat
  (9 ≤ n && n ≤ 13) || n == 0x20 || n == 0x85 || n == 0xa0 || n == 0x1680 ||
    (0x2000 ≤ n && n ≤ 0x200a) || n == 0x2028 || n == 0x2029 || n == 0x202f ||
    n == 0x205f || n == 0x3000

/-- The characters without the blanks at either end. -/
def trimmed (cs : List Char) : List Char :=
  ((cs.dropWhile isBlank).reverse.dropWhile isBlank).reverse

/-- Whether the text is empty or holds blanks only. -/
def isBlankText (s : String) : Bool := s.toList.all isBlank

/-- The text with its ASCII capitals made small.  Every word compared after this is ASCII and
holds no `k`, the one small letter among them that a non-ASCII capital could stand for. -/
def lowered (s : String) : String := String.ofList (s.toList.map Char.toLower)

end BlockSteps.Text
