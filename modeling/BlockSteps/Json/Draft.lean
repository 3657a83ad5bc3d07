import BlockSteps.Json.Numeral

/-!
# What a JSON text says up to its first fault

A text that is to be read as a workspace can be wrong in two ways: it may not be JSON, or it may
be JSON of the wrong shape.  When it is wrong in both, the reader has to report **the fault that
comes first in the text**.  A reader that scans the whole text before it looks at shapes reports
the wrong one, and one that scans and checks at once mixes two grammars.

A `Draft` resolves this.  It is the tree of the text as far as the text goes, with the fault that
ended the scan standing at its place in the tree.  Reading for shape is then a plain function on
the tree, in the order of the text, and it meets the fault where the text has it.

**Places that are read and places that are skipped.**  Members with unknown names are skipped, and
skipping is more lenient than reading: an unpaired surrogate or a number too large for a double is
a fault only where it is read.  Such leaves therefore stay leaves (`text none`, and a `Numeral`
without a value).  A text that breaks off inside a number is *truncated* for a reader but
*malformed* for one who skips, so a `Fault` has both sides.

**Places where one of a few words is wanted.**  Such a place holds the word as a string or as the
name of an only member.  Whoever looks for it does not look at anything else: no value other than
these two, and no second member, is read far enough to break off.  And in the place of that name he
looks at any value, so he can say what it is.  This is the third side of a `Fault`.
-/

namespace BlockSteps.Json

/-- In which way a text is not JSON. -/
inductive Trouble where
  /-- A character that cannot stand where it stands. -/
  | malformed
  /-- The text ends inside a value. -/
  | truncated
  deriving Repr, DecidableEq

/-- A kind of value as an error message names it. -/
inductive Found where
  /-- The value `null`. -/
  | null
  /-- A truth value. -/
  | boolean (b : Bool)
  /-- A whole number. -/
  | integer (n : Int)
  /-- A number that is not whole, or too large. -/
  | real (x : Float)
  /-- A string. -/
  | text (s : String)
  /-- An array. -/
  | sequence
  /-- An object. -/
  | map
  deriving Repr, DecidableEq

/-- The fault that ends a text, as met by a reader, by one who skips the place and by one who looks
for a word. -/
structure Fault where
  /-- What a reader of the place meets. -/
  reading : Trouble
  /-- What one who skips the place meets. -/
  skipping : Trouble
  /-- What one who looks for a word meets: also a value of another kind, in place of the name. -/
  choosing : Except Trouble Found
  deriving Repr

/-- A fault that is the same for everyone. -/
def Fault.same (t : Trouble) : Fault := ⟨t, t, .error t⟩

/-- A fault at a place where whoever looks for a word does not look. -/
def Fault.unlooked (f : Fault) : Fault := { f with choosing := .error .malformed }

/-- The tree of a JSON text as far as the text goes. -/
inductive Draft where
  /-- The value `null`. -/
  | null
  /-- A truth value. -/
  | boolean (b : Bool)
  /-- A number. -/
  | number (n : Numeral)
  /-- A string; none if it holds a surrogate without its partner. -/
  | text (s : Option String)
  /-- An array: its items, and the fault that stands in place of its end, if one does. -/
  | array (items : List Draft) (stop : Option Fault)
  /-- An object: its members, and the fault that stands in place of its end, if one does. -/
  | object (members : List (Option String × Draft)) (stop : Option Fault)
  /-- No value: the text is at fault here, and nothing follows. -/
  | fault (f : Fault)
  deriving Inhabited

/-- What a value is, for one who wants it to be of another kind.  A number or a string is read
before it is named; an array or an object is known by its opening bracket. -/
def Draft.found [Rounding] : Draft → Except Trouble Found
  | .null => .ok .null
  | .boolean b => .ok (.boolean b)
  | .number n =>
    match n.value? with
    | some (.integer i) => .ok (.integer i)
    | some (.real x) => .ok (.real x)
    | _ => .error .malformed
  | .text (some s) => .ok (.text s)
  | .text none => .error .malformed
  | .array _ _ => .ok .sequence
  | .object _ _ => .ok .map
  | .fault f => .error f.reading

end BlockSteps.Json
