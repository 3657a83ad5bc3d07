import Mathlib
import BlockSteps.Json.Printer

/-!
# The characters of a JSON text

The writer appends to a text that is already there.  What it appends does not depend on that text,
and this module says what it is, as a list of characters: `Json.chars` for a value, `itemChars` and
`memberChars` for what follows the first item of an array and the first member of an object.  The
closing brackets are left to the value, so that a statement about the items can be made for any text
behind them.

**Main statement.**  `toList_write`: the text of a value has these characters.
-/

namespace BlockSteps.Json

variable (layout : Layout)

/-- The characters of a string with its quotation marks. -/
def textChars (s : String) : List Char := '"' :: (s.toList.flatMap escapedChar ++ ['"'])

/-- The blanks that separate an item from what stands before it. -/
def Layout.breakChars (layout : Layout) (depth : Nat) : List Char :=
  match layout with
  | .compact => []
  | .indented => '\n' :: List.replicate (2 * depth) ' '

/-- The blank behind a colon. -/
def Layout.colonBlank (layout : Layout) : List Char :=
  match layout with
  | .compact => []
  | .indented => [' ']

mutual

/-- The characters of a value that stands `depth` levels deep. -/
def chars (layout : Layout) (depth : Nat) : Json → List Char
  | .null => ['n', 'u', 'l', 'l']
  | .boolean true => ['t', 'r', 'u', 'e']
  | .boolean false => ['f', 'a', 'l', 's', 'e']
  | .integer n => Decimal.intChars n
  | .real x => Decimal.Format.document.chars x
  | .text s => textChars s
  | .array [] => ['[', ']']
  | .array (item :: rest) =>
    '[' :: (layout.breakChars (depth + 1) ++ (chars layout (depth + 1) item ++
      (itemChars layout (depth + 1) rest ++ (layout.breakChars depth ++ [']']))))
  | .object [] => ['\x7b', '\x7d']
  | .object ((name, value) :: rest) =>
    '\x7b' :: (layout.breakChars (depth + 1) ++ (textChars name ++
      (':' :: (layout.colonBlank ++ (chars layout (depth + 1) value ++
        (memberChars layout (depth + 1) rest ++ (layout.breakChars depth ++ ['\x7d'])))))))

/-- The characters of the items that follow the first one of an array. -/
def itemChars (layout : Layout) (depth : Nat) : List Json → List Char
  | [] => []
  | item :: rest =>
    ',' :: (layout.breakChars depth ++ (chars layout depth item ++ itemChars layout depth rest))

/-- The characters of the members that follow the first one of an object. -/
def memberChars (layout : Layout) (depth : Nat) : List (String × Json) → List Char
  | [] => []
  | (name, value) :: rest =>
    ',' :: (layout.breakChars depth ++ (textChars name ++
      (':' :: (layout.colonBlank ++ (chars layout depth value ++ memberChars layout depth rest)))))

end

/-! ## The writer appends them -/

theorem toList_appendChars (out : String) (cs : List Char) :
    (appendChars out cs).toList = out.toList ++ cs := by
  induction cs generalizing out with
  | nil => simp [appendChars]
  | cons c cs ih =>
    have hstep : appendChars out (c :: cs) = appendChars (out.push c) cs := rfl
    rw [hstep, ih, String.toList_push, List.append_assoc]
    rfl

theorem toList_appendText (out s : String) :
    (appendText out s).toList = out.toList ++ textChars s := by
  have hfold : ∀ (cs : List Char) (out : String),
      (cs.foldl (fun out c => appendChars out (escapedChar c)) out).toList =
        out.toList ++ cs.flatMap escapedChar := by
    intro cs
    induction cs with
    | nil => simp
    | cons c cs ih =>
      intro out
      rw [List.foldl_cons, ih, toList_appendChars, List.flatMap_cons, List.append_assoc]
  unfold appendText textChars
  rw [String.foldl_eq_foldl_toList, String.toList_push, hfold, String.toList_push]
  simp

theorem toList_appendBreak (depth : Nat) (out : String) :
    (layout.appendBreak depth out).toList = out.toList ++ layout.breakChars depth := by
  cases layout with
  | compact => simp [Layout.appendBreak, Layout.breakChars]
  | indented =>
    simp [Layout.appendBreak, Layout.breakChars, toList_appendChars, String.toList_push]

theorem toList_appendColon (out : String) :
    (layout.appendColon out).toList = out.toList ++ ':' :: layout.colonBlank := by
  cases layout with
  | compact => simp [Layout.appendColon, Layout.colonBlank, String.toList_push]
  | indented => simp [Layout.appendColon, Layout.colonBlank, String.toList_push]

mutual

theorem toList_append (depth : Nat) :
    ∀ (j : Json) (out : String), (append layout depth j out).toList =
      out.toList ++ chars layout depth j
  | .null, out => by
    rw [append, String.toList_append]
    rfl
  | .boolean true, out => by
    rw [append, String.toList_append]
    rfl
  | .boolean false, out => by
    rw [append, String.toList_append]
    rfl
  | .integer n, out => toList_appendChars out _
  | .real x, out => toList_appendChars out _
  | .text s, out => toList_appendText out s
  | .array [], out => by
    rw [append, String.toList_append]
    rfl
  | .array (item :: rest), out => by
    rw [append, chars]
    simp only [String.toList_push, toList_appendBreak, toList_appendItems, toList_append,
      List.append_assoc, List.cons_append, List.nil_append]
  | .object [], out => by
    rw [append, String.toList_push, String.toList_push, List.append_assoc]
    rfl
  | .object ((name, value) :: rest), out => by
    rw [append, chars]
    simp only [String.toList_push, toList_appendBreak, toList_appendMembers, toList_append,
      toList_appendColon, toList_appendText, List.append_assoc, List.cons_append,
      List.nil_append]

theorem toList_appendItems (depth : Nat) :
    ∀ (items : List Json) (out : String), (appendItems layout depth items out).toList =
      out.toList ++ itemChars layout depth items
  | [], out => (List.append_nil _).symm
  | item :: rest, out => by
    rw [appendItems, itemChars]
    simp only [toList_appendItems, toList_append, toList_appendBreak, String.toList_push,
      List.append_assoc, List.cons_append, List.nil_append]

theorem toList_appendMembers (depth : Nat) :
    ∀ (members : List (String × Json)) (out : String),
      (appendMembers layout depth members out).toList =
        out.toList ++ memberChars layout depth members
  | [], out => (List.append_nil _).symm
  | (name, value) :: rest, out => by
    rw [appendMembers, memberChars]
    simp only [toList_appendMembers, toList_append, toList_appendColon, toList_appendText,
      toList_appendBreak, String.toList_push, List.append_assoc, List.cons_append,
      List.nil_append]

end

/-- The text of a value. -/
theorem toList_write (j : Json) : (j.write layout).toList = chars layout 0 j :=
  toList_append layout 0 j ""

end BlockSteps.Json
