/-!
# JSON values

`Json` is a JSON value to be written, and also what a literal field of a block holds while it has
not been looked at.  Whole and real numbers are told apart, because a document does: `50` and
`50.0` are different texts.
-/

namespace BlockSteps

/-- A JSON value.  The members of an object are written in the order of the list. -/
inductive Json where
  /-- The value `null`. -/
  | null
  /-- A truth value. -/
  | boolean (b : Bool)
  /-- A number written without a point. -/
  | integer (n : Int)
  /-- A number written in the document format of `Decimal.Format.document`. -/
  | real (x : Float)
  /-- A string. -/
  | text (s : String)
  /-- An array. -/
  | array (items : List Json)
  /-- An object. -/
  | object (members : List (String × Json))
  deriving Inhabited

namespace Json

/-- An array of strings. -/
def texts (items : List String) : Json := .array (items.map .text)

end Json

end BlockSteps
