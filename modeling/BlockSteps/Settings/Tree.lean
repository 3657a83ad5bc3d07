import BlockSteps.Settings.Basic

/-!
# Layers of settings

Settings come in layers: a file and, over it, the environment.  A layer is a tree of named values
whose source does not matter any more.  `Setting.laidOver` lays one on another: tables are joined,
of anything else the upper layer stays.

**Values in tables.**  A layer that another program has written out may say of a value where it came
from: in place of the value stands a table that holds the value beside a mark.  `Setting.released?`
takes such values out of their tables, so everything after it meets the values alone.

From the tree the settings are read **strictly**: no value is turned into one of another kind, so a
number where a text is wanted is refused, and the other way round.  All that is refused is refused
alike, since the report does not say more.  What is not known is passed over.
-/

namespace BlockSteps

/-- A value in a layer of settings. -/
inductive Setting where
  /-- A text. -/
  | text (s : String)
  /-- A single character.  It is a text wherever a text is wanted, but no parameter. -/
  | char (c : Char)
  /-- A truth value. -/
  | flag (b : Bool)
  /-- A whole number. -/
  | integer (n : Int)
  /-- A number that is not whole, or beyond the finite ones. -/
  | real (x : Float)
  /-- Several values. -/
  | list (items : List Setting)
  /-- Values under names, in the order of the names. -/
  | table (entries : List (String × Setting))
  deriving Inhabited

namespace Setting

mutual

/-- One value laid over another. -/
def laidOver : Setting → Setting → Setting
  | .table upper, .table lower => .table (overEntries upper lower)
  | upper, _ => upper

/-- The entries of a table laid over those of another. -/
def overEntries :
    List (String × Setting) → List (String × Setting) → List (String × Setting)
  | [], lower => lower
  | (name, value) :: rest, lower =>
    let joined := match Dict.find? name lower with
      | some old => value.laidOver old
      | none => value
    overEntries rest (Dict.place name joined lower)

end

/-! ## Values in tables -/

/-- The name under which a table holds the value it stands for. -/
def heldName : String := "___figment_value_value"

/-- The name under which a table marks the source of its value. -/
def markName : String := "___figment_value_id"

/-- Whether a value is a mark: a whole number, and not a negative one. -/
def isMark : Setting → Bool
  | .integer n => decide (0 ≤ n)
  | _ => false

mutual

/-- The value without marks, and every value that a table holds in place of that table.  There is
none if a mark is not one. -/
def released? : Setting → Option Setting
  | .list items => do
    let items ← releasedItems? items
    some (.list items)
  | .table entries => do
    let entries ← releasedEntries? entries
    some ((Dict.find? heldName entries).getD (.table entries))
  | s => some s

/-- The items of a list without marks. -/
def releasedItems? : List Setting → Option (List Setting)
  | [] => some []
  | item :: rest => do
    let item ← item.released?
    let rest ← releasedItems? rest
    some (item :: rest)

/-- The entries of a table without marks, each value released. -/
def releasedEntries? : List (String × Setting) → Option (List (String × Setting))
  | [] => some []
  | (name, s) :: rest =>
    if name = markName then
      if s.isMark then releasedEntries? rest else none
    else do
      let s ← s.released?
      let rest ← releasedEntries? rest
      some ((name, s) :: rest)

end

/-- A layer whose values are released.  The layer itself is no value, so its own names are names of
sections and nothing else. -/
def releasedLayer? : Setting → Option Setting
  | .table entries => do
    let entries ← entries.mapM fun p => p.2.released?.map fun s => (p.1, s)
    some (.table entries)
  | s => some s

/-! ## Reading a layer -/

/-- A text. -/
def text? : Setting → Option String
  | .text s => some s
  | .char c => some (String.ofList [c])
  | _ => none

/-- A number of things. -/
def count? : Setting → Option Nat
  | .integer n => if 0 ≤ n ∧ n < UInt64.size then some n.toNat else none
  | _ => none

/-- A parameter value. -/
def scalar? : Setting → Option Scalar
  | .integer n => some (.number (Float.ofInt n))
  | .real x => some (.number x)
  | .text s => some (.text s)
  | _ => none

/-- Several values. -/
def list? {α : Type} (read : Setting → Option α) : Setting → Option (List α)
  | .list items => items.mapM read
  | _ => none

/-- Values under any names. -/
def dict? {α : Type} (read : Setting → Option α) : Setting → Option (Dict α)
  | .table entries =>
    (entries.mapM fun p => (read p.2).map fun v => (p.1, v)).map Dict.ofList
  | _ => none

/-- One of a few words. -/
def word? {α : Type} (words : List (String × α)) : Setting → Option α
  | .text s => Dict.find? s words
  | _ => none

/-- The entries of a record: a table, or a list of its fields in their order. -/
def fields? (names : List String) : Setting → Option (List (String × Setting))
  | .table entries => some entries
  | .list items => some (names.zip items)
  | _ => none

/-- The field of a record, or its default where it is left out. -/
def field? {α : Type} (entries : List (String × Setting)) (name : String) (default : α)
    (read : Setting → Option α) : Option α :=
  match Dict.find? name entries with
  | some s => read s
  | none => some default

/-- A bundle of hooks. -/
def hooks? (s : Setting) : Option Hooks := do
  let e ← s.fields? ["pre", "pre_params", "post", "post_params"]
  pure {
    pre := ← field? e "pre" [] (list? text?)
    preParams := ← field? e "pre_params" {} (dict? scalar?)
    post := ← field? e "post" [] (list? text?)
    postParams := ← field? e "post_params" {} (dict? scalar?) }

/-- The section of the program itself. -/
def application? (s : Setting) : Option Application := do
  let d : Application := {}
  let e ← s.fields? ["name", "log_level", "log_format"]
  pure {
    name := ← field? e "name" d.name text?
    logLevel := ← field? e "log_level" d.logLevel text?
    logFormat := ← field? e "log_format" d.logFormat text? }

/-- The section of the compilation. -/
def compilation? (s : Setting) : Option Compilation := do
  let d : Compilation := {}
  let e ← s.fields? ["max_steps", "iteration_ids"]
  pure {
    maxSteps := ← field? e "max_steps" d.maxSteps count?
    ids := ← field? e "iteration_ids" d.ids (word? IdPolicy.words) }

/-- The section of reading. -/
def reading? (s : Setting) : Option Reading := do
  let d : Reading := {}
  let e ← s.fields? ["top_block_order"]
  pure { order := ← field? e "top_block_order" d.order (word? TopOrder.words) }

/-- All settings. -/
def settings? (s : Setting) : Option Settings := do
  let e ← s.fields? ["application", "compiler", "workspace", "hooks"]
  pure {
    application := ← field? e "application" {} application?
    compilation := ← field? e "compiler" {} compilation?
    reading := ← field? e "workspace" {} reading?
    hooks := ← field? e "hooks" {} (dict? hooks?) }

end Setting

end BlockSteps
