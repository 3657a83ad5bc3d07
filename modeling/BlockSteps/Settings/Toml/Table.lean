import BlockSteps.Settings.Tree

/-!
# Building tables from lines

A TOML text defines its tables piece by piece: a header opens a table, a dotted key reaches into
one, and a line puts one value in place.  The format allows each table to be defined **once**.
Whether a second mention is a second definition depends on how the table came to be, so every table
carries its `Origin` until the text ends.

* A table that only lies on the way to another is *implied*; one header may still define it.
* A table that a dotted key made is *dotted*; other dotted keys may add to it, no header may.
* A table with a header of its own is *defined*; neither a header nor a dotted key may reach it
  again, though headers of tables below it may pass through.
-/

namespace BlockSteps.Toml

/-- How a table came to be. -/
inductive Origin where
  /-- It lies on the way to a table with a header. -/
  | implied
  /-- A dotted key made it. -/
  | dotted
  /-- It has a header of its own, or is the table of the whole text. -/
  | defined
  deriving Repr, DecidableEq

/-- What stands under a name while the text is being read. -/
inductive Node where
  /-- A value; nothing is added to it any more. -/
  | value (s : Setting)
  /-- A table. -/
  | table (origin : Origin) (entries : List (String × Node))
  /-- The tables of a list that headers extend, the last one first. -/
  | tables (items : List (List (String × Node)))

/-- The entries of a table while the text is being read. -/
abbrev Entries := List (String × Node)

/-- A change to a table, which may not be allowed. -/
abbrev Change := Origin → Entries → Option (Origin × Entries)

/-- Follow a way through tables, making those that are missing, and change the one at its end.  In
a list of tables the way leads through the last. -/
def descend (dotted : Bool) (change : Change) : List String → Change
  | [], origin, entries => change origin entries
  | name :: rest, origin, entries =>
    match Dict.find? name entries with
    | none => do
      let (o, es) ← descend dotted change rest (if dotted then .dotted else .implied) []
      some (origin, Dict.place name (.table o es) entries)
    | some (.value _) => none
    | some (.table o es) =>
      if dotted && o == .defined then none
      else do
        let (o, es) ← descend dotted change rest o es
        some (origin, Dict.place name (.table o es) entries)
    | some (.tables []) => none
    | some (.tables (last :: before)) => do
      let (_, es) ← descend dotted change rest .defined last
      some (origin, Dict.place name (.tables (es :: before)) entries)

/-- Put a value under a dotted key: the names before the last lead through dotted tables, and the
last must be new. -/
def putValue (path : List String) (name : String) (s : Setting) : Change :=
  descend true (fun origin entries =>
    if (origin == .dotted) == path.isEmpty then none
    else
      match Dict.find? name entries with
      | some _ => none
      | none => some (origin, Dict.place name (.value s) entries)) path

/-- Define a table by a header. -/
def defineTable (path : List String) (name : String) : Change :=
  descend false (fun origin entries =>
    match Dict.find? name entries with
    | none => some (origin, Dict.place name (.table .defined []) entries)
    | some (.table .implied es) => some (origin, Dict.place name (.table .defined es) entries)
    | some _ => none) path

/-- Add a table to a list of tables by a header. -/
def extendTables (path : List String) (name : String) : Change :=
  descend false (fun origin entries =>
    match Dict.find? name entries with
    | none => some (origin, Dict.place name (.tables [[]]) entries)
    | some (.tables items) => some (origin, Dict.place name (.tables ([] :: items)) entries)
    | some _ => none) path

mutual

/-- What stands under a name when the text has ended. -/
def Node.setting : Node → Setting
  | .value s => s
  | .table _ entries => .table (settingEntries entries)
  | .tables items => .list (settingTables items [])

/-- The entries of a table when the text has ended. -/
def settingEntries : Entries → List (String × Setting)
  | [] => []
  | (name, node) :: rest => (name, node.setting) :: settingEntries rest

/-- The tables of a list when the text has ended, in front of those already taken. -/
def settingTables : List Entries → List Setting → List Setting
  | [], done => done
  | entries :: rest, done => settingTables rest (.table (settingEntries entries) :: done)

end

end BlockSteps.Toml
