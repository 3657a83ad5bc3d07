import BlockSteps.Settings.Environment
import BlockSteps.Settings.Toml.Parser

/-!
# Loading settings

The settings of a run are those of a file, if it exists, with those of the environment over them.
They are accepted before anything is done with them.
-/

namespace BlockSteps.Settings

/-- Why settings could not be loaded. -/
inductive LoadError where
  /-- The file is not TOML, or a value is of the wrong kind. -/
  | unreadable
  /-- The settings are refused. -/
  | refused (r : Refusal)
  deriving Repr, DecidableEq

/-- The reason in words; nothing is said about unreadable settings. -/
def LoadError.message? : LoadError → Option String
  | .unreadable => none
  | .refused r => some ("Configuration validation error: " ++ r.message)

/-- The settings of a file, none if it does not exist, under those of the environment. -/
def load (file : Option String) (environment : List (String × String)) :
    Except LoadError Settings :=
  let lower : Option Setting := match file with
    | none => some (.table [])
    | some text => Toml.ofText? text
  match lower.bind fun s => ((Environment.layer environment).laidOver s).settings? with
  | none => .error .unreadable
  | some s =>
    match s.validate with
    | .error r => .error (.refused r)
    | .ok () => .ok s

end BlockSteps.Settings
