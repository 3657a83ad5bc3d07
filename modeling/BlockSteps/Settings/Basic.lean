import BlockSteps.Compile.Program
import BlockSteps.Settings.Logging

/-!
# Settings

The settings of the program in four sections: how it presents itself, what a compilation is told,
how a workspace is read, and the hook table.  Every part that is left out has a default, so nothing
at all is a usable configuration too.

Settings are **accepted** by `Settings.validate` before they are used.  What it asks for is what
later stages rely on: the words for level and form mean something, there is room for at least one
step, and no hook function is without a name.
-/

namespace BlockSteps

/-- How the program presents itself and reports. -/
structure Application where
  /-- The name. -/
  name : String := "Workflow Compiler"
  /-- The least level of reports, as a word. -/
  logLevel : String := "info"
  /-- The form of reports, as a word. -/
  logFormat : String := "pretty"
  deriving Repr, DecidableEq

/-- What a compilation is told. -/
structure Compilation where
  /-- The greatest number of steps. -/
  maxSteps : Nat := defaultMaxSteps
  /-- How copied steps are identified. -/
  ids : IdPolicy := .reuse
  deriving Repr, DecidableEq

/-- How a workspace is read. -/
structure Reading where
  /-- In which order the chains are taken. -/
  order : TopOrder := .position
  deriving Repr, DecidableEq

/-- The settings of the program. -/
structure Settings where
  /-- How the program presents itself and reports. -/
  application : Application := {}
  /-- What a compilation is told. -/
  compilation : Compilation := {}
  /-- How a workspace is read. -/
  reading : Reading := {}
  /-- What is called around each main function. -/
  hooks : HookTable := {}
  deriving Repr, DecidableEq

instance : Inhabited Settings := ⟨{}⟩

/-! ## The words of the choices -/

/-- The ways to identify copied steps, by word. -/
def IdPolicy.words : List (String × IdPolicy) := [("reuse", .reuse), ("indexed", .indexed)]

/-- The word for a way to identify copied steps. -/
def IdPolicy.word : IdPolicy → String
  | .reuse => "reuse"
  | .indexed => "indexed"

/-- The orders of chains, by word. -/
def TopOrder.words : List (String × TopOrder) :=
  [("position", .position), ("as_listed", .asListed)]

/-- The word for an order of chains. -/
def TopOrder.word : TopOrder → String
  | .position => "position"
  | .asListed => "as_listed"

namespace Settings

/-! ## Accepting -/

/-- The words that are accepted for the level. -/
def levelWords : List String := ["trace", "debug", "info", "warn", "error"]

/-- The words that are accepted for the form. -/
def formatWords : List String := ["pretty", "compact", "json"]

/-- Why settings are refused. -/
inductive Refusal where
  /-- The word for the level means nothing. -/
  | noLogLevel (word : String)
  /-- The word for the form means nothing. -/
  | noLogFormat (word : String)
  /-- No step is allowed. -/
  | noSteps
  /-- A bundle of hooks goes with a function without a name. -/
  | unnamedFunction
  /-- A hook of a bundle has no name. -/
  | unnamedHook (name : String) (function : String)
  deriving Repr, DecidableEq

/-- The reason in words. -/
def Refusal.message : Refusal → String
  | .noLogLevel word =>
    "Invalid log_level '" ++ word ++ "'. Must be one of: " ++
      ", ".intercalate levelWords
  | .noLogFormat word =>
    "Invalid log_format '" ++ word ++ "'. Must be one of: " ++
      ", ".intercalate formatWords
  | .noSteps => "Invalid max_steps 0. Must be at least 1"
  | .unnamedFunction => "Hook table key must not be empty"
  | .unnamedHook name function => "Empty hook name '" ++ name ++ "' for '" ++ function ++ "'"

/-- Accept the bundles of a hook table, in the order of their functions. -/
def validateHooks : List (String × Hooks) → Except Refusal Unit
  | [] => .ok ()
  | (function, h) :: rest =>
    if Text.isBlankText function then .error .unnamedFunction
    else
      match (h.pre ++ h.post).find? Text.isBlankText with
      | some name => .error (.unnamedHook name function)
      | none => validateHooks rest

/-- Accept settings, or say what is the first thing wrong with them. -/
def validate (s : Settings) : Except Refusal Unit := do
  if !levelWords.contains (Text.lowered s.application.logLevel) then
    throw (.noLogLevel s.application.logLevel)
  if !formatWords.contains (Text.lowered s.application.logFormat) then
    throw (.noLogFormat s.application.logFormat)
  if s.compilation.maxSteps = 0 then throw .noSteps
  validateHooks s.hooks.entries

/-! ## What the settings say -/

/-- The choices of a compilation. -/
def options (s : Settings) : Options where
  maxSteps := s.compilation.maxSteps
  ids := s.compilation.ids
  hooks := s.hooks

/-- Which reports are shown, and how. -/
def logging (s : Settings) : Except LoggingError Logging := do
  let level ← Level.ofText s.application.logLevel
  let format ← LogFormat.ofText s.application.logFormat
  pure ⟨level, format⟩

/-! ## Settings as JSON -/

/-- The settings as JSON. -/
def json (s : Settings) : Json :=
  .object [
    ("application", .object [("name", .text s.application.name),
      ("log_level", .text s.application.logLevel), ("log_format", .text s.application.logFormat)]),
    ("compiler", .object [("max_steps", .integer s.compilation.maxSteps),
      ("iteration_ids", .text s.compilation.ids.word)]),
    ("workspace", .object [("top_block_order", .text s.reading.order.word)]),
    ("hooks", Hooks.tableJson s.hooks)]

variable [Json.Rounding]

/-- How the section of the program itself is read. -/
def applicationRecord : Json.Record Application where
  name := "ApplicationConfig"
  fields := [
    .of "name" false Json.readText fun v a => { a with name := v },
    .of "log_level" false Json.readText fun v a => { a with logLevel := v },
    .of "log_format" false Json.readText fun v a => { a with logFormat := v }]
  blank := {}

/-- How the section of the compilation is read. -/
def compilationRecord : Json.Record Compilation where
  name := "CompilerSection"
  fields := [
    .of "max_steps" false Json.readCount fun v c => { c with maxSteps := v },
    .of "iteration_ids" false (Json.readWord IdPolicy.words) fun v c => { c with ids := v }]
  blank := {}

/-- How the section of reading is read. -/
def readingRecord : Json.Record Reading where
  name := "WorkspaceSection"
  fields := [.of "top_block_order" false (Json.readWord TopOrder.words) fun v _ => ⟨v⟩]
  blank := {}

/-- How settings are read: whatever is left out has its default. -/
def record : Json.Record Settings where
  name := "CompilerConfig"
  fields := [
    .of "application" false applicationRecord.read fun v s => { s with application := v },
    .of "compiler" false compilationRecord.read fun v s => { s with compilation := v },
    .of "workspace" false readingRecord.read fun v s => { s with reading := v },
    .of "hooks" false (Json.readDict Hooks.record.read) fun v s => { s with hooks := v }]
  blank := {}

/-- Read settings from JSON. -/
def ofText (text : String) : Except Json.ReadError Settings := Json.readFrom record.read text

end Settings

end BlockSteps
