import BlockSteps.CommandLine.Invocation
import BlockSteps.Settings.Loading

/-!
# A run of the program

A run depends on the words of the command line, on two files and on the environment, and it comes
out with a status, a text for the standard output, perhaps an error, and perhaps a file to write.
All of that is data here; who performs the run reads the files before and writes the file after.

**Nothing is put out by a run that fails.**  The document exists before any of it is written, and
the settings, the limit, the workspace and the program are refused in this order, each before the
next is looked at.
-/

namespace BlockSteps.CommandLine

/-- Where the settings are, if nothing else is said. -/
def defaultConfig : String := "config/workflow_compiler.toml"

/-- What stands at the path of the settings. -/
inductive ConfigFile where
  /-- Nothing. -/
  | absent
  /-- A directory or a device, which says nothing. -/
  | directory
  /-- A file. -/
  | bytes (b : ByteArray)

/-- What a run depends on besides its command line. -/
structure Surroundings where
  /-- What stands at the path of the settings. -/
  config : ConfigFile
  /-- The bytes of the workspace file, none if it cannot be read. -/
  workspace : Option ByteArray
  /-- The variables of the environment. -/
  environment : List (String × String)

/-- What keeps a run from its end. -/
inductive Refusal where
  /-- The settings file that was given does not exist. -/
  | configNotFound (path : String)
  /-- The settings cannot be loaded; the path is that of the file that was given, if one was. -/
  | configNotLoaded (path : Option String)
  /-- No step is allowed. -/
  | noSteps
  /-- The workspace cannot be loaded. -/
  | workspaceNotLoaded (path : String)
  /-- The workspace cannot be compiled. -/
  | workspaceNotCompiled (path : String)
  /-- The document cannot be written. -/
  | documentNotWritten (path : String)
  deriving Repr, DecidableEq

/-- What keeps a run from its end, in words. -/
def Refusal.message : Refusal → String
  | .configNotFound path => "Config file not found: " ++ path
  | .configNotLoaded none => "Failed to load configuration"
  | .configNotLoaded (some path) => "Failed to load config " ++ path
  | .noSteps => "--max-steps must be at least 1"
  | .workspaceNotLoaded path => "Failed to load workspace " ++ path
  | .workspaceNotCompiled path => "Failed to compile workspace " ++ path
  | .documentNotWritten path => "Failed to write " ++ path

/-- How a run comes out. -/
structure Outcome where
  /-- The status. -/
  code : UInt32 := 0
  /-- The text for the standard output. -/
  output : String := ""
  /-- What kept the run from its end. -/
  refusal : Option Refusal := none
  /-- The path and the content of a file to write. -/
  file : Option (String × String) := none

/-- A run that was kept from its end. -/
def Outcome.refused (r : Refusal) : Outcome := { code := 1, refusal := some r }

/-- What a run says about what kept it from its end. -/
def Outcome.errorText (o : Outcome) : Option String :=
  o.refusal.map fun r => "Error: " ++ r.message

/-- The characters of the first line of a text, without the mark of its end: a line feed, perhaps
behind one carriage return.  A line feed comes behind the whole text. -/
def firstLine (cs : List Char) : List Char :=
  let line := cs.takeWhile (· ≠ '\n')
  if line.getLast? = some '\r' then line.dropLast else line

/-- The first line in which a run says what kept it from its end.  A path can hold the end of a
line. -/
def Outcome.errorLine (o : Outcome) : Option String :=
  o.errorText.map fun s => String.ofList (firstLine s.toList)

/-- How a run comes out whose file could be written or could not. -/
def Outcome.afterWriting (o : Outcome) (written : Bool) : Outcome :=
  match o.file with
  | some (path, _) => if written then o else .refused (.documentNotWritten path)
  | none => o

/-- The settings of a run. -/
def settingsOf (inv : Invocation) (s : Surroundings) : Except Refusal Settings :=
  let load (file : Option String) : Except Refusal Settings :=
    match Settings.load file s.environment with
    | .ok settings => .ok settings
    | .error _ => .error (.configNotLoaded inv.config)
  match s.config with
  | .absent =>
    match inv.config with
    | some path => .error (.configNotFound path)
    | none => load none
  | .directory => load none
  | .bytes b =>
    match String.fromUTF8? b with
    | some text => load (some text)
    | none => .error (.configNotLoaded inv.config)

/-- The choices of a compilation: those of the settings, and those of the command line over them. -/
def optionsOf (settings : Settings) (flags : CompileFlags) : Except Refusal Options :=
  let opts := settings.options
  let opts := if flags.indexedIds then { opts with ids := .indexed } else opts
  match flags.maxSteps with
  | none => .ok opts
  | some n => if n = 0 then .error .noSteps else .ok { opts with maxSteps := n }

/-- The document of the workspace of a run. -/
def documentOf (inv : Invocation) (s : Surroundings) (settings : Settings) (opts : Options) :
    Except Refusal Document :=
  match (Workspace.loadFile settings.reading.order inv.workspace s.workspace).outcome with
  | .error _ => .error (.workspaceNotLoaded inv.workspace)
  | .ok ws =>
    match ws.compile opts with
    | .error _ => .error (.workspaceNotCompiled inv.workspace)
    | .ok d => .ok d

/-- Do what is asked for, or say what keeps it from being done. -/
def perform (inv : Invocation) (s : Surroundings) : Except Refusal Outcome := do
  let settings ← settingsOf inv s
  match inv.command with
  | .check => do
    let d ← documentOf inv s settings settings.options
    pure { output := "✅ " ++ inv.workspace ++ " compiles to " ++
      String.ofList (Decimal.natChars d.length) ++ " step(s)\n" }
  | .compile flags => do
    let opts ← optionsOf settings flags
    let d ← documentOf inv s settings opts
    let text := d.write .indented ++ "\n"
    match flags.output with
    | none => pure { output := text }
    | some path => pure { file := some (path, text) }

/-- The run of a command. -/
def run (inv : Invocation) (s : Surroundings) : Outcome :=
  match perform inv s with
  | .ok o => o
  | .error r => .refused r

/-- The status of a command line that asks for nothing that can be done. -/
def Usage.code : Usage → UInt32
  | .wrong => 2
  | .help => 0

/-- How the program is used. -/
def usageText : String :=
  "Compile block-editor workspaces into microscope step documents\n\n" ++
  "Usage: workflow-compiler [--config <CONFIG>] compile <WORKSPACE>\n" ++
  "           [-o <OUTPUT>] [--indexed-ids] [--max-steps <MAX_STEPS>]\n" ++
  "       workflow-compiler [--config <CONFIG>] check <WORKSPACE>\n"

end BlockSteps.CommandLine
