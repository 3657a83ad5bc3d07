/-!
# The command line

What the program is asked to do, read off the words of its command line.

A command is `compile` or `check`, with a workspace file.  Options may stand anywhere behind the
command, and `--config` also before it; behind it counts more.  The value of an option is the next
word or follows an equals sign, and a word that begins with a dash is no value.  Behind `--` every
word is a file.  Whatever is given twice, missing, unknown or out of place makes the whole command
line wrong.

**Asking for help** ends the reading: what is wrong behind it does not count, what is wrong before
it does.
-/

namespace BlockSteps.CommandLine

/-- The choices that only `compile` has. -/
structure CompileFlags where
  /-- Where the document is written, if not to the standard output. -/
  output : Option String := none
  /-- Whether ids of copied steps carry their iteration path, whatever the settings say. -/
  indexedIds : Bool := false
  /-- The greatest number of steps, over that of the settings. -/
  maxSteps : Option Nat := none
  deriving Repr, DecidableEq

/-- What is to be done with the workspace. -/
inductive Command where
  /-- Write its document. -/
  | compile (flags : CompileFlags)
  /-- Say how many steps it has. -/
  | check
  deriving Repr, DecidableEq

/-- What the program is asked to do. -/
structure Invocation where
  /-- The settings file, if not the usual one. -/
  config : Option String
  /-- The workspace file. -/
  workspace : String
  /-- What is to be done with it. -/
  command : Command
  deriving Repr, DecidableEq

/-- Why there is nothing to do. -/
inductive Usage where
  /-- The command line is wrong. -/
  | wrong
  /-- Help is asked for. -/
  | help
  deriving Repr, DecidableEq

/-! ## Words -/

/-- A word of the command line by its form. -/
inductive Word where
  /-- An option by its long name, perhaps with its value. -/
  | long (name : String) (value : Option String)
  /-- An option by its letter, perhaps with its value. -/
  | short (letter : Char) (value : Option String)
  /-- Two dashes. -/
  | separator
  /-- Anything else. -/
  | plain (s : String)
  deriving Repr, DecidableEq

/-- The value that follows the letter of an option in the same word, if there is one. -/
def attachedValue : List Char → Option String
  | [] => none
  | '=' :: rest => some (String.ofList rest)
  | cs => some (String.ofList cs)

/-- The form of a word. -/
def Word.of (s : String) : Word :=
  match s.toList with
  | ['-', '-'] => .separator
  | '-' :: '-' :: rest =>
    let (name, value) := rest.span fun c => c ≠ '='
    .long (String.ofList name) (match value with
      | [] => none
      | _ :: v => some (String.ofList v))
  | '-' :: letter :: rest => .short letter (attachedValue rest)
  | _ => .plain s

/-- Whether a word can be the value of an option before it. -/
def canBeValue (s : String) : Bool := Word.of s == .plain s

/-! ## What was given -/

/-- What the words behind a command have given so far. -/
structure Given where
  /-- The settings file. -/
  config : Option String := none
  /-- The workspace file. -/
  workspace : Option String := none
  /-- The choices of `compile`. -/
  flags : CompileFlags := {}
  deriving Repr, DecidableEq

/-- The options that have a value. -/
inductive ValueOption where
  /-- The settings file. -/
  | config
  /-- Where the document is written. -/
  | output
  /-- The greatest number of steps. -/
  | maxSteps
  deriving Repr, DecidableEq

/-- The value of an option where none was given before.  A path must not be empty. -/
def newPath (before : Option String) (value : String) : Except Usage (Option String) :=
  if before.isSome || value.isEmpty then .error .wrong else .ok (some value)

/-- A number of steps: digits, perhaps behind a plus sign, below `2 ^ 64`. -/
def steps? (value : String) : Option Nat :=
  let digits := match value.toList with
    | '+' :: rest => rest
    | cs => cs
  if digits.isEmpty || !digits.all Char.isDigit then none
  else
    let n := digits.foldl (fun n c => 10 * n + (c.toNat - '0'.toNat)) 0
    if n < UInt64.size then some n else none

/-- Take the value of an option. -/
def Given.set (g : Given) (o : ValueOption) (value : String) : Except Usage Given :=
  match o with
  | .config => do
    let v ← newPath g.config value
    pure { g with config := v }
  | .output => do
    let v ← newPath g.flags.output value
    pure { g with flags := { g.flags with output := v } }
  | .maxSteps =>
    match g.flags.maxSteps, steps? value with
    | none, some n => .ok { g with flags := { g.flags with maxSteps := some n } }
    | _, _ => .error .wrong

/-- Take the workspace file. -/
def Given.setWorkspace (g : Given) (value : String) : Except Usage Given := do
  let v ← newPath g.workspace value
  pure { g with workspace := v }

/-- Take the option that has no value. -/
def Given.setIndexedIds (g : Given) : Except Usage Given :=
  if g.flags.indexedIds then .error .wrong
  else .ok { g with flags := { g.flags with indexedIds := true } }

/-- The options with a value by their long names; only `compile` has more than the first. -/
def longOption? (compiling : Bool) (name : String) : Option ValueOption :=
  if name = "config" then some .config
  else if compiling && name == "output" then some .output
  else if compiling && name == "max-steps" then some .maxSteps
  else none

/-- The options with a value by their letters. -/
def shortOption? (compiling : Bool) (letter : Char) : Option ValueOption :=
  if compiling && letter == 'o' then some .output else none

/-! ## Reading -/

/-- What the option for help asks for.  It has no value. -/
def helpWith (value : Option String) : Usage := if value.isNone then .help else .wrong

/-- What the command for help asks for: help on all, or on one command. -/
def helpOn : List String → Usage
  | [] => .help
  | [command] => if command ∈ ["compile", "check", "help"] then .help else .wrong
  | _ => .wrong

/-- Take the words behind `--`. -/
def takeFiles : List String → Given → Except Usage Given
  | [], g => .ok g
  | s :: rest, g => do
    let g ← g.setWorkspace s
    takeFiles rest g

/-- Take the words behind a command. -/
def takeWords (compiling : Bool) : List String → Given → Except Usage Given
  | [], g => .ok g
  | s :: rest, g =>
    let takeOption (o : Option ValueOption) (value : Option String) : Except Usage Given :=
      match o, value, rest with
      | none, _, _ => .error .wrong
      | some o, some v, rest => do
        let g ← g.set o v
        takeWords compiling rest g
      | some o, none, v :: rest =>
        if canBeValue v then do
          let g ← g.set o v
          takeWords compiling rest g
        else .error .wrong
      | some _, none, [] => .error .wrong
    match Word.of s with
    | .separator => takeFiles rest g
    | .plain s => do
      let g ← g.setWorkspace s
      takeWords compiling rest g
    | .long name value =>
      if name = "help" then .error (helpWith value)
      else if compiling && name == "indexed-ids" && value.isNone then do
        let g ← g.setIndexedIds
        takeWords compiling rest g
      else takeOption (longOption? compiling name) value
    | .short letter value =>
      if letter = 'h' then .error .help else takeOption (shortOption? compiling letter) value

/-- Take a command with the words behind it, and the settings file given before it. -/
def takeCommand (before : Option String) (compiling : Bool) (rest : List String) :
    Except Usage Invocation := do
  let g ← takeWords compiling rest {}
  match g.workspace with
  | none => throw .wrong
  | some workspace =>
    pure ⟨g.config.or before, workspace, if compiling then .compile g.flags else .check⟩

/-- Take all words, knowing the settings file given before. -/
def takeAll (before : Option String) : List String → Except Usage Invocation
  | [] => .error .wrong
  | s :: rest =>
    match Word.of s with
    | .plain command =>
      if command = "compile" then takeCommand before true rest
      else if command = "check" then takeCommand before false rest
      else if command = "help" then .error (helpOn rest)
      else .error .wrong
    | .long name value =>
      if name = "help" then .error (helpWith value)
      else if name = "config" then
        match value, rest with
        | some v, rest => do
          let before ← newPath before v
          takeAll before rest
        | none, v :: rest =>
          if canBeValue v then do
            let before ← newPath before v
            takeAll before rest
          else .error .wrong
        | none, [] => .error .wrong
      else .error .wrong
    | .short letter _ => .error (if letter = 'h' then .help else .wrong)
    | .separator => .error .wrong

/-- What the words of a command line ask for. -/
def Invocation.ofArgs (args : List String) : Except Usage Invocation := takeAll none args

end BlockSteps.CommandLine
