import BlockSteps.CommandLine.Run

/-!
# The program

Reads the two files and the environment, lets `CommandLine.run` decide, and writes what it decided.
-/

namespace BlockSteps

open CommandLine

/-- The bytes of a file, none if it cannot be read. -/
def readBytes? (path : String) : IO (Option ByteArray) := do
  try
    pure (some (← IO.FS.readBinFile path))
  catch _ => pure none

/-- The code of the system for a path that leads on from what is no directory. -/
def noDirectoryCode : UInt32 := 20

/-- What stands at a path.  Nothing stands at one that cannot be followed to its end. -/
def configAt (path : String) : IO ConfigFile := do
  try
    pure (.bytes (← IO.FS.readBinFile path))
  catch
    | .noFileOrDirectory .. => pure .absent
    | .invalidArgument .. => pure .absent
    | .inappropriateType _ code _ => pure (if code = noDirectoryCode then .absent else .directory)
    | _ => pure .directory

/-- The usual settings, sought in the working directory and in those above it. -/
def usualConfig : IO ConfigFile := do
  let levels := (← IO.currentDir).toString.toList.count '/'
  let mut up := ""
  for _ in List.range (levels + 1) do
    match ← configAt (up ++ defaultConfig) with
    | .bytes b => return .bytes b
    | _ => up := "../" ++ up
  return .absent

/-- The variables of the environment of this process. -/
def environment : IO (List (String × String)) := do
  let some bytes ← readBytes? "/proc/self/environ" | pure []
  let entries := (bytes.toList.splitOnP (· == 0)).filterMap fun entry =>
    String.fromUTF8? (ByteArray.mk entry.toArray)
  pure (entries.map fun entry =>
    let (name, value) := entry.toList.span fun c => c ≠ '='
    (String.ofList name, String.ofList (value.drop 1)))

/-- Write a file and say whether it could be written. -/
def writeFile (path content : String) : IO Bool := do
  try
    IO.FS.writeFile path content
    pure true
  catch _ => pure false

end BlockSteps

open BlockSteps BlockSteps.CommandLine in
/-- Run the program. -/
def main (args : List String) : IO UInt32 := do
  match Invocation.ofArgs args with
  | .error u =>
    if u = .help then IO.print usageText else IO.eprint usageText
    pure u.code
  | .ok inv =>
    let config ← match inv.config with
      | some path => configAt path
      | none => usualConfig
    let o := run inv ⟨config, ← readBytes? inv.workspace, ← environment⟩
    let o ← match o.file with
      | some (path, content) => pure (o.afterWriting (← writeFile path content))
      | none => pure o
    IO.print o.output
    if let some text := o.errorText then IO.eprintln text
    pure o.code
