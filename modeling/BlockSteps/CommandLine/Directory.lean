import BlockSteps.CommandLine.Run

/-!
# Runs in a directory

`CommandLine.run` is told what stands at the paths that it needs, and says what is to be written.
Here the files are data too: a `Directory` holds those around the place where the run begins, each
under the names that lead to it.  What a command line does to a directory is then a function,
`Directory.perform`, and nothing need be opened to say what it is.

**Paths are followed name by name.**  A name leads on only from a directory.  This holds for the
names that lead nowhere else too, the empty one behind a last slash and the point, so a path with a
slash behind the name of a file leads to nothing.  Two points lead back, and from where the run
begins they lead to directories of which no more is known than that they are there.

**What lies elsewhere** is not part of the directory, but for the devices: they say nothing, and
what is written to them is not kept.
-/

namespace BlockSteps.CommandLine

/-- The files around the place where a run begins, under the names that lead to them. -/
structure Directory where
  /-- The files, each with its content. -/
  files : List (List String × String)
  deriving Repr, DecidableEq

/-- Where a path leads. -/
inductive Place where
  /-- A directory. -/
  | directory (names : List String)
  /-- A file. -/
  | file (names : List String)
  /-- A device. -/
  | device (names : List String)
  /-- Nothing yet, but a directory in which something can be. -/
  | free (names : List String)
  /-- Nothing, and nothing can be there. -/
  | nowhere
  deriving Repr, DecidableEq

/-- The name of the directory that holds all others. -/
def rootName : String := "/"

/-- The device to which the standard output of a run goes. -/
def outputDevice : List String := [rootName, "dev", "stdout"]

/-- The devices. -/
def devices : List (List String) :=
  [[rootName, "dev", "null"], outputDevice, [rootName, "dev", "stderr"]]

/-- The greatest number of bytes in a name. -/
def longestName : Nat := 255

/-- The greatest number of bytes in a path. -/
def longestPath : Nat := 4095

namespace Directory

/-- What stands at the end of a way. -/
def contentAt? (d : Directory) (names : List String) : Option String :=
  (d.files.find? fun f => f.1 == names).map Prod.snd

/-- Whether a way leads to a directory: it only leads back, it is the beginning of all ways, or
something lies behind it. -/
def isDirectory (d : Directory) (names : List String) : Bool :=
  names.all (· == "..") || names == [rootName] ||
    (d.files.map Prod.fst ++ devices).any fun way =>
      decide (names.length < way.length) && way.take names.length == names

/-- The way back from a directory.  No way leads back from the beginning of all ways. -/
def back (names : List String) : List String :=
  if names == [rootName] then names
  else if names.all (· == "..") then names ++ [".."]
  else names.dropLast

/-- What stands at the end of a way whose directories are there. -/
def look (d : Directory) (names : List String) : Place :=
  if (d.contentAt? names).isSome then .file names
  else if devices.contains names then .device names
  else if d.isDirectory names then .directory names
  else .free names

/-- Follow one name of a path. -/
def follow (d : Directory) (here : Place) (name : String) : Place :=
  match here with
  | .directory names =>
    if name = "" ∨ name = "." then .directory names
    else if name = ".." then .directory (back names)
    else if longestName < name.utf8ByteSize then .nowhere
    else d.look (names ++ [name])
  | _ => .nowhere

/-- The names of a path: the parts of a text between slashes. -/
def namesOf : List Char → List (List Char)
  | [] => [[]]
  | c :: rest =>
    match namesOf rest with
    | [] => [[c]]
    | name :: names => if c = '/' then [] :: name :: names else (c :: name) :: names

/-- Where a path leads.  A path that begins with a slash begins at the beginning of all ways, and
one without characters leads nowhere. -/
def find (d : Directory) (path : String) : Place :=
  let names := (namesOf path.toList).map String.ofList
  if longestPath < path.utf8ByteSize then .nowhere
  else
    match path.toList with
    | [] => .nowhere
    | '/' :: _ => names.foldl d.follow (.directory [rootName])
    | _ => names.foldl d.follow (.directory [])

/-- The directory of files under their paths, of which each leads forward only. -/
def ofFiles (files : List (String × String)) : Directory where
  files := files.map fun f =>
    (((namesOf f.1.toList).map String.ofList).filter fun name => name ≠ "" && name ≠ ".", f.2)

/-- What can be read at a path.  A device has nothing to say. -/
def read? (d : Directory) (path : String) : Option String :=
  match d.find path with
  | .file names => d.contentAt? names
  | .device _ => some ""
  | _ => none

/-- What stands at the path of the settings. -/
def configAt (d : Directory) (path : String) : ConfigFile :=
  match d.find path with
  | .file names => .bytes ((d.contentAt? names).getD "").toUTF8
  | .directory _ => .directory
  | .device _ => .directory
  | .free _ => .absent
  | .nowhere => .absent

/-- The directory after a file was written, if it could be. -/
def write? (d : Directory) (path content : String) : Option Directory :=
  let put (names : List String) : Directory :=
    ⟨(names, content) :: d.files.filter fun f => f.1 != names⟩
  match d.find path with
  | .file names => some (put names)
  | .free names => some (put names)
  | .device _ => some d
  | .directory _ => none
  | .nowhere => none

/-- What a run in a directory leaves behind. -/
structure Report where
  /-- The status. -/
  code : UInt32
  /-- The text on the standard output. -/
  output : String
  /-- The line that says what kept the run from its end. -/
  errorLine : Option String
  /-- The directory after the run. -/
  directory : Directory

/-- How a run comes out in a directory: its file is written first. -/
def settle (d : Directory) (o : Outcome) : Report :=
  match o.file with
  | none => ⟨o.code, o.output, o.errorLine, d⟩
  | some (path, content) =>
    let after := d.write? path content
    let o := o.afterWriting after.isSome
    let shown := if d.find path == .device outputDevice then content else ""
    ⟨o.code, o.output ++ shown, o.errorLine, after.getD d⟩

/-- Do in a directory what a command line asks for. -/
def perform (d : Directory) (args : List String) (environment : List (String × String)) : Report :=
  match Invocation.ofArgs args with
  | .error u => ⟨u.code, "", none, d⟩
  | .ok inv =>
    d.settle (run inv ⟨d.configAt (inv.config.getD defaultConfig),
      (d.read? inv.workspace).map String.toUTF8, environment⟩)

end Directory

end BlockSteps.CommandLine
