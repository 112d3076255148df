import Kelp.Bytes
import Kelp.Cli.Path

/-!
# File systems

A file system as a value: a tree of directories and files with a working directory.
`FileSystem.read` and `FileSystem.write` say what reading and writing a file by its path does.
-/

namespace Kelp.Cli

/-- Why a path cannot be used. -/
inductive PathError where
  | notFound
  | notADirectory
  | isADirectory
  | denied
  | tooLong
deriving DecidableEq, Repr, Inhabited

/-- The text of a path error. -/
def PathError.message : PathError → String
  | .notFound => "No such file or directory (os error 2)"
  | .notADirectory => "Not a directory (os error 20)"
  | .isADirectory => "Is a directory (os error 21)"
  | .denied => "Permission denied (os error 13)"
  | .tooLong => "File name too long (os error 36)"

/-- A place in a file system: the names on the way from the root. -/
abbrev Location : Type := List String

/-- A file system: the working directory, the directories apart from the root, and the files. -/
structure FileSystem where
  current : Location
  directories : List Location
  files : List (Location × Bytes)
deriving DecidableEq, Repr, Inhabited

/-- What can be at a location. -/
inductive Entry where
  | directory
  | file (content : Bytes)
deriving DecidableEq, Repr, Inhabited

namespace FileSystem

/-- What is at a location. -/
def entry? (fs : FileSystem) (l : Location) : Option Entry :=
  if l = [] ∨ l ∈ fs.directories then some .directory
  else (fs.files.lookup l).map .file

/-- The greatest size of a name in a directory. -/
def maxNameSize : Nat := 255

/-- The greatest size of a path. -/
def maxPathSize : Nat := 4095

/-- Look for what is at a location. A name that no directory can hold is an error. -/
def lookUp (fs : FileSystem) (l : Location) : Except PathError (Option Entry) :=
  if l.getLast?.any fun name => maxNameSize < name.utf8ByteSize then .error .tooLong
  else .ok (fs.entry? l)

/-- One step along a path, from a location that must be a directory. -/
def step (fs : FileSystem) (l : Location) (name : String) : Except PathError Location := do
  match ← fs.lookUp l with
  | none => .error .notFound
  | some (.file _) => .error .notADirectory
  | some .directory =>
    if name = "." then .ok l
    else if name = ".." then .ok l.dropLast
    else .ok (l ++ [name])

/-- The location that a path leads to. There need not be anything. -/
def locate (fs : FileSystem) (path : String) : Except PathError Location :=
  if maxPathSize < path.utf8ByteSize then .error .tooLong
  else (Path.components path).foldlM fs.step (if Path.isAbsolute path then [] else fs.current)

/-- The content of the file at a path. -/
def read (fs : FileSystem) (path : String) : Except PathError Bytes := do
  match ← fs.lookUp (← fs.locate path) with
  | none => .error .notFound
  | some .directory => .error .isADirectory
  | some (.file content) =>
    -- `a/` is the directory `a`, even where `a` is a file
    if Path.isDirectoryOnly path then .error .notADirectory else .ok content

/-- The files with the one at `l` replaced or added. -/
def put (l : Location) (content : Bytes) : List (Location × Bytes) → List (Location × Bytes)
  | [] => [(l, content)]
  | f :: rest => if f.1 = l then (l, content) :: rest else f :: put l content rest

/-- The file system with the file at a path replaced or created. -/
def write (fs : FileSystem) (path : String) (content : Bytes) : Except PathError FileSystem := do
  let l ← fs.locate path
  -- a slash at the end is refused before what is there is looked up
  if Path.isDirectoryOnly path then .error .isADirectory
  else if (← fs.lookUp l) = some .directory then .error .isADirectory
  else .ok { fs with files := put l content fs.files }

end FileSystem

end Kelp.Cli
