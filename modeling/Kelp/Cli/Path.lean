/-!
# Paths

Paths as text, with `/` between their components.
-/

namespace Kelp.Cli.Path

/-- The components of a path. Slashes that follow each other count as one. -/
def components (path : String) : List String :=
  ((path.toList.splitOn '/').filter fun name => name ≠ []).map String.ofList

/-- Whether the path starts at the root of the file system. -/
def isAbsolute (path : String) : Bool :=
  path.toList.head? = some '/'

/-- Whether the path ends with a slash, and so can only name a directory. -/
def isDirectoryOnly (path : String) : Bool :=
  path.toList.getLast? = some '/'

/-- The part of a file name before its last dot. A dot at the very front does not count. -/
def stem (name : List Char) : List Char :=
  match name.reverse.dropWhile (· ≠ '.') with
  | [] => name
  | [_] => name
  | _ :: stem => stem.reverse

/-- The part of a path up to and including its last slash. -/
def parent (path : List Char) : List Char :=
  (path.reverse.dropWhile (· ≠ '/')).reverse

/-- The part of a path after its last slash. -/
def fileName (path : List Char) : List Char :=
  (path.reverse.takeWhile (· ≠ '/')).reverse

/-- The path with the extension of its file name replaced, or added where there is none. A path
without a file name is left as it is. Without their extensions, names such as `..kelp` are the two
dots of a parent directory, which take no extension.

The file name is what stands behind the last slash, so that a path which ends in `/` or `/.` has
none, even if the name before that has an extension. Such a path names a directory and no source can
be read from it. -/
def withExtension (path extension : String) : String :=
  let name := fileName path.toList
  if name = [] ∨ name = ['.'] ∨ name = ['.', '.'] then path
  else if stem name = ['.'] then String.ofList (parent path.toList ++ ['.', '.'])
  else String.ofList (parent path.toList ++ stem name) ++ "." ++ extension

end Kelp.Cli.Path
