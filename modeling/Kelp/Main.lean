import Kelp.Cli.Run

/-!
# The command line

Runs on the files of the operating system. What is read, made and written is settled by
`Arguments.runIn`; here it meets the world that it runs in.
-/

namespace Kelp.Cli

/-- How the command line is used. -/
def usage : String :=
  "\n".intercalate [
    "Usage: kelp [OPTIONS] <SOURCE> [OUTPUT]",
    "",
    "Options:",
    "  --emit <loader|wat|wasm>   artifact to write",
    "  --format <commonjs|esm>    module system of the loader",
    "  --import-module <NAME>     module that host functions are imported from",
    "  --no-validate              skip validation of the binary",
    "  -v, --verbose              log details",
    ""]

/-- The path error that an input or output error stands for. The number of an error may come with
its sign changed. -/
def pathError : IO.Error → PathError
  | .inappropriateType _ code _ =>
    if code = 21 ∨ code = -21 then .isADirectory else .notADirectory
  | .permissionDenied .. => .denied
  | .invalidArgument _ code _ => if code = 36 ∨ code = -36 then .tooLong else .notFound
  | _ => .notFound

/-- The world of the operating system. Events go to the standard error output. -/
def systemWorld (a : Arguments) : World IO where
  read path := do
    try return .ok (← IO.FS.readBinFile path).toList
    catch e => return .error (pathError e)
  write path content := do
    try
      IO.FS.writeBinFile path ⟨content.toArray⟩
      return .ok ()
    catch e => return .error (pathError e)
  log events := (a.shown events).forM fun e => IO.eprintln e.line

end Kelp.Cli

open Kelp.Cli in
/-- The program. -/
def main (arguments : List String) : IO UInt32 := do
  match Request.parse? arguments with
  | none => IO.eprint usage; return 2
  | some .help => IO.print usage; return 0
  | some .version => IO.println "kelp 0.1.0"; return 0
  | some (.compile a) =>
    let error ← a.runIn (systemWorld a)
    error.forM fun error => IO.eprint error.report
    return (exitCode error).toUInt32
