import Kelp.Cli.Arguments
import Kelp.Cli.Event
import Kelp.Cli.FileSystem

/-!
# Runs

What a run of the command line does.

- `Arguments.build` makes the artifact of a source text, and `Arguments.events` is the log of that.
- `RunError.report` is the final text of a run that failed.
- `Arguments.runIn` compiles a file in any `World`: the source is read first, then compiled, and
  only then is the output written.
- `run` is a whole run of the command line on a file system.
-/

namespace Kelp.Cli

/-! ## Artifacts -/

/-- The bytes of the artifact that is asked for. -/
def Arguments.build (a : Arguments) (source : String) : Except Failure Bytes :=
  match a.artifact with
  | .loader => (compileToLoader source a.options).map Bytes.ofString
  -- the text is made step by step, so its failures carry no stage
  | .text => do
    let m ← unstaged (buildModule source)
    (unstaged (emitText m a.options)).map Bytes.ofString
  | .binary => compileToBinary source a.options

/-- The events of generating and completing a loader. -/
def loaderEvents (m : Module) (options : Options) (binary : Bytes) : List Event :=
  let loader := Loader.text binary m options.importModule options.format
  (Loader.unnamed m options.format).map (fun f => .unnamedExport f.name) ++
    [.loaderGenerated options.format binary.length m.hosts.length,
      .complete binary.length loader.utf8ByteSize]

/-- The events from the emitted text on. -/
def textEvents (artifact : Artifact) (m : Module) (options : Options) (text : String) :
    List Event :=
  .emitted text.utf8ByteSize ::
    match artifact with
    | .text => []
    | artifact =>
      match Wat.assemble options.validate text with
      | .error _ => []
      | .ok binary =>
        .encoded binary.length options.validate ::
          if artifact = .loader then loaderEvents m options binary else []

/-- The events of making the artifact, up to the stage that fails. -/
def Arguments.events (a : Arguments) (source : String) : List Event :=
  match buildModule source with
  | .error _ => []
  | .ok m =>
    .built m.structs.length m.functions.length m.hosts.length ::
      (m.entry?.map fun f => Event.entryFound f.name).toList ++
      match emitText m a.options with
      | .error _ => []
      | .ok text => textEvents a.artifact m a.options text

/-! ## Errors -/

/-- Why a run fails. -/
inductive RunError where
  /-- The source cannot be read. -/
  | read (path : String) (error : PathError)
  /-- The source is not a text. -/
  | notText (path : String)
  /-- The artifact cannot be made. -/
  | compile (failure : Failure)
  /-- The output cannot be written. -/
  | write (path : String) (error : PathError)
deriving DecidableEq, Repr, Inhabited

namespace RunError

/-- What failed. -/
def headline : RunError → String
  | .read path _ => "failed to read " ++ path
  | .notText path => "failed to read " ++ path
  | .compile _ => "compilation failed"
  | .write path _ => "failed to write " ++ path

/-- Why it failed, from the most general cause to its root. -/
def causes : RunError → List String
  | .read _ error => [error.message]
  | .notText _ => ["stream did not contain valid UTF-8"]
  | .compile failure => failure.messages
  | .write _ error => [error.message]

end RunError

/-- A text with its further lines indented. -/
def indent (margin : String) (text : String) : String :=
  ("\n" ++ margin).intercalate (text.splitOn "\n")

/-- The list of causes. A single cause is not numbered. -/
def causeLines : List String → List String
  | [cause] => ["    " ++ indent "    " cause]
  | causes => causes.zipIdx.map fun (cause, i) => s!"    {i}: " ++ indent "       " cause

/-- The final text of a run that failed. -/
def RunError.report (e : RunError) : String :=
  "Error: " ++ e.headline ++ "\n\nCaused by:\n" ++
    String.join ((causeLines e.causes).map (· ++ "\n"))

/-! ## Runs -/

/-- What a run needs of the world around it, with effects in `μ`: files that are read and written by
their paths, and a log. -/
structure World (μ : Type → Type) where
  read : String → μ (Except PathError Bytes)
  write : String → Bytes → μ (Except PathError Unit)
  log : List Event → μ Unit

/-- The source text in what was read from a path. -/
def sourceText (path : String) : Except PathError Bytes → Except RunError String
  | .error error => .error (.read path error)
  | .ok content =>
    match content.toString? with
    | none => .error (.notText path)
    | some source => .ok source

/-- Compile a source file to an output file (§7): the whole artifact is made before the output path
is touched, so that a run that fails leaves no part of it. -/
def Arguments.runIn {μ : Type → Type} [Monad μ] (world : World μ) (a : Arguments) :
    μ (Option RunError) := do
  world.log [.compiling a.source]
  match sourceText a.source (← world.read a.source) with
  | .error error => return some error
  | .ok source =>
    world.log (a.events source)
    match a.build source with
    | .error failure => return some (.compile failure)
    | .ok artifact =>
      match ← world.write a.outputPath artifact with
      | .error error => return some (.write a.outputPath error)
      | .ok () =>
        world.log [.wrote a.outputPath]
        return none

/-- The exit code of a run that may have failed. -/
def exitCode (error : Option RunError) : Nat :=
  if error.isSome then 1 else 0

/-! ## Runs on file systems -/

/-- A file system in the course of a run, with what was logged so far. -/
structure Session where
  files : FileSystem
  events : List Event
deriving DecidableEq, Repr, Inhabited

/-- The world of a session. -/
def Session.world : World (StateM Session) where
  read path := do return (← get).files.read path
  write path content := do
    match (← get).files.write path content with
    | .error error => return .error error
    | .ok files =>
      modify fun s => { s with files }
      return .ok ()
  log events := modify fun s => { s with events := s.events ++ events }

/-- What is left after a run. -/
structure Outcome where
  exitCode : Nat
  events : List Event
  error : Option RunError
  files : FileSystem
deriving DecidableEq, Repr, Inhabited

/-- A source file as text. -/
def FileSystem.readText (fs : FileSystem) (path : String) : Except RunError String :=
  sourceText path (fs.read path)

/-- Compile a source file to an output file of a file system. -/
def Arguments.run (a : Arguments) (fs : FileSystem) : Outcome :=
  let (error, session) := ((a.runIn Session.world).run ⟨fs, []⟩).run
  ⟨exitCode error, session.events, error, session.files⟩

/-- The events that a run shows. -/
def Arguments.shown (a : Arguments) (events : List Event) : List Event :=
  events.filter (Event.isShown a.verbose)

/-- Run the command line on a file system. A wrong use of it exits with 2, a failure with 1. -/
def run (arguments : List String) (fs : FileSystem) : Outcome :=
  match Request.parse? arguments with
  | none => ⟨2, [], none, fs⟩
  | some .help => ⟨0, [], none, fs⟩
  | some .version => ⟨0, [], none, fs⟩
  | some (.compile a) =>
    let outcome := a.run fs
    { outcome with events := a.shown outcome.events }

end Kelp.Cli
