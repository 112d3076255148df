import Kelp.Cli.Path
import Kelp.Compile

/-!
# Arguments

The arguments of the command line (§6): `SOURCE [OUTPUT]` and the options `--emit`, `--format`,
`--import-module`, `--no-validate` and `--verbose`.

Options and positional arguments may be mixed, and after `--` every argument is positional. The
value of an option is the next argument or follows an equals sign. No option may be given twice.
-/

namespace Kelp.Cli

/-- What a run writes. -/
inductive Artifact where
  | loader
  | text
  | binary
deriving DecidableEq, Repr, Inhabited

/-- The name of an artifact on the command line. -/
def Artifact.label : Artifact → String
  | .loader => "loader"
  | .text => "wat"
  | .binary => "wasm"

/-- The artifact of the given name. -/
def Artifact.ofLabel? (label : String) : Option Artifact :=
  [loader, text, binary].find? fun a => a.label = label

/-- A complete set of arguments. -/
structure Arguments where
  source : String
  output : Option String
  artifact : Artifact
  options : Options
  verbose : Bool
deriving DecidableEq, Repr, Inhabited

/-- What the command line asks for. -/
inductive Request where
  | compile (arguments : Arguments)
  | help
  | version
deriving DecidableEq, Repr, Inhabited

/-! ## Collecting -/

/-- The arguments seen so far. -/
structure Collected where
  positionals : List String := []
  artifact : Option Artifact := none
  format : Option LoaderFormat := none
  importModule : Option String := none
  noValidate : Bool := false
  verbose : Bool := false
deriving DecidableEq, Repr, Inhabited

/-- Why collecting ends early. -/
inductive Stop where
  | usageError
  | help
  | version
deriving DecidableEq, Repr, Inhabited

namespace Collected

/-- Take a positional argument: the source, then the output. -/
def positional (c : Collected) (argument : String) : Except Stop Collected :=
  if argument = "" ∨ 2 ≤ c.positionals.length then .error .usageError
  else .ok { c with positionals := c.positionals ++ [argument] }

/-- Take `--no-validate`. -/
def setNoValidate (c : Collected) : Except Stop Collected :=
  if c.noValidate then .error .usageError else .ok { c with noValidate := true }

/-- Take `--verbose`. -/
def setVerbose (c : Collected) : Except Stop Collected :=
  if c.verbose then .error .usageError else .ok { c with verbose := true }

/-- Take an option that has no value. -/
def flag (c : Collected) (name : String) : Except Stop Collected :=
  if name = "no-validate" then c.setNoValidate
  else if name = "verbose" then c.setVerbose
  else if name = "help" then .error .help
  else if name = "version" then .error .version
  else .error .usageError

/-- Take one of the letters after a single dash. -/
def letter (c : Collected) (l : Char) : Except Stop Collected :=
  if l = 'v' then c.setVerbose
  else if l = 'h' then .error .help
  else if l = 'V' then .error .version
  else .error .usageError

/-- Take an option with its value. -/
def valued (c : Collected) (name value : String) : Except Stop Collected :=
  if name = "emit" then
    match c.artifact, Artifact.ofLabel? value with
    | none, some a => .ok { c with artifact := some a }
    | _, _ => .error .usageError
  else if name = "format" then
    match c.format, LoaderFormat.ofLabel? value with
    | none, some f => .ok { c with format := some f }
    | _, _ => .error .usageError
  else if name = "import-module" then
    match c.importModule with
    | none => .ok { c with importModule := some value }
    | some _ => .error .usageError
  else .error .usageError

end Collected

/-- Whether the option takes a value. -/
def takesValue (name : String) : Bool :=
  name = "emit" || name = "format" || name = "import-module"

/-- The forms that an argument can have. -/
inductive Form where
  /-- `--` -/
  | separator
  /-- `--name` -/
  | long (name : String)
  /-- `--name=value` -/
  | assignment (name value : String)
  /-- `-letters` -/
  | short (letters : List Char)
  | plain
deriving DecidableEq, Repr, Inhabited

/-- The form of an argument. A single dash is a plain argument. -/
def Form.of (argument : String) : Form :=
  match argument.toList with
  | ['-', '-'] => .separator
  | '-' :: '-' :: rest =>
    let name := rest.takeWhile (· ≠ '=')
    match rest.dropWhile (· ≠ '=') with
    | [] => .long (String.ofList name)
    | _ :: value => .assignment (String.ofList name) (String.ofList value)
  | '-' :: l :: rest => .short (l :: rest)
  | _ => .plain

/-- Collect arguments from left to right. -/
def collect (c : Collected) : List String → Except Stop Collected
  | [] => .ok c
  | argument :: rest =>
    match Form.of argument with
    | .separator => rest.foldlM Collected.positional c
    | .plain => do collect (← c.positional argument) rest
    | .short letters => do collect (← letters.foldlM Collected.letter c) rest
    | .assignment name value => do collect (← c.valued name value) rest
    | .long name =>
      if takesValue name then
        match rest with
        | [] => .error .usageError
        | value :: rest =>
          -- what looks like an option is never taken for a value
          if Form.of value = .plain then do collect (← c.valued name value) rest
          else .error .usageError
      else do collect (← c.flag name) rest

/-- The request that collected arguments make. -/
def Collected.arguments? (c : Collected) : Option Arguments :=
  let defaults : Options := {}
  let make (source : String) (output : Option String) : Arguments := {
    source, output
    artifact := c.artifact.getD .loader
    options := {
      format := c.format.getD defaults.format
      validate := !c.noValidate
      importModule := c.importModule.getD defaults.importModule
    }
    verbose := c.verbose
  }
  match c.positionals with
  | [source] => some (make source none)
  | [source, output] => some (make source (some output))
  | _ => none

/-- The request of a command line, unless the command line is used wrongly. -/
def Request.parse? (arguments : List String) : Option Request :=
  match collect {} arguments with
  | .ok c => c.arguments?.map .compile
  | .error .help => some .help
  | .error .version => some .version
  | .error .usageError => none

/-- The file extension of an artifact. -/
def Artifact.extension (format : LoaderFormat) : Artifact → String
  | .loader => format.extension
  | .text => "wat"
  | .binary => "wasm"

/-- Where the artifact is written (§E4): the given output, or else the source with the extension of
the artifact. -/
def Arguments.outputPath (a : Arguments) : String :=
  a.output.getD (Path.withExtension a.source (a.artifact.extension a.options.format))

end Kelp.Cli
