import Kelp.Grammar.Parse
import Kelp.Loader
import Kelp.Lowering
import Kelp.Wat.Assembly

/-!
# Compilation

From source text to modules, WebAssembly text, binaries and loaders.

- `buildModule`, `emitText` are the stages that every way of compiling shares.
- `compileToText`, `compileToBinary` and `compileToLoader` go from source text to the product of
  their name, and `compileModule` from a module to its loader.
- `compileWith` leaves the step from text to bytes to a given toolchain, which may have effects.

A stage that fails gives a `Failure`: the cause, and the stages that it happened in. No stage is
tried again, and nothing is made in part (§7).
-/

namespace Kelp

/-- What compilation depends on apart from its source (§E4). -/
structure Options where
  format : LoaderFormat := .commonJs
  validate : Bool := true
  importModule : String := "env"
deriving DecidableEq, Repr, Inhabited

/-! ## Failures -/

/-- Why a toolchain refuses a text. -/
inductive ToolchainError where
  /-- The built-in assembler refuses it. -/
  | assembly (error : Wat.AssemblyError)
  /-- Another toolchain refuses it for a reason of its own. -/
  | other (reason : String)
deriving DecidableEq, Repr, Inhabited

/-- The reason of a refusal. -/
def ToolchainError.reason : ToolchainError → String
  | .assembly error => error.message
  | .other reason => reason

/-- Why compilation fails (§7, §E2). -/
inductive CompileError where
  | parse (failure : ParseFailure)
  | lowering (error : LoweringError)
  | toolchain (error : ToolchainError)
deriving DecidableEq, Repr, Inhabited

/-- The messages of an error, from the most general one to its root. -/
def CompileError.messages : CompileError → List String
  | .parse failure => [failure.message]
  | .lowering error => ["lowering failed: " ++ error.message, error.message]
  | .toolchain error => ["toolchain rejected module: " ++ error.reason]

/-- The stages of compilation. -/
inductive Stage where
  | build
  | emit
  | assemble
deriving DecidableEq, Repr, Inhabited

/-- The message that a stage failed. -/
def Stage.message : Stage → String
  | .build => "failed to build module"
  | .emit => "failed to emit WebAssembly text"
  | .assemble => "failed to assemble WebAssembly module"

/-- A failed compilation: the cause, and the stage that it is reported for, if any. -/
structure Failure where
  stage : Option Stage
  cause : CompileError
deriving DecidableEq, Repr, Inhabited

/-- The messages of a failure, from the most general one to its root. -/
def Failure.messages (f : Failure) : List String :=
  (f.stage.map Stage.message).toList ++ f.cause.messages

/-- Report errors as failures of the stage. -/
def Stage.within {α : Type} (stage : Stage) : Except CompileError α → Except Failure α
  | .ok a => .ok a
  | .error cause => .error ⟨some stage, cause⟩

/-- Report errors without a stage. -/
def unstaged {α : Type} : Except CompileError α → Except Failure α
  | .ok a => .ok a
  | .error cause => .error ⟨none, cause⟩

/-! ## Stages -/

/-- The module that a source text denotes. -/
def buildModule (source : String) : Except CompileError Module :=
  match Program.parse source with
  | .ok program => .ok (Module.ofProgram program)
  | .error failure => .error (.parse failure)

/-- The WebAssembly text of a module. -/
def emitText (m : Module) (options : Options) : Except CompileError String :=
  match m.lower options.importModule with
  | .ok text => .ok text.text
  | .error error => .error (.lowering error)

/-- A step from WebAssembly text to a binary, with effects in `μ` (§E6). Its own errors are
`ToolchainError`s, but it may fail with any other error of compilation too. -/
abbrev Toolchain (μ : Type → Type) : Type := String → μ (Except CompileError Bytes)

/-- An answer of a toolchain that fails with an error of its own. -/
instance {α : Type} : Coe (Except ToolchainError α) (Except CompileError α) where
  coe := Except.mapError .toolchain

/-- The built-in toolchain: assembles the text, and validates the outcome if asked to (§E6). -/
def builtinToolchain (validate : Bool) : Toolchain Id := fun text =>
  match Wat.assemble validate text with
  | .ok binary => .ok binary
  | .error error => .error (.toolchain (.assembly error))

/-- The built-in toolchain with its usual setting, which is to validate. -/
def defaultToolchain : Toolchain Id := builtinToolchain true

/-- Hand a text to a toolchain. -/
def assembleWith {μ : Type → Type} [Monad μ] (toolchain : Toolchain μ) (text : String) :
    μ (Except Failure Bytes) := do
  return Stage.assemble.within (← toolchain text)

/-! ## Products

The entry points (§E7). The stages are the same in all of them. -/

/-- The WebAssembly text of a source text. -/
def compileToText (source : String) (options : Options) : Except Failure String := do
  let m ← Stage.build.within (buildModule source)
  Stage.emit.within (emitText m options)

/-- The binary of a source text. -/
def compileToBinary (source : String) (options : Options) : Except Failure Bytes := do
  let m ← Stage.build.within (buildModule source)
  let text ← Stage.emit.within (emitText m options)
  (assembleWith (builtinToolchain options.validate) text).run

/-- The loader of a module, assembled by the given toolchain. -/
def loaderWith {μ : Type → Type} [Monad μ] (toolchain : Toolchain μ) (m : Module)
    (options : Options) : μ (Except Failure String) :=
  match Stage.emit.within (emitText m options) with
  | .error failure => return .error failure
  | .ok text => do
    match ← assembleWith toolchain text with
    | .error failure => return .error failure
    | .ok binary => return .ok (Loader.text binary m options.importModule options.format)

/-- The loader of a source text, assembled by the given toolchain. -/
def compileWith {μ : Type → Type} [Monad μ] (toolchain : Toolchain μ) (source : String)
    (options : Options) : μ (Except Failure String) :=
  match Stage.build.within (buildModule source) with
  | .error failure => return .error failure
  | .ok m => loaderWith toolchain m options

/-- The loader of a source text. -/
def compileToLoader (source : String) (options : Options) : Except Failure String :=
  (compileWith (builtinToolchain options.validate) source options).run

/-- The loader of a module. -/
def compileModule (m : Module) (options : Options) : Except Failure String :=
  (loaderWith (builtinToolchain options.validate) m options).run

end Kelp
