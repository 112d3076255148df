import Kelp.Compile

/-!
# Log events

What a run reports while it works, one line for each event (§E3).
-/

namespace Kelp.Cli

/-- How important an event is. -/
inductive Level where
  | debug
  | info
  | warn
deriving DecidableEq, Repr, Inhabited

/-- The name of a level. -/
def Level.label : Level → String
  | .debug => "DEBUG"
  | .info => "INFO"
  | .warn => "WARN"

/-- The events of a run. -/
inductive Event where
  /-- The run starts on a source file. -/
  | compiling (source : String)
  /-- The source declares this many things. -/
  | built (structs functions hosts : Nat)
  /-- The module has an entry function. -/
  | entryFound (name : String)
  /-- The WebAssembly text was emitted. -/
  | emitted (size : Nat)
  /-- The binary was assembled. -/
  | encoded (size : Nat) (validated : Bool)
  /-- A public function is not exported under its own name. -/
  | unnamedExport (name : String)
  /-- The loader was generated. -/
  | loaderGenerated (format : LoaderFormat) (binarySize wrappers : Nat)
  /-- Compilation to a loader is complete. -/
  | complete (binarySize loaderSize : Nat)
  /-- The artifact was written. -/
  | wrote (path : String)
deriving DecidableEq, Repr, Inhabited

namespace Event

/-- The importance of an event. -/
def level : Event → Level
  | .compiling _ => .info
  | .built .. => .debug
  | .entryFound _ => .debug
  | .emitted _ => .debug
  | .encoded .. => .debug
  | .unnamedExport _ => .warn
  | .loaderGenerated .. => .debug
  | .complete .. => .info
  | .wrote _ => .info

/-- The part of the program that an event comes from. -/
def target : Event → String
  | .compiling _ => "kelp"
  | .built .. => "kelp::ir::builder"
  | .entryFound _ => "kelp"
  | .emitted _ => "kelp::codegen"
  | .encoded .. => "kelp::toolchain::encoder"
  | .unnamedExport _ => "kelp::loader"
  | .loaderGenerated .. => "kelp::loader"
  | .complete .. => "kelp"
  | .wrote _ => "kelp"

/-- The text of an event. -/
def message : Event → String
  | .compiling source => s!"compiling {source}"
  | .built structs functions hosts =>
    s!"built declaration model structs={structs} functions={functions} externs={hosts}"
  | .entryFound name => s!"entry point detected function={name}"
  | .emitted size => s!"emitted WebAssembly text bytes={size}"
  | .encoded size validated => s!"encoded module bytes={size} validated={validated}"
  | .unnamedExport name =>
    s!"public function `{name}` is only available through the default export"
  | .loaderGenerated format binarySize wrappers =>
    s!"generated loader format={format.label} wasm_bytes={binarySize} wrappers={wrappers}"
  | .complete binarySize loaderSize =>
    s!"compilation complete wasm_bytes={binarySize} loader_bytes={loaderSize}"
  | .wrote path => s!"wrote {path}"

/-- A character of a message as a log line shows it. The characters that a terminal takes for
commands are written by their numbers. -/
def shownChar (c : Char) : List Char :=
  if ['\x07', '\x08', '\x0c', '\x1b', '\x7f'].contains c then
    ['\\', 'x'] ++ (Nat.toDigits 16 c.toNat).leftpad 2 '0'
  else if 0x80 ≤ c.toNat ∧ c.toNat ≤ 0x9f then
    ['\\', 'u', '{'] ++ Nat.toDigits 16 c.toNat ++ ['}']
  else [c]

/-- The line of an event. -/
def line (e : Event) : String :=
  let shown := String.ofList (e.message.toList.flatMap shownChar)
  s!"{e.level.label} {e.target}: {shown}"

/-- Whether an event is shown. Details are shown on request only. -/
def isShown (verbose : Bool) (e : Event) : Bool :=
  verbose || e.level ≠ .debug

end Event

end Kelp.Cli
