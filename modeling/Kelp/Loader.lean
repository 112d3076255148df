import Kelp.Base64
import Kelp.Module
import Kelp.Script.Names
import Kelp.Script.Statement

/-!
# Loaders

A loader is a script that carries a binary module, instantiates it with wrappers around the host's
functions, and republishes what the module exports (§4.5).

- `importObject` gives the object of wrappers: one for each host function, which forwards its
  arguments in order to the function that the host knows under the declared path.
- `Loader.statements` gives the statements of the script, and `Loader.text` its text.
-/

namespace Kelp

open Script

/-- The module systems that a loader can be written for. -/
inductive LoaderFormat where
  | commonJs
  | esModule
deriving DecidableEq, Repr, Inhabited

namespace LoaderFormat

/-- The usual file extension of a loader. -/
def extension : LoaderFormat → String
  | .commonJs => "cjs"
  | .esModule => "mjs"

/-- The name of a format. -/
def label : LoaderFormat → String
  | .commonJs => "commonjs"
  | .esModule => "esm"

/-- The format of the given name. -/
def ofLabel? (label : String) : Option LoaderFormat :=
  [commonJs, esModule].find? fun f => f.label = label

end LoaderFormat

/-! ## The import object -/

/-- The wrapper of a host function, as an entry of an object: it passes its arguments on, in order,
to what the path stands for, and returns the result (§4.5, §E7). -/
def HostFunction.wrapper (h : HostFunction) : String :=
  let params := ", ".intercalate (h.params.map fun p => binding p.name)
  propertyKey h.name ++ ": function(" ++ params ++ ") \x7b return " ++ h.path ++ "(" ++ params ++
    "); \x7d,"

/-- The object that supplies the host functions under the name of the module that they are imported
from (§E7). Whether the host has these functions is not checked (§4.5). -/
def importObject (hosts : List HostFunction) (importModule : String) : String :=
  let wrappers := " ".intercalate (hosts.map HostFunction.wrapper)
  -- an empty object has no blanks inside
  let inner := if hosts.isEmpty then "" else " " ++ wrappers ++ " "
  "\x7b " ++ propertyKey importModule ++ ": \x7b" ++ inner ++ "\x7d \x7d"

/-! ## Exports -/

namespace Loader

/-- The expression for what the instance exports. -/
def exports : String := "instance.exports"

/-- The name that an export cannot have, since it stands for the whole module. -/
def defaultName : String := "default"

/-- The statements that export a public function under its own name, through another binding where
the name is a reserved word. A function called `default` has none. -/
def exportStatements (name : String) : List Statement :=
  if name = defaultName then []
  else if isReserved name then
    [.constant (binding name) (exports ++ "." ++ name), .exportAs (binding name) name]
  else [.exportConstant name (exports ++ "." ++ name)]

/-- The statements that republish the exports of the instance: all at once, or one by one and then
as the default export (§E4). -/
def republish (m : Module) : LoaderFormat → List Statement
  | .commonJs => [.moduleExports exports]
  | .esModule =>
    m.publicFunctions.flatMap (fun f => exportStatements f.name) ++ [.exportDefault exports]

/-- The statements up to the instance of the module (§E7). -/
def instantiate (binary : Bytes) (m : Module) (importModule : String) : List Statement :=
  [.constant "wasmBase64" ("\"" ++ String.ofList (Base64.encode binary) ++ "\""),
    .constant "wasmBuffer" "Buffer.from(wasmBase64, \"base64\")",
    .constant "mod" "new WebAssembly.Module(wasmBuffer)",
    .constant "importObject" (importObject m.hosts importModule),
    .constant "instance" "new WebAssembly.Instance(mod, importObject)"]

/-- The statements of the loader of a binary module. -/
def statements (binary : Bytes) (m : Module) (importModule : String) (format : LoaderFormat) :
    List Statement :=
  instantiate binary m importModule ++ republish m format

/-- The loader of a binary module. -/
def text (binary : Bytes) (m : Module) (importModule : String) (format : LoaderFormat) : String :=
  scriptText (statements binary m importModule format)

/-- The public functions that a loader does not export under their own names. -/
def unnamed (m : Module) : LoaderFormat → List (FunctionDef Int)
  | .commonJs => []
  | .esModule => m.publicFunctions.filter (·.name = defaultName)

end Loader

end Kelp
