import Kelp.Wasm.Binary
import Kelp.Wasm.Validation
import Kelp.Wat.Reader
import Kelp.Wat.StringBody

/-!
# Assembling text modules

From text modules to binary modules (§E6).

- `Instr.flatten` gives the instruction sequence of a folded instruction: the operands in order,
  then the instruction itself.
- `Wat.Module.resolve?` replaces names by indices and type names by types. It fails where a name is
  unknown or declared twice, where a type is unknown, where a constant does not fit in 32 bits,
  where a string is malformed, and on every field access, since those do not say of which struct.
- `assemble` goes from text to bytes.
-/

namespace Kelp.Wat

/-! ## Instruction sequences -/

/-- An instruction without its operands. -/
inductive PlainInstr where
  | const (value : Int)
  | localGet (name : String)
  | localSet (name : String)
  | structGet (field : String)
  | binary (op : BinaryOp)
  | call (function : String)
  | ret
deriving DecidableEq, Repr, Inhabited

mutual

/-- The instruction sequence of a folded instruction. Whether the number of operands fits is not
checked. -/
def Instr.flatten : Instr → List PlainInstr
  | .const n => [.const n]
  | .localGet x => [.localGet x]
  | .localSet x e => e.flatten ++ [.localSet x]
  | .structGet f e => e.flatten ++ [.structGet f]
  | .binary op a b => a.flatten ++ b.flatten ++ [.binary op]
  | .call f es => Instr.flattenAll es ++ [.call f]
  | .ret e => e.flatten ++ [.ret]

/-- The instruction sequences of several folded instructions, one after the other. -/
def Instr.flattenAll : List Instr → List PlainInstr
  | [] => []
  | e :: es => e.flatten ++ Instr.flattenAll es

end

/-! ## Names and types -/

/-- Whether no name occurs twice. -/
def distinct : List String → Bool
  | [] => true
  | name :: names => !names.contains name && distinct names

/-- The 32-bit word of a constant, which may be written as a signed or an unsigned number. -/
def word? (n : Int) : Option (BitVec 32) :=
  if -0x80000000 ≤ n ∧ n < 0x100000000 then some (BitVec.ofInt 32 n) else none

/-- The instruction with its name replaced by an index, where `locals` are the names of the
parameters and locals and `functions` those of all functions. -/
def PlainInstr.resolve? (locals functions : List String) : PlainInstr → Option Wasm.Instr
  | .const n => (word? n).map .const
  | .localGet x => (locals.idxOf? x).map .localGet
  | .localSet x => (locals.idxOf? x).map .localSet
  | .structGet _ => none
  | .binary .add => some .add
  | .binary .mul => some .mul
  | .call f => (functions.idxOf? f).map .call
  | .ret => some .ret

/-- The type of a result. -/
def resultType? : Option String → Option (Option Wasm.ValueType)
  | none => some none
  | some t => (Wasm.ValueType.ofName? t).map some

/-- The type of a function with the given parameter and result types. -/
def signature? (params : List String) (result : Option String) : Option Wasm.FuncType := do
  return ⟨← params.mapM Wasm.ValueType.ofName?, ← resultType? result⟩

/-- The type of an imported function. -/
def Import.signature? (i : Import) : Option Wasm.FuncType :=
  Wat.signature? i.params i.result

/-- The type of a function. -/
def Func.signature? (f : Func) : Option Wasm.FuncType :=
  Wat.signature? (f.params.map Binder.type) f.result

/-- The names of a function's parameters and locals. -/
def Func.localNames (f : Func) : List String :=
  f.params.map Binder.name ++ f.locals

/-! ## Declarations -/

/-- The field types of a struct, whose fields must have different names. -/
def Struct.resolve? (s : Struct) : Option (List Wasm.StorageType) :=
  if distinct (s.fields.map Binder.name) then
    s.fields.mapM fun f => Wasm.StorageType.ofName? f.type
  else none

/-- The imported function, where `typeIndex` numbers the function types. -/
def Import.resolve? (typeIndex : Wasm.FuncType → Nat) (i : Import) : Option Wasm.Import := do
  let signature ← i.signature?
  let module ← StringBody.decode? i.module
  let name ← StringBody.decode? i.name
  return { module, name, type := typeIndex signature }

/-- The function, whose parameters and locals must have different names. -/
def Func.resolve? (typeIndex : Wasm.FuncType → Nat) (functions : List String) (f : Func) :
    Option Wasm.Func :=
  if distinct f.localNames then do
    let signature ← f.signature?
    let body ← (Instr.flattenAll f.body).mapM (PlainInstr.resolve? f.localNames functions)
    return { type := typeIndex signature, locals := f.locals.length, body }
  else none

/-- The name and the index of an exported function. -/
def resolveExport? (functions : List String) (name : String) : Option (String × Nat) := do
  return (← StringBody.decode? name, ← functions.idxOf? name)

/-- The index of the start function, if there is one. -/
def resolveStart? (functions : List String) : Option String → Option (Option Nat)
  | none => some none
  | some name => (functions.idxOf? name).map some

/-! ## Modules -/

namespace Module

/-- The names of all functions, imports first. -/
def functionNames (m : Module) : List String :=
  m.imports.map Import.name ++ m.functions.map Func.name

/-- The types of all functions, imports first. -/
def signatures? (m : Module) : Option (List Wasm.FuncType) := do
  return (← m.imports.mapM Import.signature?) ++ (← m.functions.mapM Func.signature?)

/-- The names of the parts of a module. -/
def names (m : Module) : Wasm.Names where
  functions := m.functionNames
  locals := m.functions.map Func.localNames
  structs := m.structs.map Struct.name
  fields := m.structs.map fun s => s.fields.map Binder.name

/-- The module with all names resolved. Equal function types share one entry, in the order of their
first use; struct types are never shared. -/
def resolve? (m : Module) : Option Wasm.Module :=
  if distinct (m.structs.map Struct.name) && distinct m.functionNames then do
    let structs ← m.structs.mapM Struct.resolve?
    let funcTypes := (← m.signatures?).eraseDups
    -- function types are numbered behind the struct types
    let typeIndex (t : Wasm.FuncType) : Nat := structs.length + funcTypes.idxOf t
    let imports ← m.imports.mapM (Import.resolve? typeIndex)
    let functions ← m.functions.mapM (Func.resolve? typeIndex m.functionNames)
    let exports ← m.exports.mapM (resolveExport? m.functionNames)
    let start ← resolveStart? m.functionNames m.start
    return { structs, funcTypes, imports, functions, exports, start, names := m.names }
  else none

end Module

/-- Why a text is not assembled. -/
inductive AssemblyError where
  /-- The text does not denote a module with all names resolved. -/
  | malformed
  /-- The module is not valid. -/
  | invalid
deriving DecidableEq, Repr, Inhabited

/-- The text of an assembly error. -/
def AssemblyError.message : AssemblyError → String
  | .malformed => "malformed module text"
  | .invalid => "invalid module"

/-- The bytes of the module that a text denotes. The module must be valid if `validate` is set. -/
def assemble (validate : Bool) (text : String) : Except AssemblyError Bytes :=
  match (Module.read? text).bind Module.resolve? with
  | none => .error .malformed
  | some m => if validate && !m.isValid then .error .invalid else .ok m.encode

end Kelp.Wat
