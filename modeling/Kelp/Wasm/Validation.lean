import Kelp.Wasm.Binary

/-!
# Validation

`Wasm.Module.isValid` decides whether a module may be instantiated.

A function body is checked by running it on a stack of types: every instruction takes its operands
from the stack and leaves its result there. After a `return` the rest of the body cannot be reached,
and operands that are not on the stack may then be of any type.

Apart from that, engines limit the sizes of modules and of their parts.
-/

namespace Kelp.Wasm

/-- The types of the operands, the topmost one first. In unreachable code any number of operands of
any type lies below them. -/
structure TypeStack where
  operands : List ValueType
  unreachable : Bool
deriving DecidableEq, Repr, Inhabited

namespace TypeStack

/-- The stack at the start of a function. -/
def empty : TypeStack := ⟨[], false⟩

/-- Put an operand on the stack. -/
def push (s : TypeStack) (t : ValueType) : TypeStack :=
  { s with operands := t :: s.operands }

/-- Take an operand that can serve as a `t`. -/
def pop? (s : TypeStack) (t : ValueType) : Option TypeStack :=
  match s.operands with
  | top :: rest => if top.isSubtype t then some { s with operands := rest } else none
  | [] => if s.unreachable then some s else none

/-- Take operands of the given types, the last one first. -/
def popAll? (s : TypeStack) (types : List ValueType) : Option TypeStack :=
  types.reverse.foldlM pop? s

/-- Put the result of a function on the stack. -/
def pushResult (s : TypeStack) : Option ValueType → TypeStack
  | none => s
  | some t => s.push t

/-- Take the result of a function. -/
def popResult? (s : TypeStack) : Option ValueType → Option TypeStack
  | none => some s
  | some t => s.pop? t

end TypeStack

/-- What a function body may refer to: the types of its parameters and locals, the types of the
module's functions, and the type of its result. -/
structure Context where
  locals : List ValueType
  functions : List FuncType
  result : Option ValueType
deriving DecidableEq, Repr, Inhabited

/-- The stack after an instruction. -/
def Instr.check (Γ : Context) (s : TypeStack) : Instr → Option TypeStack
  | .const _ => some (s.push .i32)
  | .localGet i => do return s.push (← Γ.locals[i]?)
  | .localSet i => do s.pop? (← Γ.locals[i]?)
  | .add => do return (← s.popAll? [.i32, .i32]).push .i32
  | .mul => do return (← s.popAll? [.i32, .i32]).push .i32
  | .call i => do
    let f ← Γ.functions[i]?
    return (← s.popAll? f.params).pushResult f.result
  | .ret => do
    -- what else is on the stack is given up, and nothing behind it is reached
    let _ ← s.popResult? Γ.result
    return ⟨[], true⟩

/-- Whether a function body leaves exactly the function's result. -/
def bodyIsValid (Γ : Context) (body : List Instr) : Bool :=
  match body.foldlM (Instr.check Γ) TypeStack.empty with
  | none => false
  | some s =>
    match s.popResult? Γ.result with
    | none => false
    | some s => s.operands.isEmpty

/-! ## Limits

The sizes that engines take. Those of a million and more are out of reach of all but very large
sources. -/

/-- The greatest number of parameters of a function. -/
def maxParams : Nat := 1000

/-- The greatest number of parameters and locals of a function together. -/
def maxLocals : Nat := 50000

/-- The greatest size of the code of a function in bytes. -/
def maxCodeSize : Nat := 7654321

/-- The greatest number of fields of a struct. -/
def maxFields : Nat := 10000

/-- The greatest size of the name of an import or export in bytes. -/
def maxNameSize : Nat := 100000

/-- The greatest number of types, of structs and of functions together. -/
def maxTypes : Nat := 1000000

/-- The greatest number of functions, imported ones included. -/
def maxFunctions : Nat := 1000000

/-- The greatest number of imports. -/
def maxImports : Nat := 1000000

/-- The greatest number of exports. -/
def maxExports : Nat := 1000000

/-- What the types of all imports and exports together stay below in size. -/
def maxLinkageSize : Nat := 1000000

/-- The size of a function type, in terms of which linkage is limited. -/
def FuncType.size (t : FuncType) : Nat :=
  2 + t.params.length + t.result.toList.length

/-- The size of several function types together. -/
def FuncType.totalSize (types : List FuncType) : Nat :=
  types.foldr (fun t n => t.size + n) 0

/-- The size of the types of all imports and exports, where `functions` are the types of all
functions. The module itself counts for one. -/
def Module.linkageSize (m : Module) (functions : List FuncType) : Nat :=
  1 + FuncType.totalSize (functions.take m.imports.length) +
    FuncType.totalSize (m.exports.filterMap fun e => functions[e.2]?)

/-- Whether a module declares no more than engines take. -/
def Module.sizesAreValid (m : Module) (functions : List FuncType) : Bool :=
  m.structs.length + m.funcTypes.length ≤ maxTypes &&
  functions.length ≤ maxFunctions &&
  m.imports.length ≤ maxImports &&
  m.exports.length ≤ maxExports &&
  m.linkageSize functions < maxLinkageSize

/-! ## Modules -/

/-- Whether a function's body has the type that the function declares. -/
def Func.isValid (m : Module) (functions : List FuncType) (f : Func) : Bool :=
  match m.funcType? f.type with
  | none => false
  | some t =>
    t.params.length + f.locals ≤ maxLocals &&
    (codeBytes f.locals f.body).length ≤ maxCodeSize &&
    bodyIsValid ⟨t.params ++ List.replicate f.locals .i32, functions, t.result⟩ f.body

/-- Whether the type of a struct is valid. -/
def structIsValid (fields : List StorageType) : Bool :=
  fields.length ≤ maxFields && fields.all StorageType.isSupported

/-- Whether the type of a function is valid. -/
def FuncType.isValid (t : FuncType) : Bool :=
  t.params.length ≤ maxParams && t.isSupported

/-- Whether an import or export may have the name. -/
def nameIsValid (name : String) : Bool :=
  name.utf8ByteSize ≤ maxNameSize

/-- Whether the function with the given index can start a module: it takes and gives nothing. -/
def startIsValid (functions : List FuncType) (index : Nat) : Bool :=
  functions[index]? == some ⟨[], none⟩

/-- Whether the module is valid. -/
def Module.isValid (m : Module) : Bool :=
  match m.typeIndices.mapM m.funcType? with
  | none => false
  | some functions =>
    m.sizesAreValid functions &&
    m.structs.all structIsValid &&
    m.funcTypes.all FuncType.isValid &&
    m.imports.all (fun i => nameIsValid i.module && nameIsValid i.name) &&
    m.exports.all (fun e => nameIsValid e.1) &&
    m.start.all (startIsValid functions) &&
    m.functions.all (Func.isValid m functions)

end Kelp.Wasm
