import Kelp.Wasm.Types

/-!
# WebAssembly modules

A module with all names resolved to indices. Imported functions come first in the index space of
functions, struct types first in that of types, and parameters first in that of locals.
-/

namespace Kelp.Wasm

/-- An instruction of a stack machine on 32-bit words. -/
inductive Instr where
  | const (value : BitVec 32)
  | localGet (index : Nat)
  | localSet (index : Nat)
  | add
  | mul
  | call (index : Nat)
  | ret
deriving DecidableEq, Repr, Inhabited

/-- An imported function with the index of its type. -/
structure Import where
  module : String
  name : String
  type : Nat
deriving DecidableEq, Repr, Inhabited

/-- A function: the index of its type, the number of its locals, which are 32-bit integers, and its
body. -/
structure Func where
  type : Nat
  locals : Nat
  body : List Instr
deriving DecidableEq, Repr, Inhabited

/-- The names that the text of a module gave to its parts. They have no effect and only serve
debugging. -/
structure Names where
  /-- Of all functions, imports first. -/
  functions : List String
  /-- Of the parameters and locals of each function that is not imported. -/
  locals : List (List String)
  /-- Of the struct types. -/
  structs : List String
  /-- Of the fields of each struct type. -/
  fields : List (List String)
deriving DecidableEq, Repr, Inhabited

/-- A module. -/
structure Module where
  structs : List (List StorageType)
  funcTypes : List FuncType
  imports : List Import
  functions : List Func
  /-- Names of exported functions with their indices. -/
  exports : List (String × Nat)
  start : Option Nat
  names : Names
deriving DecidableEq, Repr, Inhabited

/-- The function type with the given index. -/
def Module.funcType? (m : Module) (index : Nat) : Option FuncType :=
  if index < m.structs.length then none else m.funcTypes[index - m.structs.length]?

/-- The type indices of all functions, imports first. -/
def Module.typeIndices (m : Module) : List Nat :=
  m.imports.map Import.type ++ m.functions.map Func.type

end Kelp.Wasm
