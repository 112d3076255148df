/-!
# WebAssembly types

The types of values, of struct fields and of functions, with their names in the text format, their
codes in the binary format, and the subtype order.
-/

namespace Kelp.Wasm

/-- The types of values. All reference types are nullable. -/
inductive ValueType where
  | i32
  | i64
  | f32
  | f64
  | v128
  | funcref
  | externref
  | anyref
  | eqref
  | i31ref
  | structref
  | arrayref
  | exnref
  | contref
  | nullref
  | nullexternref
  | nullfuncref
  | nullexnref
  | nullcontref
deriving DecidableEq, Repr, Inhabited

namespace ValueType

/-- Every value type. -/
def all : List ValueType :=
  [.i32, .i64, .f32, .f64, .v128, .funcref, .externref, .anyref, .eqref, .i31ref, .structref,
    .arrayref, .exnref, .contref, .nullref, .nullexternref, .nullfuncref, .nullexnref, .nullcontref]

/-- The name of a type in the text format. -/
def name : ValueType → String
  | .i32 => "i32"
  | .i64 => "i64"
  | .f32 => "f32"
  | .f64 => "f64"
  | .v128 => "v128"
  | .funcref => "funcref"
  | .externref => "externref"
  | .anyref => "anyref"
  | .eqref => "eqref"
  | .i31ref => "i31ref"
  | .structref => "structref"
  | .arrayref => "arrayref"
  | .exnref => "exnref"
  | .contref => "contref"
  | .nullref => "nullref"
  | .nullexternref => "nullexternref"
  | .nullfuncref => "nullfuncref"
  | .nullexnref => "nullexnref"
  | .nullcontref => "nullcontref"

/-- The code of a type in the binary format. -/
def code : ValueType → UInt8
  | .i32 => 0x7f
  | .i64 => 0x7e
  | .f32 => 0x7d
  | .f64 => 0x7c
  | .v128 => 0x7b
  | .funcref => 0x70
  | .externref => 0x6f
  | .anyref => 0x6e
  | .eqref => 0x6d
  | .i31ref => 0x6c
  | .structref => 0x6b
  | .arrayref => 0x6a
  | .exnref => 0x69
  | .contref => 0x68
  | .nullref => 0x71
  | .nullexternref => 0x72
  | .nullfuncref => 0x73
  | .nullexnref => 0x74
  | .nullcontref => 0x75

/-- The type of the given name. Each type has one name only: the old spelling `anyfunc` of `funcref`
is unknown. -/
def ofName? (name : String) : Option ValueType :=
  all.find? fun t => t.name = name

/-- The types above a type in the subtype order, itself apart. -/
def supertypes : ValueType → List ValueType
  | .nullref => [.i31ref, .structref, .arrayref, .eqref, .anyref]
  | .i31ref => [.eqref, .anyref]
  | .structref => [.eqref, .anyref]
  | .arrayref => [.eqref, .anyref]
  | .eqref => [.anyref]
  | .nullfuncref => [.funcref]
  | .nullexternref => [.externref]
  | .nullexnref => [.exnref]
  | _ => []

/-- Whether a value of the first type may stand where one of the second is wanted. -/
def isSubtype (s t : ValueType) : Bool :=
  s = t || s.supertypes.contains t

/-- Whether the type is supported. The types of continuations are known but not supported. -/
def isSupported : ValueType → Bool
  | .contref => false
  | .nullcontref => false
  | _ => true

end ValueType

/-- The types of struct fields: value types and packed integers. -/
inductive StorageType where
  | value (t : ValueType)
  | i8
  | i16
deriving DecidableEq, Repr, Inhabited

namespace StorageType

/-- The field type of the given name. -/
def ofName? (name : String) : Option StorageType :=
  if name = "i8" then some .i8
  else if name = "i16" then some .i16
  else (ValueType.ofName? name).map .value

/-- The code of a field type in the binary format. -/
def code : StorageType → UInt8
  | .value t => t.code
  | .i8 => 0x78
  | .i16 => 0x77

/-- Whether the field type is supported. -/
def isSupported : StorageType → Bool
  | .value t => t.isSupported
  | .i8 => true
  | .i16 => true

end StorageType

/-- The type of a function with at most one result. -/
structure FuncType where
  params : List ValueType
  result : Option ValueType
deriving DecidableEq, Repr, Inhabited

/-- Whether all types that a function type mentions are supported. -/
def FuncType.isSupported (t : FuncType) : Bool :=
  t.params.all ValueType.isSupported && t.result.all ValueType.isSupported

end Kelp.Wasm
