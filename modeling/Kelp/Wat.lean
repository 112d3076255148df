import Kelp.Syntax
import Kelp.SExpr

/-!
# WebAssembly text modules

The part of the WebAssembly text format that modules are written in (§6). Names and types are still
text: what they refer to is settled when the module is assembled.

`toSExpr` gives the S-expression of each part, and `Wat.Module.text` the text of a module.
-/

namespace Kelp.Wat

/-- The operators on two 32-bit integers. -/
inductive BinaryOp where
  | add
  | mul
deriving DecidableEq, Repr, Inhabited

/-- The instruction name of an operator. -/
def BinaryOp.keyword : BinaryOp → String
  | .add => "i32.add"
  | .mul => "i32.mul"

/-- An instruction in folded form, that is, together with the instructions that compute its
operands. -/
inductive Instr where
  | const (value : Int)
  | localGet (name : String)
  | localSet (name : String) (value : Instr)
  | structGet (field : String) (object : Instr)
  | binary (op : BinaryOp) (left right : Instr)
  | call (function : String) (arguments : List Instr)
  | ret (value : Instr)
deriving Repr, Inhabited

/-- A struct type. -/
structure Struct where
  name : String
  fields : List Binder
deriving DecidableEq, Repr, Inhabited

/-- An imported function. `module` and `name` are the texts between the quotes; the function is
called `name` inside the module too. -/
structure Import where
  module : String
  name : String
  params : List String
  result : Option String
deriving DecidableEq, Repr, Inhabited

/-- A function. Its locals are 32-bit integers. -/
structure Func where
  name : String
  params : List Binder
  result : Option String
  locals : List String
  body : List Instr
deriving Repr, Inhabited

/-- A module: struct types, imports, functions, the names of the exported functions, and the name
of the start function. -/
structure Module where
  structs : List Struct
  imports : List Import
  functions : List Func
  exports : List String
  start : Option String
deriving Repr, Inhabited

/-! ## S-expressions -/

/-- The type of every local. -/
def localType : String := "i32"

/-- The clause of a result type, if there is a result. -/
def resultClause : Option String → List SExpr
  | none => []
  | some t => [.clause "result" [.atom t]]

mutual

/-- The clause of an instruction. -/
def Instr.toSExpr : Instr → SExpr
  | .const n => .clause "i32.const" [.atom (toString n)]
  | .localGet x => .clause "local.get" [.ident x]
  | .localSet x e => .clause "local.set" [.ident x, e.toSExpr]
  | .structGet f e => .clause "struct.get" [.ident f, e.toSExpr]
  | .binary op a b => .clause op.keyword [a.toSExpr, b.toSExpr]
  | .call f es => .clause "call" (.ident f :: Instr.toSExprs es)
  | .ret e => .clause "return" [e.toSExpr]

/-- The clauses of several instructions. -/
def Instr.toSExprs : List Instr → List SExpr
  | [] => []
  | e :: es => e.toSExpr :: Instr.toSExprs es

end

/-- `(type $name (struct (field $f t) ...))`. -/
def Struct.toSExpr (s : Struct) : SExpr :=
  .clause "type" [.ident s.name,
    .clause "struct" (s.fields.map fun f => .clause "field" [.ident f.name, .atom f.type])]

/-- `(import "module" "name" (func $name (param t) ... (result t)))`. -/
def Import.toSExpr (i : Import) : SExpr :=
  .clause "import" [.quoted i.module, .quoted i.name,
    .clause "func" (.ident i.name ::
      (i.params.map (fun t => .clause "param" [.atom t]) ++ resultClause i.result))]

/-- `(param $name t)`. -/
def paramClause (p : Binder) : SExpr :=
  .clause "param" [.ident p.name, .atom p.type]

/-- `(local $name i32)`. -/
def localClause (name : String) : SExpr :=
  .clause "local" [.ident name, .atom localType]

/-- `(func $name (param $p t) ... (result t) (local $l i32) ... instructions ...)`. -/
def Func.toSExpr (f : Func) : SExpr :=
  .clause "func" (.ident f.name ::
    (f.params.map paramClause ++ resultClause f.result ++ f.locals.map localClause ++
      Instr.toSExprs f.body))

/-- `(export "name" (func $name))`. -/
def exportClause (name : String) : SExpr :=
  .clause "export" [.quoted name, .clause "func" [.ident name]]

/-- `(start $name)`. -/
def startClause (name : String) : SExpr :=
  .clause "start" [.ident name]

/-- The whole module: struct types, imports, functions, exports, and last the start function. The
order is fixed (§4.3). -/
def Module.toSExpr (m : Module) : SExpr :=
  .clause "module"
    (m.structs.map Struct.toSExpr ++ m.imports.map Import.toSExpr ++ m.functions.map Func.toSExpr ++
      m.exports.map exportClause ++ (m.start.map startClause).toList)

/-- The text of a module. -/
def Module.text (m : Module) : String := m.toSExpr.text

end Kelp.Wat
