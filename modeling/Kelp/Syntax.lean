/-!
# Source syntax

The abstract syntax of kelp. A program is a list of declarations in source order: structs, functions
with a body, and host functions that a surrounding script supplies.

- `Expr`, `Stmt`, `FunctionDef`, `Decl` and `Program` carry the type `κ` of their constants. The
  grammar yields programs over literals as written; every later stage works on programs over `Int`.
- `Expr.traverse` and its companions visit the constants in source order and stop at the first one
  that is refused.

Section numbers (§), here and in other modules, are those of the specification of kelp. The syntax
is its data model (§3).
-/

namespace Kelp

/-- A name with the name of its type: a parameter or a struct field. -/
structure Binder where
  name : String
  type : String
deriving DecidableEq, Repr, Inhabited

/-- The type name that stands for "no result". It does so in return positions only: as the type of a
parameter it is a name like any other (§E9). -/
def unitType : String := "unit"

/-- An expression whose integer constants have type `κ` (§3). A call keeps every argument list that
was written, so `f(1)(2)` is one call with two lists: it is up to the lowering to refuse that
(§E5). -/
inductive Expr (κ : Type) where
  | sum (operands : List (Expr κ))
  | product (operands : List (Expr κ))
  | field (receiver : Expr κ) (accessors : List String)
  | call (callee : Expr κ) (arguments : List (List (Expr κ)))
  | var (name : String)
  | const (value : κ)
deriving Repr, Inhabited

/-- A statement of a function body: `let name = value;`, `return value;` or `value;` (§3). -/
inductive Stmt (κ : Type) where
  | bind (name : String) (value : Expr κ)
  | ret (value : Expr κ)
  | eval (value : Expr κ)
deriving Repr, Inhabited

/-- A struct declaration. The order of the fields is that of its memory layout (§3). -/
structure StructDef where
  name : String
  fields : List Binder
deriving DecidableEq, Repr, Inhabited

/-- A function with a body. Public ones make up the interface of the module (§3). -/
structure FunctionDef (κ : Type) where
  isPublic : Bool
  name : String
  params : List Binder
  returnType : String
  body : List (Stmt κ)
deriving Repr, Inhabited

/-- A function of the host (§3): `path` is the dotted path under which the host knows it, `name` the
name under which the program calls it and imports it. -/
structure HostFunction where
  path : String
  name : String
  params : List Binder
  returnType : String
deriving DecidableEq, Repr, Inhabited

/-- A top-level declaration. -/
inductive Decl (κ : Type) where
  | struct (definition : StructDef)
  | function (definition : FunctionDef κ)
  | host (definition : HostFunction)
deriving Repr, Inhabited

/-- The declarations of a source text, in order. -/
abbrev Program (κ : Type) : Type := List (Decl κ)

/-! ## Results -/

/-- The result type that a written return type stands for: `unit` means that there is none. -/
def resultType (returnType : String) : Option String :=
  if returnType = unitType then none else some returnType

/-- The type of the function's result, if it has one. -/
def FunctionDef.result {κ : Type} (f : FunctionDef κ) : Option String :=
  resultType f.returnType

/-- The type of the host function's result, if it has one. -/
def HostFunction.result (h : HostFunction) : Option String :=
  resultType h.returnType

/-! ## Expression kinds -/

/-- The outermost form of an expression. -/
inductive ExprKind where
  | sum
  | product
  | field
  | call
  | var
  | const
deriving DecidableEq, Repr, Inhabited

/-- How an expression kind is called in messages. -/
def ExprKind.label : ExprKind → String
  | .sum => "sum"
  | .product => "product"
  | .field => "field access"
  | .call => "call"
  | .var => "variable reference"
  | .const => "integer constant"

/-- The outermost form of `e`. -/
def Expr.kind {κ : Type} : Expr κ → ExprKind
  | .sum _ => .sum
  | .product _ => .product
  | .field _ _ => .field
  | .call _ _ => .call
  | .var _ => .var
  | .const _ => .const

/-! ## Visiting the constants -/

section Traverse

variable {κ ν ε : Type} (f : κ → Except ε ν)

mutual

/-- Apply `f` to the constants of an expression from left to right. -/
def Expr.traverse : Expr κ → Except ε (Expr ν)
  | .sum operands => do return .sum (← Expr.traverseAll operands)
  | .product operands => do return .product (← Expr.traverseAll operands)
  | .field receiver accessors => do return .field (← receiver.traverse) accessors
  | .call callee arguments => do
    let callee ← callee.traverse
    return .call callee (← Expr.traverseLists arguments)
  | .var name => return .var name
  | .const value => do return .const (← f value)

/-- Apply `f` to the constants of a list of expressions. -/
def Expr.traverseAll : List (Expr κ) → Except ε (List (Expr ν))
  | [] => return []
  | e :: es => do
    let e ← e.traverse
    return e :: (← Expr.traverseAll es)

/-- Apply `f` to the constants of a list of argument lists. -/
def Expr.traverseLists : List (List (Expr κ)) → Except ε (List (List (Expr ν)))
  | [] => return []
  | es :: rest => do
    let es ← Expr.traverseAll es
    return es :: (← Expr.traverseLists rest)

end

/-- Apply `f` to the constants of a statement. -/
def Stmt.traverse : Stmt κ → Except ε (Stmt ν)
  | .bind name value => return .bind name (← value.traverse f)
  | .ret value => return .ret (← value.traverse f)
  | .eval value => return .eval (← value.traverse f)

/-- Apply `f` to the constants of a function body, statement by statement. -/
def FunctionDef.traverse (d : FunctionDef κ) : Except ε (FunctionDef ν) := do
  return {
    isPublic := d.isPublic
    name := d.name
    params := d.params
    returnType := d.returnType
    body := ← d.body.mapM (Stmt.traverse f)
  }

/-- Apply `f` to the constants of a declaration. Only functions hold any. -/
def Decl.traverse : Decl κ → Except ε (Decl ν)
  | .struct d => return .struct d
  | .function d => return .function (← d.traverse f)
  | .host d => return .host d

/-- Apply `f` to the constants of a program, declaration by declaration. -/
def Program.traverse (p : Program κ) : Except ε (Program ν) :=
  p.mapM (Decl.traverse f)

end Traverse

end Kelp
