import Kelp.Module
import Kelp.Wat

/-!
# Lowering

From declarations to WebAssembly text modules (§4.2, §4.3).

- `Expr.lower`, `Stmt.lower` and `FunctionDef.lower` produce instructions and functions, and
  `Module.lower` the module. The first shape that has no counterpart ends the lowering with a
  `LoweringError`.
- Operands of a sum or a product are combined from the left. Field accesses wrap their receiver.
- Every `let` of a function becomes a local of the function, known in the whole body.
-/

namespace Kelp

/-- Why a declaration cannot be lowered. These are the errors of the specification (§E2) and one
more, `emptyOperands`, which no source text leads to. -/
inductive LoweringError where
  /-- The callee of a call is not a plain name. -/
  | unsupportedCallee (kind : ExprKind)
  /-- A call without an argument list. -/
  | missingArgumentList (callee : String)
  /-- A call with several argument lists. -/
  | curriedCall (callee : String) (lists : Nat)
  /-- A sum or a product without operands. -/
  | emptyOperands (kind : ExprKind)
  /-- A second `let` of the same name in one function. -/
  | duplicateLocal (function : String) (name : String)
deriving DecidableEq, Repr, Inhabited

/-- The text of a lowering error. -/
def LoweringError.message : LoweringError → String
  | .unsupportedCallee kind =>
    s!"unsupported callee kind: {kind.label} (only plain function names can be called)"
  | .missingArgumentList callee => s!"call to `{callee}` has no argument list"
  | .curriedCall callee lists =>
    s!"call to `{callee}` has {lists} argument lists; curried calls are not supported"
  | .emptyOperands kind => s!"{kind.label} has no operands"
  | .duplicateLocal function name =>
    s!"local `{name}` is declared more than once in function `{function}`"

/-! ## Expressions and statements -/

mutual

/-- The instruction that computes an expression (§4.2). The shape of a call is judged before its
arguments, and its callee first of all. -/
def Expr.lower : Expr Int → Except LoweringError Wat.Instr
  | .sum [] => .error (.emptyOperands .sum)
  | .sum (e :: es) => do Expr.lowerChain .add (← e.lower) es
  | .product [] => .error (.emptyOperands .product)
  | .product (e :: es) => do Expr.lowerChain .mul (← e.lower) es
  | .field receiver accessors => do
    return accessors.foldl (fun object field => .structGet field object) (← receiver.lower)
  -- a plain name can be called, with one argument list
  | .call (.var f) [] => .error (.missingArgumentList f)
  | .call (.var f) [arguments] => do return .call f (← Expr.lowerAll arguments)
  | .call (.var f) lists => .error (.curriedCall f lists.length)
  | .call callee _ => .error (.unsupportedCallee callee.kind)
  | .var x => return .localGet x
  | .const n => return .const n

/-- Combine further operands with what the operands before them gave. The order of this fold is part
of the contract, since it settles how the clauses are nested (§4.2). -/
def Expr.lowerChain (op : Wat.BinaryOp) :
    Wat.Instr → List (Expr Int) → Except LoweringError Wat.Instr
  | left, [] => return left
  | left, e :: es => do Expr.lowerChain op (.binary op left (← e.lower)) es

/-- The instructions of several expressions. -/
def Expr.lowerAll : List (Expr Int) → Except LoweringError (List Wat.Instr)
  | [] => return []
  | e :: es => do
    let e ← e.lower
    return e :: (← Expr.lowerAll es)

end

/-- The instruction of a statement (§4.2). An expression statement is the instruction of its
expression: there is none that drops the value. -/
def Stmt.lower : Stmt Int → Except LoweringError Wat.Instr
  | .bind name value => return .localSet name (← value.lower)
  | .ret value => return .ret (← value.lower)
  | .eval value => value.lower

/-! ## Functions -/

/-- The name that a statement binds, if it is a `let`. -/
def Stmt.bound? {κ : Type} : Stmt κ → Option String
  | .bind name _ => some name
  | _ => none

/-- The first name that occurred before, where `seen` holds names from earlier on. -/
def firstRepeated (seen : List String) : List String → Option String
  | [] => none
  | name :: names => if name ∈ seen then some name else firstRepeated (name :: seen) names

/-- The names bound by `let` in a function, in order. -/
def FunctionDef.letNames {κ : Type} (f : FunctionDef κ) : List String :=
  f.body.filterMap Stmt.bound?

/-- The locals of a function: its `let` names, which must be different from each other (§E9). They
may repeat a parameter here, which the assembler refuses. -/
def FunctionDef.locals (f : FunctionDef Int) : Except LoweringError (List String) :=
  match firstRepeated [] f.letNames with
  | some name => .error (.duplicateLocal f.name name)
  | none => .ok f.letNames

/-- The function of the text module. The locals are settled before the body. -/
def FunctionDef.lower (f : FunctionDef Int) : Except LoweringError Wat.Func := do
  let locals ← f.locals
  let body ← f.body.mapM Stmt.lower
  return { name := f.name, params := f.params, result := f.result, locals, body }

/-! ## Modules -/

/-- The struct type of a struct declaration. -/
def StructDef.lower (s : StructDef) : Wat.Struct := ⟨s.name, s.fields⟩

/-- The import of a host function. Its parameters have no names in the text, only types (§E7). -/
def HostFunction.lower (importModule : String) (h : HostFunction) : Wat.Import where
  module := importModule
  name := h.name
  params := h.params.map Binder.type
  result := h.result

/-- The text module of a module, whose host functions are imported from `importModule` (§4.3).
Public functions are exported under their own names, and the entry function is the start
function. -/
def Module.lower (m : Module) (importModule : String) : Except LoweringError Wat.Module := do
  -- functions are all that can fail, so their errors come in the order of the source
  let functions ← m.functions.mapM FunctionDef.lower
  return {
    structs := m.structs.map StructDef.lower
    imports := m.hosts.map (HostFunction.lower importModule)
    functions
    exports := m.publicFunctions.map FunctionDef.name
    start := m.entry?.map FunctionDef.name
  }

end Kelp
