import Kelp.Decimal
import Kelp.SExpr.Reader
import Kelp.Wat

/-!
# Reading text modules

`Wat.Module.read?` is the way back from the text of a module to the module. It knows the clauses
that modules are written in, each with its parts in the order in which `toSExpr` writes them.

The text format has other clauses, and abbreviations of these. A text that uses them is refused
here. No module is written so, unless the module name of its imports ends its own string literal and
goes on with clauses of its own.
-/

namespace Kelp.Wat

/-- Whether the character may stand in an identifier: ASCII letters, digits and most ASCII signs.
The quote, the comma, the semicolon and the brackets are not among them. -/
def isIdentChar (c : Char) : Bool :=
  c.isAlphanum || "!#$%&'*+-./:<=>?@\\^_`|~".toList.contains c

/-- The name of an identifier atom: a dollar sign, then at least one character of identifiers. -/
def ident? : SExpr → Option String
  | .atom s =>
    match s.toList with
    | '$' :: c :: name =>
      if (c :: name).all isIdentChar then some (String.ofList (c :: name)) else none
    | _ => none
  | .list _ => none

/-- The text between the quotes of a string atom. -/
def quoted? : SExpr → Option String
  | .atom s =>
    match s.toList with
    | '"' :: rest => if rest.getLast? = some '"' then some (String.ofList rest.dropLast) else none
    | _ => none
  | .list _ => none

/-- The text of an atom. -/
def atom? : SExpr → Option String
  | .atom s => some s
  | .list _ => none

/-- The arguments of a clause with the given keyword. -/
def arguments? (keyword : String) : SExpr → Option (List SExpr)
  | .list (.atom k :: rest) => if k = keyword then some rest else none
  | _ => none

/-! ## Instructions -/

mutual

/-- The instruction that a clause denotes. -/
def Instr.ofSExpr? : SExpr → Option Instr
  | .list [.atom "i32.const", .atom n] => (Decimal.read? n).map .const
  | .list [.atom "local.get", x] => (ident? x).map .localGet
  | .list [.atom "local.set", x, e] => do return .localSet (← ident? x) (← Instr.ofSExpr? e)
  | .list [.atom "struct.get", f, e] => do return .structGet (← ident? f) (← Instr.ofSExpr? e)
  | .list [.atom "i32.add", a, b] => do
    return .binary .add (← Instr.ofSExpr? a) (← Instr.ofSExpr? b)
  | .list [.atom "i32.mul", a, b] => do
    return .binary .mul (← Instr.ofSExpr? a) (← Instr.ofSExpr? b)
  | .list (.atom "call" :: f :: es) => do return .call (← ident? f) (← Instr.ofSExprs? es)
  | .list [.atom "return", e] => do return .ret (← Instr.ofSExpr? e)
  | _ => none

/-- The instructions that several clauses denote. -/
def Instr.ofSExprs? : List SExpr → Option (List Instr)
  | [] => some []
  | e :: es => do
    let e ← Instr.ofSExpr? e
    return e :: (← Instr.ofSExprs? es)

end

/-! ## Declarations -/

/-- The name and type of a clause such as `(param $name t)`. -/
def binder? (keyword : String) (e : SExpr) : Option Binder :=
  match arguments? keyword e with
  | some [x, t] => do return ⟨← ident? x, ← atom? t⟩
  | _ => none

/-- The type of a clause such as `(param t)`. -/
def type? (keyword : String) (e : SExpr) : Option String :=
  match arguments? keyword e with
  | some [t] => atom? t
  | _ => none

/-- The name of a local. -/
def local? (e : SExpr) : Option String :=
  (binder? "local" e).bind fun b => if b.type = localType then some b.name else none

/-- Apply `f` to the clauses of a list as long as it accepts them. Gives what it made of those, and
the clauses from the first one on that it does not accept. -/
def leadingMap {α : Type} (f : SExpr → Option α) : List SExpr → List α × List SExpr
  | [] => ([], [])
  | e :: es =>
    match f e with
    | some a => let (as, rest) := leadingMap f es; (a :: as, rest)
    | none => ([], e :: es)

/-- The result type at the front of a list of clauses, and the clauses after it. -/
def leadingResult : List SExpr → Option String × List SExpr
  | [] => (none, [])
  | e :: es =>
    match type? "result" e with
    | some t => (some t, es)
    | none => (none, e :: es)

/-- The struct type that a clause declares. -/
def Struct.ofSExpr? (e : SExpr) : Option Struct :=
  match arguments? "type" e with
  | some [x, body] => do
    return ⟨← ident? x, ← (← arguments? "struct" body).mapM (binder? "field")⟩
  | _ => none

/-- The import that a clause declares. -/
def Import.ofSExpr? (e : SExpr) : Option Import :=
  match arguments? "import" e with
  | some [m, n, f] => do
    match ← arguments? "func" f with
    | x :: clauses =>
      let (params, clauses) := leadingMap (type? "param") clauses
      let (result, clauses) := leadingResult clauses
      let name ← quoted? n
      if clauses.isEmpty && (← ident? x) = name then return ⟨← quoted? m, name, params, result⟩
      else none
    | [] => none
  | _ => none

/-- The function that a clause declares. -/
def Func.ofSExpr? (e : SExpr) : Option Func := do
  match ← arguments? "func" e with
  | x :: clauses =>
    let (params, clauses) := leadingMap (binder? "param") clauses
    let (result, clauses) := leadingResult clauses
    let (locals, clauses) := leadingMap local? clauses
    return ⟨← ident? x, params, result, locals, ← Instr.ofSExprs? clauses⟩
  | [] => none

/-- The name of the function that a clause exports. -/
def export? (e : SExpr) : Option String :=
  match arguments? "export" e with
  | some [n, f] =>
    match arguments? "func" f with
    | some [x] => do
      let name ← quoted? n
      if (← ident? x) = name then return name else none
    | _ => none
  | _ => none

/-- The name of the start function that a clause declares. -/
def start? (e : SExpr) : Option String :=
  match arguments? "start" e with
  | some [x] => ident? x
  | _ => none

/-- The module that an S-expression denotes. -/
def Module.ofSExpr? (e : SExpr) : Option Module := do
  let (structs, clauses) := leadingMap Struct.ofSExpr? (← arguments? "module" e)
  let (imports, clauses) := leadingMap Import.ofSExpr? clauses
  let (functions, clauses) := leadingMap Func.ofSExpr? clauses
  let (exports, clauses) := leadingMap export? clauses
  match clauses with
  | [] => return ⟨structs, imports, functions, exports, none⟩
  | [s] => return ⟨structs, imports, functions, exports, some (← start? s)⟩
  | _ => none

/-- The module that a text denotes. -/
def Module.read? (text : String) : Option Module :=
  (SExpr.read? text).bind Module.ofSExpr?

end Kelp.Wat
