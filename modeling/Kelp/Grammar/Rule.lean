import Kelp.Syntax
import Kelp.Grammar.Lexeme

/-!
# Rules

The named rules of the grammar. Their names are what a diagnostic lists as expected.

`Attempts` remembers the furthest place at which rules failed, and which rules those were.
-/

namespace Kelp.Grammar

/-- The named rules. -/
inductive Rule where
  | endOfText
  | keyword (k : Keyword)
  | ident
  | number
  | program
  | typeName
  | binder
  | binders
  | returnType
  | struct
  | function
  | block
  | hostPath
  | hostFunction
  | letStmt
  | returnStmt
  | exprStmt
  | sum
  | product
  | call
  | callStmt
  | arguments
  | dotted
deriving DecidableEq, Repr, Inhabited

/-- Every rule, in the order in which messages list them. -/
def Rule.all : List Rule :=
  .endOfText :: Keyword.all.map .keyword ++
    [.ident, .number, .program, .typeName, .binder, .binders, .returnType, .struct, .function,
      .block, .hostPath, .hostFunction, .letStmt, .returnStmt, .exprStmt, .sum, .product, .call,
      .callStmt, .arguments, .dotted]

/-- The name of a rule in messages. -/
def Rule.label : Rule → String
  | .endOfText => "EOI"
  | .keyword k => "kw_" ++ k.spelling
  | .ident => "ident"
  | .number => "int_lit"
  | .program => "program"
  | .typeName => "type_ref"
  | .binder => "typed_name"
  | .binders => "typed_names"
  | .returnType => "return_type"
  | .struct => "struct_def"
  | .function => "func_def"
  | .block => "block"
  | .hostPath => "host_path"
  | .hostFunction => "extern_func"
  | .letStmt => "let_stmt"
  | .returnStmt => "return_stmt"
  | .exprStmt => "expr_stmt"
  | .sum => "sum"
  | .product => "product"
  | .call => "call"
  | .callStmt => "call_expr"
  | .arguments => "arg_list"
  | .dotted => "dot"

/-- What a rule yields. Constants are still literals as written. -/
abbrev Rule.Value : Rule → Type
  | .endOfText => Unit
  | .keyword _ => Unit
  | .ident => String
  | .number => Literal
  | .program => Program Literal
  | .typeName => String
  | .binder => Binder
  | .binders => List Binder
  | .returnType => String
  | .struct => StructDef
  | .function => FunctionDef Literal
  | .block => List (Stmt Literal)
  | .hostPath => String
  | .hostFunction => HostFunction
  | .letStmt => Stmt Literal
  | .returnStmt => Stmt Literal
  | .exprStmt => Stmt Literal
  | .sum => Expr Literal
  | .product => Expr Literal
  | .call => Expr Literal
  | .callStmt => Expr Literal
  | .arguments => List (Expr Literal)
  | .dotted => Expr Literal

/-! ## Failed attempts -/

/-- The furthest offset at which a rule failed, and the rules recorded there in order. -/
structure Attempts where
  offset : Nat
  rules : List Rule
deriving DecidableEq, Repr, Inhabited

/-- Nothing was tried yet. -/
def Attempts.start : Attempts := ⟨0, []⟩

/-- How many rules are recorded at the given offset. -/
def Attempts.countAt (a : Attempts) (offset : Nat) : Nat :=
  if offset = a.offset then a.rules.length else 0

/-- Record that `rule` failed at `offset`, where `before` is what was recorded when it began and
`after` what its parts left behind. A single attempt recorded by its parts at the same place tells
more than the rule itself and is kept; several are replaced by the rule. Nothing is recorded behind
the furthest place. -/
def Attempts.record (rule : Rule) (offset : Nat) (before after : Attempts) : Attempts :=
  let earlier := before.countAt offset
  if after.countAt offset = earlier + 1 then after
  -- the parts may have moved the furthest place, but never back
  else if offset = after.offset then ⟨offset, after.rules.take earlier ++ [rule]⟩
  else if after.offset < offset then ⟨offset, [rule]⟩
  else after

/-- The recorded rules, each once, in the order of `Rule.all`. -/
def Attempts.expected (a : Attempts) : List Rule :=
  Rule.all.filter (· ∈ a.rules)

end Kelp.Grammar
