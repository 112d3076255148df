import Kelp.Grammar.Pattern

/-!
# Productions

What each named rule stands for, and how a named rule is matched.

- `Rule.pattern` is the grammar of kelp (§6, §E5).
- `Rule.run` matches a named rule and takes note of the rules that fail on the way.
-/

namespace Kelp.Grammar

/-! ## Building expressions

A chain with a single operand is that operand, and calls and field accesses without anything applied
are what they would apply to. -/

/-- The sum of one or more operands. -/
def sumOf (operands : List (Expr Literal)) : Expr Literal :=
  match operands with
  | [e] => e
  | _ => .sum operands

/-- The product of one or more operands. -/
def productOf (operands : List (Expr Literal)) : Expr Literal :=
  match operands with
  | [e] => e
  | _ => .product operands

/-- The callee applied to its argument lists. -/
def callOf (callee : Expr Literal) (arguments : List (List (Expr Literal))) : Expr Literal :=
  if arguments.isEmpty then callee else .call callee arguments

/-- The receiver with the accessors applied in order. -/
def fieldOf (receiver : Expr Literal) (accessors : List String) : Expr Literal :=
  if accessors.isEmpty then receiver else .field receiver accessors

/-! ## The grammar -/

namespace Rule

open Pattern

/-- A parameter list in parentheses and the return type, which is `unit` where none is written
(§E5). -/
def signature : Pattern (List Binder × String) :=
  .map (fun (params, result) => (params, result.getD unitType))
    (.seq (.right (.mark .openParen) (.left (.rule .binders) (.mark .closeParen)))
      (.opt (.rule .returnType)))

/-- A declaration. -/
def declaration : Pattern (Decl Literal) :=
  .alt (.map Decl.struct (.rule .struct))
    (.alt (.map Decl.function (.rule .function)) (.map Decl.host (.rule .hostFunction)))

/-- A statement. -/
def statement : Pattern (Stmt Literal) :=
  .alt (.rule .letStmt) (.alt (.rule .returnStmt) (.rule .exprStmt))

/-- A literal, a name, or an expression in parentheses. -/
def primary : Pattern (Expr Literal) :=
  .alt (.map Expr.const (.rule .number))
    (.alt (.map Expr.var (.rule .ident))
      (.right (.mark .openParen) (.left (.rule .sum) (.mark .closeParen))))

/-- What each rule stands for. A program starts with the empty text, so that layout may stand before
its first declaration. -/
def pattern : (r : Rule) → Pattern r.Value
  | .endOfText => .lexeme .endOfText
  | .keyword k => .lexeme (.keyword k)
  | .ident => .lexeme .ident
  | .number => .lexeme .number
  | .program => .right .empty (.left (.many declaration) (.rule .endOfText))
  | .typeName => .rule .ident
  | .binder =>
    .map (fun (name, type) => { name, type })
      (.seq (.rule .ident) (.right (.mark .colon) (.rule .typeName)))
  | .binders => .commaList (.rule .binder)
  | .returnType => .right (.mark .arrow) (.rule .typeName)
  | .struct =>
    .map (fun (name, fields) => { name, fields })
      (.right (.keyword .kwStruct)
        (.seq (.rule .ident)
          (.right (.mark .openBrace) (.left (.rule .binders) (.mark .closeBrace)))))
  | .function =>
    .map (fun (pub, name, (params, result), body) =>
        { isPublic := pub.isSome, name, params, returnType := result, body })
      (.seq (.opt (.keyword .kwPub))
        (.right (.keyword .kwFn) (.seq (.rule .ident) (.seq signature (.rule .block)))))
  | .block => .right (.mark .openBrace) (.left (.many statement) (.mark .closeBrace))
  | .hostPath => .lexeme .hostPath
  | .hostFunction =>
    .map (fun (path, name, params, result) => { path, name, params, returnType := result })
      (.right (.keyword .kwImport)
        (.seq (.rule .hostPath)
          (.right (.keyword .kwAs)
            (.right (.keyword .kwFn)
              (.seq (.rule .ident) (.left signature (.mark .semicolon)))))))
  | .letStmt =>
    .map (fun (name, value) => .bind name value)
      (.right (.keyword .kwLet)
        (.seq (.rule .ident)
          (.right (.mark .equals) (.left (.rule .sum) (.mark .semicolon)))))
  | .returnStmt => .map .ret (.right (.keyword .kwReturn) (.left (.rule .sum) (.mark .semicolon)))
  | .exprStmt => .map .eval (.left (.rule .callStmt) (.mark .semicolon))
  -- sums bind weakest, then products, calls and field accesses (§E5)
  | .sum => .map sumOf (.separated .plus (.rule .product))
  | .product => .map productOf (.separated .times (.rule .call))
  | .call =>
    .map (fun (callee, lists) => callOf callee lists)
      (.seq (.rule .dotted) (.many (.rule .arguments)))
  -- a statement is a call, so at least one argument list follows
  | .callStmt =>
    .map (fun (callee, lists) => callOf callee lists)
      (.seq (.rule .dotted) (.many1 (.rule .arguments)))
  | .arguments =>
    .right (.mark .openParen) (.left (.commaList (.rule .sum)) (.mark .closeParen))
  | .dotted =>
    .map (fun (receiver, accessors) => fieldOf receiver accessors)
      (.seq primary (.many (.right (.mark .dot) (.rule .ident))))

/-- Match a named rule, with at most `fuel` rules inside each other. When a rule fails, `failed` is
told the rule, the offset where it began, and the state then and now. -/
def run {σ : Type} (failed : Rule → Nat → σ → σ → σ) :
    (fuel : Nat) → (r : Rule) → Matcher σ r.Value
  | 0, _, _, s => (none, s)
  | fuel + 1, r, c, s =>
    match r.pattern.run (run failed fuel) c s with
    | (none, after) => (none, failed r c.offset s after)
    | (some m, after) => (some m, after)

end Rule

end Kelp.Grammar
