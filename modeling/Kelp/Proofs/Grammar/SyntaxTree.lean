import Mathlib.Data.List.DropRight
import Mathlib.Data.Option.Basic
import Kelp.Proofs.Grammar.Recognition

/-!
# Concrete syntax trees

The productions yield typed values directly. A parser that works in two steps builds a tree first,
with a node for each named rule, and then walks the tree. Its walker sees nothing but the names of
rules, and must expect any node anywhere.

- `SyntaxTree` is such a tree, `Pattern.readTrees` and `Rule.readTree` build it.
- `SyntaxTree.toExpr`, `toStmt`, `toFunction`, … and `toProgram` walk it. Where a node is missing or
  is not of the right kind, they give up with a message.
- `Rule.readTree_agrees`: the tree of a rule stands for the value that the rule yields, if the nodes
  of a rule stand for its value whenever their children do so for the parts.
-/

namespace Kelp.Grammar

/-- A node of a concrete syntax tree: the rule that matched, where it began, the characters that it
took, and the nodes of the rules inside. -/
inductive SyntaxTree where
  | node (rule : Rule) (offset : Nat) (chars : List Char) (children : List SyntaxTree)

namespace SyntaxTree

/-- The rule of the node. -/
def rule : SyntaxTree → Rule
  | .node rule _ _ _ => rule

/-- The offset of the first character of the node. -/
def offset : SyntaxTree → Nat
  | .node _ offset _ _ => offset

/-- The text of the node. -/
def text : SyntaxTree → String
  | .node _ _ chars _ => String.ofList chars

/-- The nodes inside. -/
def children : SyntaxTree → List SyntaxTree
  | .node _ _ _ children => children

section Node

variable (rule : Rule) (offset : Nat) (chars : List Char) (children : List SyntaxTree)

@[simp] theorem rule_node : (node rule offset chars children).rule = rule := rfl

@[simp] theorem offset_node : (node rule offset chars children).offset = offset := rfl

@[simp] theorem text_node : (node rule offset chars children).text = String.ofList chars := rfl

@[simp] theorem children_node : (node rule offset chars children).children = children := rfl

end Node

end SyntaxTree

/-! ## Building trees -/

/-- The nodes of the rules that a pattern matches, where `call` gives the node of a rule. -/
def Pattern.readTrees (call : Rule → Reader SyntaxTree) :
    {α : Type} → Pattern α → Reader (List SyntaxTree)
  | _, .empty, c => some ([], c)
  | _, .lexeme l, c => (l.scan c).map fun (_, c) => ([], c)
  | _, .rule r, c => (call r c).map fun (t, c) => ([t], c)
  | _, .seq first second, c =>
    (first.readTrees call c).bind fun (ts, c) =>
      (second.readTrees call c.skip).map fun (us, c) => (ts ++ us, c)
  | _, .alt first second, c => (first.readTrees call c).or (second.readTrees call c)
  | _, .opt body, c => (body.readTrees call c).or (some ([], c))
  | _, .many body, c =>
    match body.readTrees call c with
    | none => some ([], c)
    | some (ts, c) =>
      let (tss, c) := readRounds (body.readTrees call) (c.rest.length + 1) c
      some (ts ++ tss.flatten, c)
  | _, .map _ body, c => body.readTrees call c

/-- The characters between two cursors. -/
def Cursor.span (c c' : Cursor) : List Char := c.rest.take (c'.offset - c.offset)

/-- The tree of a named rule, with at most `fuel` rules inside each other. -/
def Rule.readTree : (fuel : Nat) → Rule → Reader SyntaxTree
  | 0, _, _ => none
  | fuel + 1, r, c =>
    (r.pattern.readTrees (Rule.readTree fuel) c).map fun (ts, c') =>
      (.node r c.offset (c.span c') ts, c')

/-- The tree of a source text, if the grammar accepts it. -/
def syntaxTree? (source : List Char) : Option SyntaxTree :=
  (Rule.readTree (depthBound source) .program (.start source)).map Prod.fst

/-! ## Walking trees -/

namespace SyntaxTree

/-- The failure of a node that lacks a node inside. -/
def missing (source : List Char) (offset : Nat) (what : String) : ParseFailure :=
  .single (Position.ofOffset source offset) ("malformed syntax tree: missing " ++ what)

/-- The next of the nodes inside `parent`, and those behind it. -/
def nextChild (source : List Char) (parent : SyntaxTree) (what : String) :
    List SyntaxTree → Except ParseFailure (SyntaxTree × List SyntaxTree)
  | [] => .error (missing source parent.offset what)
  | t :: ts => .ok (t, ts)

/-- Whether a node tells anything beyond what stands at its place in any case. Of the keywords, only
`pub` does. -/
def isSignificant (t : SyntaxTree) : Bool :=
  match t.rule with
  | .keyword k => decide (k = .kwPub)
  | _ => true

/-- The nodes inside, without the keywords that say nothing. -/
def significant (t : SyntaxTree) : List SyntaxTree := t.children.filter isSignificant

/-- The characters that are white space in any script. -/
def isSpace (c : Char) : Bool :=
  c.toNat ∈ [0x20, 0x85, 0xA0, 0x1680, 0x2028, 0x2029, 0x202F, 0x205F, 0x3000] ||
    (0x9 ≤ c.toNat && c.toNat ≤ 0xD) || (0x2000 ≤ c.toNat && c.toNat ≤ 0x200A)

/-- The text without white space at its ends. -/
def trimmed (text : String) : String :=
  String.ofList ((text.toList.dropWhile isSpace).rdropWhile isSpace)

/-- A chain of operands, or the operand if there is just one. -/
def chainOf (make : List (Expr Int) → Expr Int) : List (Expr Int) → Expr Int
  | [e] => e
  | es => make es

section Walk

variable (source : List Char)

mutual

/-- The expression of a node. -/
def toExpr : SyntaxTree → Except ParseFailure (Expr Int)
  | .node .sum _ _ operands => do return chainOf .sum (← toExprs operands)
  | .node .product _ _ operands => do return chainOf .product (← toExprs operands)
  | .node .call offset _ children => toCall offset children
  | .node .callStmt offset _ children => toCall offset children
  | .node .dotted offset _ children => toAccess offset children
  | .node .ident _ chars _ => return .var (String.ofList chars)
  | .node .number offset chars _ => do
    return .const (← Literal.resolve source ⟨offset, String.ofList chars⟩)
  | .node rule offset _ _ =>
    .error (.single (Position.ofOffset source offset) ("unexpected expression " ++ rule.label))

/-- The expressions of several nodes. -/
def toExprs : List SyntaxTree → Except ParseFailure (List (Expr Int))
  | [] => return []
  | t :: ts => do
    let e ← toExpr t
    return e :: (← toExprs ts)

/-- The argument lists of several nodes. -/
def toLists : List SyntaxTree → Except ParseFailure (List (List (Expr Int)))
  | [] => return []
  | .node _ _ _ arguments :: ts => do
    let es ← toExprs arguments
    return es :: (← toLists ts)

/-- A callee with the argument lists behind it. -/
def toCall (offset : Nat) : List SyntaxTree → Except ParseFailure (Expr Int)
  | [] => .error (missing source offset "callee")
  | callee :: lists => do
    let callee ← toExpr callee
    let lists ← toLists lists
    return if lists.isEmpty then callee else .call callee lists

/-- A receiver with the accessors behind it. -/
def toAccess (offset : Nat) : List SyntaxTree → Except ParseFailure (Expr Int)
  | [] => .error (missing source offset "receiver")
  | receiver :: accessors => do
    let receiver ← toExpr receiver
    return if accessors.isEmpty then receiver else .field receiver (accessors.map text)

end

/-- The statement of a node. -/
def toStmt (t : SyntaxTree) : Except ParseFailure (Stmt Int) :=
  match t.rule with
  | .letStmt => do
    let (name, rest) ← nextChild source t "let binding name" t.significant
    let (value, _) ← nextChild source t "let initializer" rest
    return .bind name.text (← toExpr source value)
  | .returnStmt => do
    let (value, _) ← nextChild source t "return value" t.significant
    return .ret (← toExpr source value)
  | .exprStmt => do
    let (value, _) ← nextChild source t "statement expression" t.significant
    return .eval (← toExpr source value)
  | rule =>
    .error (.single (Position.ofOffset source t.offset) ("unexpected statement " ++ rule.label))

/-- The parameter or field of a node. -/
def toBinder (t : SyntaxTree) : Except ParseFailure Binder := do
  let (name, rest) ← nextChild source t "name" t.children
  let (type, _) ← nextChild source t "type" rest
  return { name := name.text, type := trimmed type.text }

/-- The type name of a return type. -/
def toReturnType (t : SyntaxTree) : Except ParseFailure String := do
  let (type, _) ← nextChild source t "return type" t.children
  return trimmed type.text

/-- A struct with what a node adds to it. Nodes of other kinds are passed over. -/
def addToStruct (d : StructDef) (t : SyntaxTree) : Except ParseFailure StructDef := do
  match t.rule with
  | .ident => return { d with name := t.text }
  | .binders => return { d with fields := ← t.children.mapM (toBinder source) }
  | _ => return d

/-- The struct of a node. -/
def toStruct (t : SyntaxTree) : Except ParseFailure StructDef :=
  t.significant.foldlM (addToStruct source) { name := "", fields := [] }

/-- A function with what a node adds to it. Nodes of other kinds are passed over. -/
def addToFunction (d : FunctionDef Int) (t : SyntaxTree) :
    Except ParseFailure (FunctionDef Int) := do
  match t.rule with
  | .keyword .kwPub => return { d with isPublic := true }
  | .ident => return { d with name := t.text }
  | .binders => return { d with params := ← t.children.mapM (toBinder source) }
  | .returnType => return { d with returnType := ← toReturnType source t }
  | .block => return { d with body := ← t.children.mapM (toStmt source) }
  | _ => return d

/-- The function of a node. -/
def toFunction (t : SyntaxTree) : Except ParseFailure (FunctionDef Int) :=
  t.significant.foldlM (addToFunction source)
    { isPublic := false, name := "", params := [], returnType := unitType, body := [] }

/-- A host function with what a node adds to it. Nodes of other kinds are passed over. -/
def addToHost (d : HostFunction) (t : SyntaxTree) : Except ParseFailure HostFunction := do
  match t.rule with
  | .hostPath => return { d with path := t.text }
  | .ident => return { d with name := t.text }
  | .binders => return { d with params := ← t.children.mapM (toBinder source) }
  | .returnType => return { d with returnType := ← toReturnType source t }
  | _ => return d

/-- The host function of a node. -/
def toHostFunction (t : SyntaxTree) : Except ParseFailure HostFunction :=
  t.significant.foldlM (addToHost source)
    { path := "", name := "", params := [], returnType := unitType }

/-- The declarations of several nodes. Nodes of other kinds are passed over. -/
def toDecls : List SyntaxTree → Except ParseFailure (Program Int)
  | [] => return []
  | t :: ts =>
    match t.rule with
    | .struct => do
      let d ← toStruct source t
      return .struct d :: (← toDecls ts)
    | .function => do
      let d ← toFunction source t
      return .function d :: (← toDecls ts)
    | .hostFunction => do
      let d ← toHostFunction source t
      return .host d :: (← toDecls ts)
    | _ => toDecls ts

/-- The program of a tree. -/
def toProgram (t : SyntaxTree) : Except ParseFailure (Program Int) := toDecls source t.children

end Walk

end SyntaxTree

/-! ## Trees and values -/

/-- The nodes that a pattern leaves where it yields a value, if `call` says which node a rule leaves
where it yields one. Lexemes leave none. -/
def Pattern.TreesBy (call : (r : Rule) → SyntaxTree → r.Value → Prop) :
    {α : Type} → Pattern α → List SyntaxTree → α → Prop
  | _, .empty, ts, _ => ts = []
  | _, .lexeme _, ts, _ => ts = []
  | _, .rule r, ts, v => ∃ t, ts = [t] ∧ call r t v
  | _, .seq first second, ts, v =>
    ∃ us ws, ts = us ++ ws ∧ first.TreesBy call us v.1 ∧ second.TreesBy call ws v.2
  | _, .alt first second, ts, v => first.TreesBy call ts v ∨ second.TreesBy call ts v
  | _, .opt body, ts, v => ts = [] ∧ v = none ∨ ∃ x, v = some x ∧ body.TreesBy call ts x
  | _, .many body, ts, v => ∃ tss, ts = tss.flatten ∧ List.Forall₂ (body.TreesBy call) tss v
  | _, .map f body, ts, v => ∃ x, body.TreesBy call ts x ∧ f x = v

/-- Two readers that match the same texts and end at the same places, with related values. -/
def Agrees {α β : Type} (R : α → β → Prop) (x : Option (α × Cursor)) (y : Option (β × Cursor)) :
    Prop :=
  Option.Rel (fun a b => R a.1 b.1 ∧ a.2 = b.2) x y

section Agreement

variable {R : (r : Rule) → SyntaxTree → r.Value → Prop} {callTree : Rule → Reader SyntaxTree}
  {call : (r : Rule) → Reader r.Value} {α β α' β' : Type} {S : α → β → Prop} {S' : α' → β' → Prop}

/-- One reader behind the other. -/
theorem Agrees.bind {x : Option (α × Cursor)} {y : Option (β × Cursor)}
    {f : α × Cursor → Option (α' × Cursor)} {g : β × Cursor → Option (β' × Cursor)}
    (h : Agrees S x y) (hfg : ∀ a b c, S a b → Agrees S' (f (a, c)) (g (b, c))) :
    Agrees S' (x.bind f) (y.bind g) := by
  cases h with
  | none => exact .none
  | @some a b hab =>
    obtain ⟨⟨a, c⟩, ⟨b, c'⟩⟩ := a, b
    obtain ⟨hS, rfl⟩ : S a b ∧ c = c' := hab
    exact hfg a b c hS

/-- The same value made of what was read. -/
theorem Agrees.map {x : Option (α × Cursor)} {y : Option (β × Cursor)} {f : α → α'} {g : β → β'}
    (h : Agrees S x y) (hfg : ∀ a b, S a b → S' (f a) (g b)) :
    Agrees S' (x.map fun (a, c) => (f a, c)) (y.map fun (b, c) => (g b, c)) := by
  cases h with
  | none => exact .none
  | @some a b hab => exact .some ⟨hfg a.1 b.1 hab.1, hab.2⟩

/-- One reader where the other does not match. -/
theorem Agrees.or {x x' : Option (α × Cursor)} {y y' : Option (β × Cursor)} {S₁ S₂ : α → β → Prop}
    (h : Agrees S₁ x y) (h' : Agrees S₂ x' y') :
    Agrees (fun a b => S₁ a b ∨ S₂ a b) (x.or x') (y.or y') := by
  cases h with
  | @some a b hab => exact .some ⟨Or.inl hab.1, hab.2⟩
  | none =>
    cases h' with
    | none => exact .none
    | @some a b hab => exact .some ⟨Or.inr hab.1, hab.2⟩

/-- Rounds end at the same place, with as many nodes as values. -/
theorem readRounds_agrees {item : Reader α} {item' : Reader β}
    (h : ∀ c, Agrees S (item c) (item' c)) : ∀ (fuel : Nat) (c : Cursor),
      List.Forall₂ S (readRounds item fuel c).1 (readRounds item' fuel c).1 ∧
        (readRounds item fuel c).2 = (readRounds item' fuel c).2
  | 0, c => ⟨.nil, rfl⟩
  | fuel + 1, c => by
    have hround := h c.skip
    rw [readRounds, readRounds]
    generalize item c.skip = x at hround ⊢
    generalize item' c.skip = y at hround ⊢
    cases hround with
    | none => exact ⟨.nil, rfl⟩
    | @some a b hab =>
      obtain ⟨hS, hc⟩ := hab
      have ih := readRounds_agrees h fuel a.2
      rw [hc] at ih
      refine ⟨.cons hS ?_, ?_⟩
      · rw [hc]
        exact ih.1
      · show (readRounds item fuel a.2).2 = _
        rw [hc]
        exact ih.2

/-- Trees and values are read from the same texts. -/
theorem Pattern.readTrees_agrees (h : ∀ r c, Agrees (R r) (callTree r c) (call r c)) {α : Type}
    (p : Pattern α) (c : Cursor) :
    Agrees (p.TreesBy R) (p.readTrees callTree c) (p.read call c) := by
  induction p generalizing c with
  | empty => exact .some ⟨rfl, rfl⟩
  | lexeme l =>
    rw [Pattern.readTrees, Pattern.read]
    cases l.scan c with
    | none => exact .none
    | some m => exact .some ⟨rfl, rfl⟩
  | rule r =>
    have hrule := h r c
    rw [Pattern.readTrees, Pattern.read]
    generalize callTree r c = x at hrule ⊢
    generalize call r c = y at hrule ⊢
    cases hrule with
    | none => exact .none
    | @some a b hab => exact .some ⟨⟨a.1, rfl, hab.1⟩, hab.2⟩
  | seq first second ih₁ ih₂ =>
    exact (ih₁ c).bind fun ts v c' hts => (ih₂ c'.skip).map fun us w hus => ⟨ts, us, rfl, hts, hus⟩
  | alt first second ih₁ ih₂ => exact (ih₁ c).or (ih₂ c)
  | opt body ih =>
    have hbody := ih c
    rw [Pattern.readTrees, Pattern.read]
    generalize body.readTrees callTree c = x at hbody ⊢
    generalize body.read call c = y at hbody ⊢
    cases hbody with
    | none => exact .some ⟨Or.inl ⟨rfl, rfl⟩, rfl⟩
    | @some a b hab => exact .some ⟨Or.inr ⟨b.1, rfl, hab.1⟩, hab.2⟩
  | many body ih =>
    have hbody := ih c
    rw [Pattern.readTrees, Pattern.read]
    generalize body.readTrees callTree c = x at hbody ⊢
    generalize body.read call c = y at hbody ⊢
    cases hbody with
    | none => exact .some ⟨⟨[], rfl, .nil⟩, rfl⟩
    | @some a b hab =>
      obtain ⟨⟨ts, c₁⟩, ⟨v, c₂⟩⟩ := a, b
      obtain ⟨hts, rfl⟩ : body.TreesBy R ts v ∧ c₁ = c₂ := hab
      -- the first round settles that there are any, the others follow from where it ends
      have hrounds := readRounds_agrees ih (c₁.rest.length + 1) c₁
      exact .some ⟨⟨ts :: _, rfl, .cons hts hrounds.1⟩, hrounds.2⟩
  | map f body ih =>
    have hbody := ih c
    rw [Pattern.readTrees, Pattern.read]
    generalize body.readTrees callTree c = x at hbody ⊢
    generalize body.read call c = y at hbody ⊢
    cases hbody with
    | none => exact .none
    | @some a b hab => exact .some ⟨⟨b.1, hab.1, rfl⟩, hab.2⟩

/-- **Trees stand for values**, if each node does so whenever its children do. -/
theorem Rule.readTree_agrees
    (hnode : ∀ (n : Nat) (r : Rule) (c c' : Cursor) (ts : List SyntaxTree) (v : r.Value),
      r.pattern.read (Rule.read n) c = some (v, c') → r.pattern.TreesBy R ts v →
      R r (.node r c.offset (c.span c') ts) v) :
    ∀ (n : Nat) (r : Rule) (c : Cursor), Agrees (R r) (Rule.readTree n r c) (Rule.read n r c)
  | 0, _, _ => .none
  | n + 1, r, c => by
    -- the nodes inside belong to rules of lower depth
    have hp := Pattern.readTrees_agrees (Rule.readTree_agrees hnode n) r.pattern c
    have hv := hnode n r c
    rw [Rule.readTree, Rule.read]
    generalize r.pattern.readTrees (Rule.readTree n) c = x at hp ⊢
    generalize r.pattern.read (Rule.read n) c = y at hp hv ⊢
    cases hp with
    | none => exact .none
    | @some a b hab =>
      obtain ⟨⟨ts, c₁⟩, ⟨v, c₂⟩⟩ := a, b
      obtain ⟨hts, rfl⟩ : r.pattern.TreesBy R ts v ∧ c₁ = c₂ := hab
      exact .some ⟨hv c₁ ts v rfl hts, rfl⟩

end Agreement

end Kelp.Grammar
