import Kelp.Proofs.Grammar.Scanning
import Kelp.Proofs.Grammar.SyntaxTree
import Kelp.Proofs.Traversal

/-!
# Walking the trees of the grammar

Every tree that the grammar yields has the nodes that its walker asks for, in the order in which it
asks for them. So the walker gives what the typed productions give, and never gives up on the shape
of a tree.

- `Built` says what the walker makes of a node whose rule yields a value, and `Represents` that the
  node is one of that rule.
- The lemmas `built_…` go from the nodes inside to the node, one rule at a time.
- `map_toProgram_syntaxTree?` puts them together for whole texts.
-/

namespace Kelp.Grammar

open SyntaxTree

/-! ## Nodes of patterns -/

section Nodes

variable {R : (r : Rule) → SyntaxTree → r.Value → Prop} {α β : Type}

/-- A mark in front leaves no node. -/
theorem treesBy_right_mark {m : Mark} {p : Pattern β} {ts : List SyntaxTree} {y : β}
    (h : (Pattern.right (.mark m) p).TreesBy R ts y) : p.TreesBy R ts y := by
  obtain ⟨⟨x, y⟩, ⟨us, ws, rfl, hus, hws⟩, rfl⟩ := h
  obtain rfl : us = [] := hus
  exact hws

/-- A mark behind leaves no node. -/
theorem treesBy_left_mark {m : Mark} {p : Pattern α} {ts : List SyntaxTree} {x : α}
    (h : (Pattern.left p (.mark m)).TreesBy R ts x) : p.TreesBy R ts x := by
  obtain ⟨⟨x, y⟩, ⟨us, ws, rfl, hus, hws⟩, rfl⟩ := h
  obtain rfl : ws = [] := hws
  rw [List.append_nil]
  exact hus

/-- A named rule in front leaves one node. -/
theorem treesBy_seq_rule {r : Rule} {p : Pattern β} {ts : List SyntaxTree} {v : r.Value × β}
    (h : (Pattern.seq (.rule r) p).TreesBy R ts v) :
    ∃ t us, ts = t :: us ∧ R r t v.1 ∧ p.TreesBy R us v.2 := by
  obtain ⟨us, ws, rfl, ⟨t, rfl, ht⟩, hws⟩ := h
  exact ⟨t, ws, rfl, ht, hws⟩

/-- A keyword in front leaves a node, which the walker passes over. -/
theorem treesBy_right_keyword {k : Keyword} {p : Pattern β} {ts : List SyntaxTree} {y : β}
    (h : (Pattern.right (.keyword k) p).TreesBy R ts y) :
    ∃ t us, ts = t :: us ∧ R (.keyword k) t () ∧ p.TreesBy R us y := by
  obtain ⟨⟨x, y⟩, hseq, rfl⟩ := h
  exact treesBy_seq_rule hseq

/-- A repetition whose rounds leave one node each. -/
theorem forall₂_of_treesBy_many {p : Pattern α} {S : SyntaxTree → α → Prop}
    (hp : ∀ ts v, p.TreesBy R ts v → ∃ t, ts = [t] ∧ S t v) {ts : List SyntaxTree} {vs : List α}
    (h : (Pattern.many p).TreesBy R ts vs) : List.Forall₂ S ts vs := by
  obtain ⟨tss, rfl, hrounds⟩ := h
  induction hrounds with
  | nil => exact .nil
  | cons hround _ ih =>
    obtain ⟨t, rfl, ht⟩ := hp _ _ hround
    exact .cons ht ih

/-- A list with a separator leaves one node per item. -/
theorem forall₂_of_treesBy_separated {r : Rule} {m : Mark} {ts : List SyntaxTree}
    {vs : List r.Value} (h : (Pattern.separated m (.rule r)).TreesBy R ts vs) :
    List.Forall₂ (R r) ts vs := by
  obtain ⟨⟨v, vs⟩, hseq, rfl⟩ := h
  obtain ⟨t, us, rfl, ht, hus⟩ := treesBy_seq_rule hseq
  exact .cons ht (forall₂_of_treesBy_many (fun _ _ => treesBy_right_mark) hus)

/-- A list with commas leaves one node per item. -/
theorem forall₂_of_treesBy_commaList {r : Rule} {ts : List SyntaxTree} {vs : List r.Value}
    (h : (Pattern.commaList (.rule r)).TreesBy R ts vs) : List.Forall₂ (R r) ts vs := by
  obtain ⟨v, ⟨rfl, rfl⟩ | ⟨vs, rfl, hlist⟩, rfl⟩ := h
  · exact .nil
  · obtain ⟨⟨vs, last⟩, ⟨us, ws, rfl, hus, hws⟩, rfl⟩ := hlist
    -- the comma behind the last item leaves no node
    have hlast : ws = [] := by
      rcases hws with ⟨rfl, -⟩ | ⟨-, -, rfl⟩
      · rfl
      · rfl
    rw [hlast, List.append_nil]
    exact forall₂_of_treesBy_separated hus

end Nodes

/-! ## Texts of nodes -/

/-- The text of a node is what its lexeme matched. -/
theorem Lexeme.span_of_scan {l : Lexeme} {c c' : Cursor} {v : l.Value}
    (h : l.scan c = some (v, c')) :
    l.matched c.rest = some (c.span c') ∧ v = l.value c.offset (c.span c') := by
  obtain ⟨cs, hcs, heq⟩ := Option.map_eq_some_iff.1 h
  cases heq
  have hspan : c.span (c.advance cs.length) = cs := by
    rw [Cursor.span, Cursor.advance, Nat.add_sub_cancel_left]
    exact (List.prefix_iff_eq_take.1 (Lexeme.matched_isPrefix hcs)).symm
  rw [hspan]
  exact ⟨hcs, rfl⟩

/-- Words have no white space in any script. -/
theorem isSpace_of_isWordChar {c : Char} (h : isWordChar c = true) : isSpace c = false := by
  have hrange := toNat_range_of_isWordChar h
  simp only [isSpace, List.mem_cons, List.not_mem_nil, or_false, Bool.or_eq_false_iff,
    Bool.and_eq_false_iff, decide_eq_false_iff_not]
  omega

/-- A word has no white space to trim. -/
theorem trimmed_eq_self {s : String} (h : ∀ c ∈ s.toList, isWordChar c = true) :
    trimmed s = s := by
  have hspace : ∀ c ∈ s.toList, ¬ isSpace c = true := fun c hc => by
    rw [isSpace_of_isWordChar (h c hc)]
    exact Bool.false_ne_true
  have hleft : s.toList.dropWhile isSpace = s.toList :=
    List.dropWhile_eq_self_iff.2 fun hpos => hspace _ (List.getElem_mem hpos)
  have hright : s.toList.rdropWhile isSpace = s.toList :=
    List.rdropWhile_eq_self_iff.2 fun hne => hspace _ (List.getLast_mem hne)
  rw [trimmed, hleft, hright, String.ofList_toList]

/-- An identifier is the text of its node, and a word. -/
theorem Rule.read_ident {n : Nat} {c c' : Cursor} {name : String}
    (h : Rule.read n .ident c = some (name, c')) :
    String.ofList (c.span c') = name ∧ ∀ ch ∈ name.toList, isWordChar ch = true := by
  cases n with
  | zero => cases h
  | succ n =>
    obtain ⟨hmatched, rfl⟩ := Lexeme.span_of_scan h
    refine ⟨rfl, fun ch hch => ?_⟩
    rw [Lexeme.value, String.toList_ofList, (matchIdent_eq_some_iff.1 hmatched).1] at hch
    exact List.mem_takeWhile_imp hch

/-! ## What nodes stand for -/

section Represents

variable (source : List Char)

/-- What the walker makes of a node whose rule yields a value. -/
def Built : (r : Rule) → SyntaxTree → r.Value → Prop
  | .endOfText, _, _ => True
  | .keyword _, _, _ => True
  | .ident, t, name => t.text = name
  | .number, t, l => l = ⟨t.offset, t.text⟩
  | .program, t, p => t.toProgram source = p.traverse (Literal.resolve source)
  | .typeName, t, name => trimmed t.text = name
  | .binder, t, b => t.toBinder source = .ok b
  | .binders, t, bs => t.children.mapM (toBinder source) = .ok bs
  | .returnType, t, type => t.toReturnType source = .ok type
  | .struct, t, d => t.toStruct source = .ok d
  | .function, t, d => t.toFunction source = d.traverse (Literal.resolve source)
  | .block, t, body =>
    t.children.mapM (toStmt source) = body.mapM (Stmt.traverse (Literal.resolve source))
  | .hostPath, t, path => t.text = path
  | .hostFunction, t, d => t.toHostFunction source = .ok d
  | .letStmt, t, s => t.toStmt source = s.traverse (Literal.resolve source)
  | .returnStmt, t, s => t.toStmt source = s.traverse (Literal.resolve source)
  | .exprStmt, t, s => t.toStmt source = s.traverse (Literal.resolve source)
  | .sum, t, e => t.toExpr source = e.traverse (Literal.resolve source)
  | .product, t, e => t.toExpr source = e.traverse (Literal.resolve source)
  | .call, t, e => t.toExpr source = e.traverse (Literal.resolve source)
  | .callStmt, t, e => t.toExpr source = e.traverse (Literal.resolve source)
  | .arguments, t, es =>
    toExprs source t.children = Expr.traverseAll (Literal.resolve source) es
  | .dotted, t, e => t.toExpr source = e.traverse (Literal.resolve source)

/-- A node of the rule, of which the walker makes the value. -/
def Represents (r : Rule) (t : SyntaxTree) (v : r.Value) : Prop :=
  t.rule = r ∧ Built source r t v

end Represents

section Built

variable {source : List Char} {offset : Nat} {chars : List Char} {ts : List SyntaxTree}

/-! ## Declarations -/

theorem built_binder {b : Binder} (h : Rule.binder.pattern.TreesBy (Represents source) ts b) :
    Built source .binder (.node .binder offset chars ts) b := by
  obtain ⟨⟨name, type⟩, hseq, rfl⟩ := h
  obtain ⟨t, us, rfl, ⟨-, rfl⟩, hus⟩ := treesBy_seq_rule hseq
  obtain ⟨u, rfl, -, rfl⟩ := treesBy_right_mark hus
  rfl

theorem built_binders {bs : List Binder}
    (h : Rule.binders.pattern.TreesBy (Represents source) ts bs) :
    Built source .binders (.node .binders offset chars ts) bs := by
  have hbs := forall₂_of_treesBy_commaList (r := .binder) h
  exact mapM_eq_ok_iff.2 (hbs.imp fun _ _ hb => hb.2)

theorem built_returnType {type : String}
    (h : Rule.returnType.pattern.TreesBy (Represents source) ts type) :
    Built source .returnType (.node .returnType offset chars ts) type := by
  obtain ⟨t, rfl, -, rfl⟩ := treesBy_right_mark h
  rfl

/-- The keyword is passed over, the name and the fields are not. -/
theorem built_struct {d : StructDef} (h : Rule.struct.pattern.TreesBy (Represents source) ts d) :
    Built source .struct (.node .struct offset chars ts) d := by
  obtain ⟨⟨name, fields⟩, hseq, rfl⟩ := h
  obtain ⟨k, us, rfl, ⟨hk, -⟩, hus⟩ := treesBy_right_keyword hseq
  obtain ⟨x, us, rfl, ⟨hx, rfl⟩, hus⟩ := treesBy_seq_rule hus
  obtain ⟨bs, rfl, hbs, hfields⟩ := treesBy_left_mark (treesBy_right_mark hus)
  have hfields : bs.children.mapM (toBinder source) = .ok fields := hfields
  have hchildren : significant (.node .struct offset chars [k, x, bs]) = [x, bs] := by
    simp [significant, isSignificant, hk, hx, hbs]
  show toStruct source _ = _
  rw [toStruct, hchildren]
  simp [addToStruct, hx, hbs, hfields]

/-- The nodes of a parameter list, and of a return type where one is written. -/
theorem treesBy_signature {params : List Binder} {returnType : String}
    (h : Rule.signature.TreesBy (Represents source) ts (params, returnType)) :
    ∃ bs rs, ts = bs :: rs ∧ bs.rule = .binders ∧
      bs.children.mapM (toBinder source) = .ok params ∧
      (rs = [] ∧ returnType = unitType ∨
        ∃ t, rs = [t] ∧ t.rule = .returnType ∧ t.toReturnType source = .ok returnType) := by
  obtain ⟨⟨params, result⟩, ⟨us, rs, rfl, hus, hrs⟩, heq⟩ := h
  cases heq
  obtain ⟨bs, rfl, hbs, hparams⟩ := treesBy_left_mark (treesBy_right_mark hus)
  refine ⟨bs, rs, rfl, hbs, hparams, ?_⟩
  rcases hrs with ⟨rfl, hnone⟩ | ⟨type, hsome, t, rfl, ht, htype⟩
  · cases hnone
    exact Or.inl ⟨rfl, rfl⟩
  · cases hsome
    exact Or.inr ⟨t, rfl, ht, htype⟩

/-- The walker finds the parts of a function by their rules, in any order. -/
theorem built_function {d : FunctionDef Literal}
    (h : Rule.function.pattern.TreesBy (Represents source) ts d) :
    Built source .function (.node .function offset chars ts) d := by
  obtain ⟨⟨pub, name, ⟨params, returnType⟩, body⟩, ⟨ps, us, rfl, hps, hus⟩, rfl⟩ := h
  obtain ⟨k, us, rfl, ⟨hk, -⟩, hus⟩ := treesBy_right_keyword hus
  obtain ⟨x, us, rfl, ⟨hx, rfl⟩, hus⟩ := treesBy_seq_rule hus
  obtain ⟨us, ws, rfl, hsig, b, rfl, hb, hbody⟩ := hus
  obtain ⟨bs, rs, rfl, hbs, hparams, hrs⟩ := treesBy_signature hsig
  have hbody : b.children.mapM (toStmt source) =
    body.mapM (Stmt.traverse (Literal.resolve source)) := hbody
  show toFunction source _ = FunctionDef.traverse _ _
  -- `pub` and the return type may be there or not
  rcases hps with ⟨rfl, rfl⟩ | ⟨y, rfl, p, rfl, hp, -⟩ <;>
    rcases hrs with ⟨rfl, rfl⟩ | ⟨r, rfl, hr, hresult⟩ <;>
    simp [toFunction, significant, isSignificant, addToFunction, FunctionDef.traverse, ok_bind, *]

theorem built_hostFunction {d : HostFunction}
    (h : Rule.hostFunction.pattern.TreesBy (Represents source) ts d) :
    Built source .hostFunction (.node .hostFunction offset chars ts) d := by
  obtain ⟨⟨path, name, ⟨params, returnType⟩⟩, hseq, rfl⟩ := h
  obtain ⟨i, us, rfl, ⟨hi, -⟩, hus⟩ := treesBy_right_keyword hseq
  obtain ⟨p, us, rfl, ⟨hp, rfl⟩, hus⟩ := treesBy_seq_rule hus
  obtain ⟨a, us, rfl, ⟨ha, -⟩, hus⟩ := treesBy_right_keyword hus
  obtain ⟨k, us, rfl, ⟨hk, -⟩, hus⟩ := treesBy_right_keyword hus
  obtain ⟨x, us, rfl, ⟨hx, rfl⟩, hus⟩ := treesBy_seq_rule hus
  obtain ⟨bs, rs, rfl, hbs, hparams, hrs⟩ := treesBy_signature (treesBy_left_mark hus)
  show toHostFunction source _ = _
  -- all that may be missing is the return type
  rcases hrs with ⟨rfl, rfl⟩ | ⟨r, rfl, hr, hresult⟩ <;>
    simp [toHostFunction, significant, isSignificant, addToHost, ok_bind, *]

/-- Declarations one by one, and then the end of the text. -/
theorem toDecls_eq {tss : List (List SyntaxTree)} {p : Program Literal} {t : SyntaxTree}
    (h : List.Forall₂ (Rule.declaration.TreesBy (Represents source)) tss p)
    (ht : t.rule = .endOfText) :
    toDecls source (tss.flatten ++ [t]) = p.mapM (Decl.traverse (Literal.resolve source)) := by
  induction h with
  | nil => simp [toDecls, ht]
  | cons hd _ ih =>
    rw [List.flatten_cons, List.append_assoc, List.mapM_cons, ← ih]
    rcases hd with ⟨d, ⟨t, rfl, hrule, hd⟩, rfl⟩ | ⟨d, ⟨t, rfl, hrule, hd⟩, rfl⟩ |
      ⟨d, ⟨t, rfl, hrule, hd⟩, rfl⟩
    · have hd : toStruct source t = .ok d := hd
      simp [toDecls, hrule, hd, Decl.traverse, ok_bind]
    · have hd : toFunction source t = d.traverse (Literal.resolve source) := hd
      simp [toDecls, hrule, hd, Decl.traverse]
    · have hd : toHostFunction source t = .ok d := hd
      simp [toDecls, hrule, hd, Decl.traverse, ok_bind]

theorem built_program {p : Program Literal}
    (h : Rule.program.pattern.TreesBy (Represents source) ts p) :
    Built source .program (.node .program offset chars ts) p := by
  obtain ⟨⟨x, p⟩, ⟨us, ws, rfl, hus, hws⟩, rfl⟩ := h
  obtain rfl : us = [] := hus
  obtain ⟨⟨p, y⟩, ⟨us, ws, rfl, ⟨tss, rfl, hdecls⟩, t, rfl, ht, -⟩, rfl⟩ := hws
  exact toDecls_eq hdecls ht

/-! ## Statements -/

theorem built_letStmt {s : Stmt Literal}
    (h : Rule.letStmt.pattern.TreesBy (Represents source) ts s) :
    Built source .letStmt (.node .letStmt offset chars ts) s := by
  obtain ⟨⟨name, value⟩, hseq, rfl⟩ := h
  obtain ⟨k, us, rfl, ⟨hk, -⟩, hus⟩ := treesBy_right_keyword hseq
  obtain ⟨x, us, rfl, ⟨hx, rfl⟩, hus⟩ := treesBy_seq_rule hus
  obtain ⟨e, rfl, he, hvalue⟩ := treesBy_left_mark (treesBy_right_mark hus)
  have hvalue : toExpr source e = value.traverse (Literal.resolve source) := hvalue
  show toStmt source _ = _
  simp [toStmt, significant, isSignificant, hk, hx, he, nextChild, ok_bind, hvalue, Stmt.traverse]

theorem built_returnStmt {s : Stmt Literal}
    (h : Rule.returnStmt.pattern.TreesBy (Represents source) ts s) :
    Built source .returnStmt (.node .returnStmt offset chars ts) s := by
  obtain ⟨value, hseq, rfl⟩ := h
  obtain ⟨k, us, rfl, ⟨hk, -⟩, hus⟩ := treesBy_right_keyword hseq
  obtain ⟨e, rfl, he, hvalue⟩ := treesBy_left_mark hus
  have hvalue : toExpr source e = value.traverse (Literal.resolve source) := hvalue
  show toStmt source _ = _
  simp [toStmt, significant, isSignificant, hk, he, nextChild, ok_bind, hvalue, Stmt.traverse]

theorem built_exprStmt {s : Stmt Literal}
    (h : Rule.exprStmt.pattern.TreesBy (Represents source) ts s) :
    Built source .exprStmt (.node .exprStmt offset chars ts) s := by
  obtain ⟨value, hseq, rfl⟩ := h
  obtain ⟨e, rfl, he, hvalue⟩ := treesBy_left_mark hseq
  have hvalue : toExpr source e = value.traverse (Literal.resolve source) := hvalue
  show toStmt source _ = _
  simp [toStmt, significant, isSignificant, he, nextChild, ok_bind, hvalue, Stmt.traverse]

/-- A block is walked statement by statement. -/
theorem built_block {body : List (Stmt Literal)}
    (h : Rule.block.pattern.TreesBy (Represents source) ts body) :
    Built source .block (.node .block offset chars ts) body := by
  have hstmt : ∀ us s, Rule.statement.TreesBy (Represents source) us s →
      ∃ t, us = [t] ∧ toStmt source t = s.traverse (Literal.resolve source) := by
    rintro us s (⟨t, rfl, -, ht⟩ | ⟨t, rfl, -, ht⟩ | ⟨t, rfl, -, ht⟩)
    · exact ⟨t, rfl, ht⟩
    · exact ⟨t, rfl, ht⟩
    · exact ⟨t, rfl, ht⟩
  have hstmts := forall₂_of_treesBy_many hstmt (treesBy_left_mark (treesBy_right_mark h))
  exact mapM_eq_mapM_of_forall₂ hstmts

/-! ## Expressions -/

/-- Nodes of expressions, one by one. -/
theorem toExprs_eq {es : List (Expr Literal)}
    (h : List.Forall₂ (fun t e => toExpr source t = e.traverse (Literal.resolve source)) ts es) :
    toExprs source ts = Expr.traverseAll (Literal.resolve source) es := by
  induction h with
  | nil => rfl
  | cons he _ ih => rw [toExprs, Expr.traverseAll, he, ih]

/-- Nodes of argument lists, one by one. -/
theorem toLists_eq {ess : List (List (Expr Literal))}
    (h : List.Forall₂ (Represents source .arguments) ts ess) :
    toLists source ts = Expr.traverseLists (Literal.resolve source) ess := by
  induction h with
  | nil => rfl
  | @cons t es ts ess ht _ ih =>
    obtain ⟨rule, offset, chars, arguments⟩ := t
    have hes : toExprs source arguments = Expr.traverseAll (Literal.resolve source) es := ht.2
    rw [toLists, Expr.traverseLists, hes, ih]

/-- A chain of one operand is that operand, before and after its constants are visited. -/
theorem traverse_chain (make : List (Expr Int) → Expr Int)
    (node chain : List (Expr Literal) → Expr Literal) {f : Literal → Except ParseFailure Int}
    (hnode : ∀ es, (node es).traverse f = (do return make (← Expr.traverseAll f es)))
    (hnil : chain [] = node []) (hone : ∀ e, chain [e] = e)
    (hmany : ∀ e e' es, chain (e :: e' :: es) = node (e :: e' :: es)) :
    ∀ es, (chain es).traverse f = (do return chainOf make (← Expr.traverseAll f es))
  | [] => by simp [hnil, hnode, Expr.traverseAll, chainOf]
  | [e] => by simp [hone, Expr.traverseAll, chainOf]
  | e :: e' :: es => by simp [hmany, hnode, Expr.traverseAll, chainOf]

theorem built_sum {e : Expr Literal} (h : Rule.sum.pattern.TreesBy (Represents source) ts e) :
    Built source .sum (.node .sum offset chars ts) e := by
  obtain ⟨es, hseq, rfl⟩ := h
  have hes := forall₂_of_treesBy_separated (r := .product) hseq
  show (do return chainOf .sum (← toExprs source ts)) = (sumOf es).traverse _
  rw [toExprs_eq (hes.imp fun _ _ he => he.2)]
  exact (traverse_chain .sum .sum sumOf (fun _ => rfl) rfl (fun _ => rfl)
    (fun _ _ _ => rfl) es).symm

theorem built_product {e : Expr Literal}
    (h : Rule.product.pattern.TreesBy (Represents source) ts e) :
    Built source .product (.node .product offset chars ts) e := by
  obtain ⟨es, hseq, rfl⟩ := h
  have hes := forall₂_of_treesBy_separated (r := .call) hseq
  show (do return chainOf .product (← toExprs source ts)) = (productOf es).traverse _
  rw [toExprs_eq (hes.imp fun _ _ he => he.2)]
  exact (traverse_chain .product .product productOf (fun _ => rfl) rfl (fun _ => rfl)
    (fun _ _ _ => rfl) es).symm

theorem built_arguments {es : List (Expr Literal)}
    (h : Rule.arguments.pattern.TreesBy (Represents source) ts es) :
    Built source .arguments (.node .arguments offset chars ts) es := by
  have hes := forall₂_of_treesBy_commaList (r := .sum) (treesBy_left_mark (treesBy_right_mark h))
  exact toExprs_eq (hes.imp fun _ _ he => he.2)

/-- A callee with argument lists, in an expression or as a statement. -/
theorem toCall_eq {t : SyntaxTree} {callee : Expr Literal} {lists : List (List (Expr Literal))}
    (ht : toExpr source t = callee.traverse (Literal.resolve source))
    (hts : List.Forall₂ (Represents source .arguments) ts lists) :
    toCall source offset (t :: ts) = (callOf callee lists).traverse (Literal.resolve source) := by
  rw [toCall, ht, toLists_eq hts]
  cases lists with
  | nil => simp [callOf, Expr.traverseLists]
  | cons es lists => simp [callOf, Expr.traverseLists, Expr.traverse]

theorem built_call {e : Expr Literal} (h : Rule.call.pattern.TreesBy (Represents source) ts e) :
    Built source .call (.node .call offset chars ts) e := by
  obtain ⟨⟨callee, lists⟩, hseq, rfl⟩ := h
  obtain ⟨t, us, rfl, ⟨-, ht⟩, hus⟩ := treesBy_seq_rule hseq
  show toCall source offset _ = _
  exact toCall_eq ht (forall₂_of_treesBy_many (p := .rule .arguments) (fun _ _ h => h) hus)

/-- A call as a statement has its first argument list apart from the others. -/
theorem built_callStmt {e : Expr Literal}
    (h : Rule.callStmt.pattern.TreesBy (Represents source) ts e) :
    Built source .callStmt (.node .callStmt offset chars ts) e := by
  obtain ⟨⟨callee, lists⟩, hseq, rfl⟩ := h
  obtain ⟨t, us, rfl, ⟨-, ht⟩, ⟨list, lists⟩, hus, rfl⟩ := treesBy_seq_rule hseq
  obtain ⟨a, us, rfl, ha, hus⟩ := treesBy_seq_rule hus
  show toCall source offset _ = _
  have hlists := forall₂_of_treesBy_many (p := .rule .arguments) (fun _ _ h => h) hus
  exact toCall_eq ht (.cons ha hlists)

/-- A literal, a name, or what stands between parentheses. -/
theorem treesBy_primary {e : Expr Literal}
    (h : Rule.primary.TreesBy (Represents source) ts e) :
    ∃ t, ts = [t] ∧ toExpr source t = e.traverse (Literal.resolve source) := by
  rcases h with ⟨l, ⟨t, rfl, hrule, hl⟩, rfl⟩ | ⟨x, ⟨t, rfl, hrule, hx⟩, rfl⟩ | h
  · obtain ⟨rule, offset, chars, children⟩ := t
    obtain rfl : rule = .number := hrule
    obtain rfl : l = ⟨offset, String.ofList chars⟩ := hl
    exact ⟨_, rfl, rfl⟩
  · obtain ⟨rule, offset, chars, children⟩ := t
    obtain rfl : rule = .ident := hrule
    obtain rfl : String.ofList chars = x := hx
    exact ⟨_, rfl, rfl⟩
  · obtain ⟨t, rfl, -, ht⟩ := treesBy_left_mark (treesBy_right_mark h)
    exact ⟨t, rfl, ht⟩

/-- The names are read off the texts of the nodes. -/
theorem built_dotted {e : Expr Literal}
    (h : Rule.dotted.pattern.TreesBy (Represents source) ts e) :
    Built source .dotted (.node .dotted offset chars ts) e := by
  obtain ⟨⟨receiver, names⟩, ⟨us, ws, rfl, hus, hws⟩, rfl⟩ := h
  obtain ⟨t, rfl, ht⟩ := treesBy_primary hus
  have hnames : List.Forall₂ (Represents source .ident) ws names :=
    forall₂_of_treesBy_many (fun _ _ => treesBy_right_mark) hws
  have htexts : ws.map text = names := by
    have hforall : List.Forall₂ Eq (ws.map text) names :=
      List.forall₂_map_left_iff.2 (hnames.imp fun _ _ hx => hx.2)
    rwa [List.forall₂_eq_eq_eq] at hforall
  show toAccess source offset (t :: ws) = (fieldOf receiver names).traverse _
  rw [toAccess, ht, htexts, fieldOf]
  cases hnames with
  | nil => simp
  | cons _ _ => simp [Expr.traverse]

/-! ## Trees of texts -/

/-- **Nodes of the grammar** stand for the values of their rules if their children do. -/
theorem built_node {n : Nat} {r : Rule} {c c' : Cursor} {v : r.Value}
    (hread : r.pattern.read (Rule.read n) c = some (v, c'))
    (h : r.pattern.TreesBy (Represents source) ts v) :
    Built source r (.node r c.offset (c.span c') ts) v := by
  cases r with
  | endOfText => trivial
  | keyword k => trivial
  | ident => exact (Lexeme.span_of_scan hread).2.symm
  | number => exact (Lexeme.span_of_scan hread).2
  | hostPath => exact (Lexeme.span_of_scan hread).2.symm
  | typeName =>
    obtain ⟨htext, hword⟩ := Rule.read_ident hread
    show trimmed (String.ofList (c.span c')) = v
    rw [htext, trimmed_eq_self hword]
  | program => exact built_program h
  | binder => exact built_binder h
  | binders => exact built_binders h
  | returnType => exact built_returnType h
  | struct => exact built_struct h
  | function => exact built_function h
  | block => exact built_block h
  | hostFunction => exact built_hostFunction h
  | letStmt => exact built_letStmt h
  | returnStmt => exact built_returnStmt h
  | exprStmt => exact built_exprStmt h
  | sum => exact built_sum h
  | product => exact built_product h
  | call => exact built_call h
  | callStmt => exact built_callStmt h
  | arguments => exact built_arguments h
  | dotted => exact built_dotted h

end Built

/-- **The walker never gives up on the shape of a tree**: a text has a tree exactly when it matches
the grammar, and the tree is walked to the program that the text stands for. -/
theorem map_toProgram_syntaxTree? (source : List Char) :
    (syntaxTree? source).map (toProgram source) =
      (matchProgram source).toOption.map (Program.traverse (Literal.resolve source)) := by
  have hagrees := Rule.readTree_agrees (R := Represents source)
    (fun _ _ _ _ _ _ hread hts => ⟨rfl, built_node hread hts⟩)
    (depthBound source) .program (.start source)
  have hmatch : ∀ p, (matchProgram source).toOption = some p ↔
      ∃ c, Rule.read (depthBound source) .program (.start source) = some (p, c) := by
    intro p
    rw [toOption_eq_some_iff, matchProgram_eq_ok_iff]
  rw [syntaxTree?]
  generalize Rule.readTree (depthBound source) .program (.start source) = x at hagrees ⊢
  generalize Rule.read (depthBound source) .program (.start source) = y at hagrees hmatch
  -- both readers match the text or none does
  cases hagrees with
  | none =>
    have hnone : (matchProgram source).toOption = none :=
      Option.eq_none_iff_forall_ne_some.2 fun p hp => by simpa using (hmatch p).1 hp
    rw [hnone]
    rfl
  | @some a b hab =>
    rw [(hmatch b.1).2 ⟨b.2, rfl⟩]
    exact congrArg some hab.1.2

end Kelp.Grammar
