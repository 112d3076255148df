import Kelp.Proofs.Grammar.Phrases

/-!
# Trees

The patterns of the rules derive what the productions of the language do, with the same trees once
literals are resolved.

- `Nonterminal.Read` says how each kind of phrase is read by patterns, and `Nonterminal.Reads` that
  it is so for any tokens with the terminals of the phrase.
- The lemmas `reads_…` go from the parts of a phrase to the phrase, one production at a time.
  `Nonterminal.Derives.read` puts them together, by induction on the derivation.
- `exists_derives_program_iff` adds the direction from patterns to phrases.
-/

namespace Kelp.Grammar

section Trees

variable {ε : Type} {f : Literal → Except ε Int}

/-- How the patterns derive a phrase and its tree from tokens in a text. -/
def Nonterminal.Read (f : Literal → Except ε Int) : (n : Nonterminal) → List Token → n.Value → Prop
  | .program, ts, p =>
    ∃ q, (Pattern.many Rule.declaration).DerivesBy Rule.Derives ts q ∧
      q.mapM (Decl.traverse f) = .ok p
  | .declaration, ts, d => ∃ q, Rule.declaration.DerivesBy Rule.Derives ts q ∧ q.traverse f = .ok d
  | .binders, ts, bs => Rule.Derives .binders ts bs
  | .moreBinders, ts, bs => Items .comma true (Rule.Derives .binder) ts bs
  | .result, ts, r =>
    ∃ type, (Pattern.opt (.rule .returnType)).DerivesBy Rule.Derives ts type ∧
      r = type.getD unitType
  | .statements, ts, ss =>
    ∃ q, (Pattern.many Rule.statement).DerivesBy Rule.Derives ts q ∧
      q.mapM (Stmt.traverse f) = .ok ss
  | .statement, ts, s => ∃ q, Rule.statement.DerivesBy Rule.Derives ts q ∧ q.traverse f = .ok s
  | .sum, ts, e => ∃ q, Rule.Derives .sum ts q ∧ q.traverse f = .ok e
  | .moreSummands, ts, es =>
    ∃ q, Items .plus false (Rule.Derives .product) ts q ∧ Expr.traverseAll f q = .ok es
  | .product, ts, e => ∃ q, Rule.Derives .product ts q ∧ q.traverse f = .ok e
  | .moreFactors, ts, es =>
    ∃ q, Items .times false (Rule.Derives .call) ts q ∧ Expr.traverseAll f q = .ok es
  | .call, ts, e => ∃ q, Rule.Derives .call ts q ∧ q.traverse f = .ok e
  | .argumentLists, ts, ess =>
    ∃ q, (Pattern.many (.rule .arguments)).DerivesBy Rule.Derives ts q ∧
      Expr.traverseLists f q = .ok ess
  | .arguments, ts, es => ∃ q, Rule.Derives .arguments ts q ∧ Expr.traverseAll f q = .ok es
  | .moreArguments, ts, es =>
    ∃ q, Items .comma true (Rule.Derives .sum) ts q ∧ Expr.traverseAll f q = .ok es
  | .dotted, ts, e => ∃ q, Rule.Derives .dotted ts q ∧ q.traverse f = .ok e
  | .accessors, ts, names => Items .dot false (Rule.Derives .ident) ts names
  | .primary, ts, e => ∃ q, Rule.primary.DerivesBy Rule.Derives ts q ∧ q.traverse f = .ok e

/-! ## Declarations

The tokens of a declaration are told apart one by one, with the phrases in between. -/

theorem derives_struct_of {k x o c : Token} {us : List Token} {name : String}
    {fields : List Binder} (hk : k.terminal = .keyword .kwStruct) (hx : x.terminal = .ident name)
    (ho : o.terminal = .mark .openBrace) (hc : c.terminal = .mark .closeBrace)
    (h : Rule.Derives .binders us fields) :
    Rule.Derives .struct (k :: x :: o :: (us ++ [c])) { name, fields } :=
  Rule.derives_iff.2 ⟨(name, fields), derivesBy_right_keyword.2 ⟨k, _, rfl, hk,
    derivesBy_seq_ident.2 ⟨x, _, rfl, hx, derivesBy_right_mark.2 ⟨o, _, rfl, ho,
      derivesBy_left_mark.2 ⟨us, c, rfl, hc, h⟩⟩⟩⟩, rfl⟩

/-- A function, with `pub` in front or without. -/
theorem derives_function_of {pub sig blk : List Token} {k x : Token} {isPublic : Bool}
    {name returnType : String} {params : List Binder} {body : List (Stmt Literal)}
    (hpub : terminals pub = if isPublic then [.keyword .kwPub] else [])
    (hk : k.terminal = .keyword .kwFn) (hx : x.terminal = .ident name)
    (hsig : Rule.signature.DerivesBy Rule.Derives sig (params, returnType))
    (hblk : Rule.Derives .block blk body) :
    Rule.Derives .function (pub ++ k :: x :: (sig ++ blk))
      { isPublic, name, params, returnType, body } := by
  have hrest : (Pattern.right (.keyword .kwFn) (.seq (.rule .ident)
      (.seq Rule.signature (.rule .block)))).DerivesBy Rule.Derives (k :: x :: (sig ++ blk))
        (name, (params, returnType), body) :=
    derivesBy_right_keyword.2 ⟨k, _, rfl, hk, derivesBy_seq_ident.2
      ⟨x, _, rfl, hx, sig, blk, rfl, hsig, hblk⟩⟩
  cases isPublic with
  | true =>
    exact Rule.derives_iff.2 ⟨(some (), name, (params, returnType), body),
      ⟨pub, _, rfl, Or.inr ⟨(), rfl, Rule.derives_keyword.2 hpub⟩, hrest⟩, rfl⟩
  | false =>
    exact Rule.derives_iff.2 ⟨(none, name, (params, returnType), body),
      ⟨pub, _, rfl, Or.inl ⟨List.map_eq_nil_iff.1 hpub, rfl⟩, hrest⟩, rfl⟩

/-- A host function, whose path is one token. -/
theorem derives_host_of {i path k k' x s : Token} {sig : List Token} {dotted name : String}
    {params : List Binder} {returnType : String} (hi : i.terminal = .keyword .kwImport)
    (hpath : path.terminal = .hostPath dotted) (hk : k.terminal = .keyword .kwAs)
    (hk' : k'.terminal = .keyword .kwFn) (hx : x.terminal = .ident name)
    (hs : s.terminal = .mark .semicolon)
    (hsig : Rule.signature.DerivesBy Rule.Derives sig (params, returnType)) :
    Rule.Derives .hostFunction (i :: path :: k :: k' :: x :: (sig ++ [s]))
      { path := dotted, name, params, returnType } := by
  have hrest : (Pattern.right (.keyword .kwAs) (.right (.keyword .kwFn)
      (.seq (.rule .ident) (.left Rule.signature (.mark .semicolon))))).DerivesBy Rule.Derives
        (k :: k' :: x :: (sig ++ [s])) (name, params, returnType) :=
    derivesBy_right_keyword.2 ⟨k, _, rfl, hk, derivesBy_right_keyword.2 ⟨k', _, rfl, hk',
      derivesBy_seq_ident.2 ⟨x, _, rfl, hx, derivesBy_left_mark.2 ⟨sig, s, rfl, hs, hsig⟩⟩⟩⟩
  have hdotted : Rule.Derives .hostPath [path] dotted :=
    Rule.derives_hostPath.2 (terminals_eq_singleton_iff.2 ⟨path, rfl, hpath⟩)
  exact Rule.derives_iff.2 ⟨(dotted, name, params, returnType), derivesBy_right_keyword.2
    ⟨i, _, rfl, hi, [path], _, rfl, hdotted, hrest⟩, rfl⟩

/-! ## Statements

A statement of each kind, from its tokens. All of them end with a semicolon. -/

theorem derives_letStmt_of {k x q s : Token} {us : List Token} {name : String} {e : Expr Literal}
    (hk : k.terminal = .keyword .kwLet) (hx : x.terminal = .ident name)
    (hq : q.terminal = .mark .equals) (hs : s.terminal = .mark .semicolon)
    (h : Rule.Derives .sum us e) :
    Rule.Derives .letStmt (k :: x :: q :: (us ++ [s])) (.bind name e) :=
  Rule.derives_iff.2 ⟨(name, e), derivesBy_right_keyword.2 ⟨k, _, rfl, hk,
    derivesBy_seq_ident.2 ⟨x, _, rfl, hx, derivesBy_right_mark.2 ⟨q, _, rfl, hq,
      derivesBy_left_mark.2 ⟨us, s, rfl, hs, h⟩⟩⟩⟩, rfl⟩

theorem derives_returnStmt_of {k s : Token} {us : List Token} {e : Expr Literal}
    (hk : k.terminal = .keyword .kwReturn) (hs : s.terminal = .mark .semicolon)
    (h : Rule.Derives .sum us e) :
    Rule.Derives .returnStmt (k :: (us ++ [s])) (.ret e) :=
  Rule.derives_iff.2 ⟨e, derivesBy_right_keyword.2 ⟨k, _, rfl, hk,
    derivesBy_left_mark.2 ⟨us, s, rfl, hs, h⟩⟩, rfl⟩

/-- An expression is a statement only as a call with at least one argument list. -/
theorem derives_exprStmt_of {us ws ws' : List Token} {s : Token} {e : Expr Literal}
    {es : List (Expr Literal)} {ess : List (List (Expr Literal))}
    (hs : s.terminal = .mark .semicolon) (he : Rule.Derives .dotted us e)
    (hes : Rule.Derives .arguments ws es)
    (hess : (Pattern.many (.rule .arguments)).DerivesBy Rule.Derives ws' ess) :
    Rule.Derives .exprStmt ((us ++ (ws ++ ws')) ++ [s]) (.eval (.call e (es :: ess))) := by
  have hcall : Rule.Derives .callStmt (us ++ (ws ++ ws')) (.call e (es :: ess)) :=
    Rule.derives_iff.2 ⟨(e, es :: ess), ⟨us, ws ++ ws', rfl, he, (es, ess),
      ⟨ws, ws', rfl, hes, hess⟩, rfl⟩, rfl⟩
  exact Rule.derives_iff.2 ⟨_, derivesBy_left_mark.2 ⟨_, s, rfl, hs, hcall⟩, rfl⟩

/-! ## Expressions

Each level of precedence, from the level below and the chain behind it. -/

theorem derives_sum_of {us ws : List Token} {e : Expr Literal} {es : List (Expr Literal)}
    (he : Rule.Derives .product us e) (hes : Items .plus false (Rule.Derives .product) ws es) :
    Rule.Derives .sum (us ++ ws) (sumOf (e :: es)) :=
  Rule.derives_iff.2 ⟨e :: es, derivesBy_separated.2 ⟨us, ws, e, es, rfl, rfl, he, hes⟩, rfl⟩

theorem derives_product_of {us ws : List Token} {e : Expr Literal} {es : List (Expr Literal)}
    (he : Rule.Derives .call us e) (hes : Items .times false (Rule.Derives .call) ws es) :
    Rule.Derives .product (us ++ ws) (productOf (e :: es)) :=
  Rule.derives_iff.2 ⟨e :: es, derivesBy_separated.2 ⟨us, ws, e, es, rfl, rfl, he, hes⟩, rfl⟩

theorem derives_call_of {us ws : List Token} {e : Expr Literal} {ess : List (List (Expr Literal))}
    (he : Rule.Derives .dotted us e)
    (hess : (Pattern.many (.rule .arguments)).DerivesBy Rule.Derives ws ess) :
    Rule.Derives .call (us ++ ws) (callOf e ess) :=
  Rule.derives_iff.2 ⟨(e, ess), ⟨us, ws, rfl, he, hess⟩, rfl⟩

theorem derives_dotted_of {us ws : List Token} {e : Expr Literal} {names : List String}
    (he : Rule.primary.DerivesBy Rule.Derives us e)
    (hnames : Items .dot false (Rule.Derives .ident) ws names) :
    Rule.Derives .dotted (us ++ ws) (fieldOf e names) :=
  Rule.derives_iff.2 ⟨(e, names), ⟨us, ws, rfl, he, derivesBy_many_right.2 hnames⟩, rfl⟩

theorem derives_arguments_of {o c : Token} {us : List Token} {es : List (Expr Literal)}
    (ho : o.terminal = .mark .openParen) (hc : c.terminal = .mark .closeParen)
    (h : (Pattern.commaList (.rule .sum)).DerivesBy Rule.Derives us es) :
    Rule.Derives .arguments (o :: (us ++ [c])) es :=
  Rule.derives_iff.2 (derivesBy_right_mark.2 ⟨o, _, rfl, ho,
    derivesBy_left_mark.2 ⟨us, c, rfl, hc, h⟩⟩)

theorem derivesBy_many_cons {D : (r : Rule) → List Token → r.Value → Prop} {α : Type}
    {body : Pattern α} {us ws : List Token} {x : α} {xs : List α} (hx : body.DerivesBy D us x)
    (hxs : (Pattern.many body).DerivesBy D ws xs) :
    (Pattern.many body).DerivesBy D (us ++ ws) (x :: xs) := by
  obtain ⟨tss, rfl, hrounds⟩ := hxs
  exact ⟨us :: tss, rfl, .cons hx hrounds⟩

theorem derivesBy_many_nil {D : (r : Rule) → List Token → r.Value → Prop} {α : Type}
    {body : Pattern α} : (Pattern.many body).DerivesBy D [] [] :=
  ⟨[], rfl, .nil⟩

/-! ## Chains

Sums, products and argument lists are chains of items, whose literals are resolved item by item. -/

section Chains

variable {m : Mark} {trailing : Bool} {D : List Token → Expr Literal → Prop}

theorem exists_items_nil :
    ∃ q, Items m trailing D [] q ∧ Expr.traverseAll f q = .ok [] :=
  ⟨[], .nil, Expr.traverseAll_nil_eq_ok_iff.2 rfl⟩

/-- One more item in front of a chain. -/
theorem exists_items_cons {t : Token} (ht : t.terminal = .mark m) {us ws : List Token}
    {e : Expr Int} (he : ∃ q, D us q ∧ q.traverse f = .ok e) {es : List (Expr Int)}
    (hes : ∃ q, Items m trailing D ws q ∧ Expr.traverseAll f q = .ok es) :
    ∃ q, Items m trailing D (t :: (us ++ ws)) q ∧ Expr.traverseAll f q = .ok (e :: es) := by
  obtain ⟨q, hq, he⟩ := he
  obtain ⟨qs, hqs, hes⟩ := hes
  exact ⟨q :: qs, .cons ht hq hqs, Expr.traverseAll_cons_eq_ok_iff.2 ⟨_, _, he, hes, rfl⟩⟩

/-- A chain with at least two operands. What is put together from the operands as written, by
`node`, resolves to what is put together from the operands as resolved, by `node'`. -/
theorem exists_chain {D' : List Token → Expr Literal → Prop}
    (node : List (Expr Literal) → Expr Literal) (node' : List (Expr Int) → Expr Int)
    (hD : ∀ us ws e x xs, D us e → Items m false D ws (x :: xs) →
      D' (us ++ ws) (node (e :: x :: xs)))
    (hnode : ∀ qs vs, Expr.traverseAll f qs = .ok vs → (node qs).traverse f = .ok (node' vs))
    {us ws : List Token} {e : Expr Int} (he : ∃ q, D us q ∧ q.traverse f = .ok e)
    {es : List (Expr Int)} (hes : ∃ q, Items m false D ws q ∧ Expr.traverseAll f q = .ok es)
    (hne : es ≠ []) :
    ∃ q, D' (us ++ ws) q ∧ q.traverse f = .ok (node' (e :: es)) := by
  obtain ⟨q, hq, he⟩ := he
  obtain ⟨qs, hqs, hes⟩ := hes
  cases qs with
  -- a chain of one operand would be read as the operand itself
  | nil => exact absurd (Expr.traverseAll_nil_eq_ok_iff.1 hes) hne
  | cons x xs =>
    refine ⟨_, hD us ws q x xs hq hqs, hnode _ _ ?_⟩
    exact Expr.traverseAll_cons_eq_ok_iff.2 ⟨_, _, he, hes, rfl⟩

end Chains

/-! ## From phrases to patterns -/

/-- Any tokens with the given terminals are read as the phrase. -/
def Nonterminal.Reads (f : Literal → Except ε Int) (n : Nonterminal) (ks : List Terminal)
    (v : n.Value) : Prop :=
  ∀ ts, terminals ts = ks → n.Read f ts v

/-- A phrase without tokens. -/
theorem reads_nil {n : Nonterminal} {v : n.Value} (h : n.Read f [] v) : n.Reads f [] v := by
  intro ts hts
  rw [List.map_eq_nil_iff.1 hts]
  exact h

/-- A phrase of one token. -/
theorem reads_singleton {n : Nonterminal} {k : Terminal} {v : n.Value}
    (h : ∀ t : Token, t.terminal = k → n.Read f [t] v) : n.Reads f [k] v := by
  intro ts hts
  obtain ⟨t, rfl, ht⟩ := terminals_eq_singleton_iff.1 hts
  exact h t ht

/-- A phrase that consists of two phrases. -/
theorem reads_append {n₁ n₂ n : Nonterminal} {ks ls : List Terminal} {v₁ : n₁.Value}
    {v₂ : n₂.Value} {v : n.Value} (h₁ : n₁.Reads f ks v₁) (h₂ : n₂.Reads f ls v₂)
    (h : ∀ us ws, n₁.Read f us v₁ → n₂.Read f ws v₂ → n.Read f (us ++ ws) v) :
    n.Reads f (ks ++ ls) v := by
  intro ts hts
  obtain ⟨us, ws, rfl, hus, hws⟩ := exists_append_of_terminals hts
  exact h us ws (h₁ us hus) (h₂ ws hws)

/-- A phrase that consists of a token and two phrases. -/
theorem reads_cons_append {n₁ n₂ n : Nonterminal} {k : Terminal} {ks ls : List Terminal}
    {v₁ : n₁.Value} {v₂ : n₂.Value} {v : n.Value} (h₁ : n₁.Reads f ks v₁) (h₂ : n₂.Reads f ls v₂)
    (h : ∀ t us ws, t.terminal = k → n₁.Read f us v₁ → n₂.Read f ws v₂ →
      n.Read f (t :: (us ++ ws)) v) :
    n.Reads f (k :: (ks ++ ls)) v := by
  intro ts hts
  obtain ⟨t, ts, rfl, ht, hts⟩ := exists_cons_of_terminals hts
  obtain ⟨us, ws, rfl, hus, hws⟩ := exists_append_of_terminals hts
  exact h t us ws ht (h₁ us hus) (h₂ ws hws)

/-! ### Declarations -/

theorem reads_struct {name : String} {fs : List Terminal} {fields : List Binder}
    (h : Nonterminal.Reads f .binders fs fields) :
    Nonterminal.Reads f .declaration
      ([.keyword .kwStruct, .ident name, .mark .openBrace] ++ fs ++ [.mark .closeBrace])
      (.struct { name, fields }) := by
  intro ts hts
  simp only [List.cons_append, List.nil_append] at hts
  obtain ⟨k, ts, rfl, hk, hts⟩ := exists_cons_of_terminals hts
  obtain ⟨x, ts, rfl, hx, hts⟩ := exists_cons_of_terminals hts
  obtain ⟨o, ts, rfl, ho, hts⟩ := exists_cons_of_terminals hts
  obtain ⟨us, ts, rfl, hus, hts⟩ := exists_append_of_terminals hts
  obtain ⟨c, rfl, hc⟩ := terminals_eq_singleton_iff.1 hts
  exact ⟨_, Or.inl ⟨_, derives_struct_of hk hx ho hc (h us hus), rfl⟩,
    Decl.traverse_struct_eq_ok_iff.2 rfl⟩

theorem reads_function {isPublic : Bool} {name returnType : String} {ps rs ss : List Terminal}
    {params : List Binder} {body : List (Stmt Int)} (hp : Nonterminal.Reads f .binders ps params)
    (hr : Nonterminal.Reads f .result rs returnType)
    (hb : Nonterminal.Reads f .statements ss body) :
    Nonterminal.Reads f .declaration
      ((if isPublic then [.keyword .kwPub] else []) ++
        [.keyword .kwFn, .ident name, .mark .openParen] ++ ps ++ [.mark .closeParen] ++ rs ++
        [.mark .openBrace] ++ ss ++ [.mark .closeBrace])
      (.function { isPublic, name, params, returnType, body }) := by
  intro ts hts
  simp only [List.append_assoc, List.cons_append, List.nil_append] at hts
  obtain ⟨pub, ts, rfl, hpub, hts⟩ := exists_append_of_terminals hts
  obtain ⟨k, ts, rfl, hk, hts⟩ := exists_cons_of_terminals hts
  obtain ⟨x, ts, rfl, hx, hts⟩ := exists_cons_of_terminals hts
  obtain ⟨o, ts, rfl, ho, hts⟩ := exists_cons_of_terminals hts
  obtain ⟨us, ts, rfl, hus, hts⟩ := exists_append_of_terminals hts
  obtain ⟨c, ts, rfl, hc, hts⟩ := exists_cons_of_terminals hts
  obtain ⟨ws, ts, rfl, hws, hts⟩ := exists_append_of_terminals hts
  obtain ⟨o', ts, rfl, ho', hts⟩ := exists_cons_of_terminals hts
  obtain ⟨vs, ts, rfl, hvs, hts⟩ := exists_append_of_terminals hts
  obtain ⟨c', rfl, hc'⟩ := terminals_eq_singleton_iff.1 hts
  obtain ⟨type, htype, rfl⟩ := hr ws hws
  obtain ⟨body, hbody, hbody'⟩ := hb vs hvs
  have hsig := derivesBy_signature.2 ⟨o, us, c, ws, type, rfl, ho, hc, hp us hus, htype, rfl⟩
  have hblk := Rule.derives_block.2 ⟨o', vs, c', rfl, ho', hc', hbody⟩
  have hfunction := derives_function_of hpub hk hx hsig hblk
  rw [List.cons_append, List.append_assoc, List.cons_append] at hfunction
  exact ⟨_, Or.inr (Or.inl ⟨_, hfunction, rfl⟩),
    Decl.traverse_function_eq_ok_iff.2 ⟨_, hbody', rfl⟩⟩

theorem reads_host {path name returnType : String} {ps rs : List Terminal} {params : List Binder}
    (hp : Nonterminal.Reads f .binders ps params)
    (hr : Nonterminal.Reads f .result rs returnType) :
    Nonterminal.Reads f .declaration
      ([.keyword .kwImport, .hostPath path, .keyword .kwAs, .keyword .kwFn, .ident name,
        .mark .openParen] ++ ps ++ [.mark .closeParen] ++ rs ++ [.mark .semicolon])
      (.host { path, name, params, returnType }) := by
  intro ts hts
  simp only [List.append_assoc, List.cons_append, List.nil_append] at hts
  obtain ⟨i, ts, rfl, hi, hts⟩ := exists_cons_of_terminals hts
  obtain ⟨d, ts, rfl, hd, hts⟩ := exists_cons_of_terminals hts
  obtain ⟨k, ts, rfl, hk, hts⟩ := exists_cons_of_terminals hts
  obtain ⟨k', ts, rfl, hk', hts⟩ := exists_cons_of_terminals hts
  obtain ⟨x, ts, rfl, hx, hts⟩ := exists_cons_of_terminals hts
  obtain ⟨o, ts, rfl, ho, hts⟩ := exists_cons_of_terminals hts
  obtain ⟨us, ts, rfl, hus, hts⟩ := exists_append_of_terminals hts
  obtain ⟨c, ts, rfl, hc, hts⟩ := exists_cons_of_terminals hts
  obtain ⟨ws, ts, rfl, hws, hts⟩ := exists_append_of_terminals hts
  obtain ⟨s, rfl, hs⟩ := terminals_eq_singleton_iff.1 hts
  obtain ⟨type, htype, rfl⟩ := hr ws hws
  have hsig := derivesBy_signature.2 ⟨o, us, c, ws, type, rfl, ho, hc, hp us hus, htype, rfl⟩
  have hhost := derives_host_of hi hd hk hk' hx hs hsig
  rw [List.cons_append, List.append_assoc, List.cons_append] at hhost
  exact ⟨_, Or.inr (Or.inr ⟨_, hhost, rfl⟩), Decl.traverse_host_eq_ok_iff.2 rfl⟩

/-! ### Statements -/

theorem reads_letStmt {name : String} {ks : List Terminal} {e : Expr Int}
    (h : Nonterminal.Reads f .sum ks e) :
    Nonterminal.Reads f .statement
      ([.keyword .kwLet, .ident name, .mark .equals] ++ ks ++ [.mark .semicolon])
      (.bind name e) := by
  intro ts hts
  simp only [List.cons_append, List.nil_append] at hts
  obtain ⟨k, ts, rfl, hk, hts⟩ := exists_cons_of_terminals hts
  obtain ⟨x, ts, rfl, hx, hts⟩ := exists_cons_of_terminals hts
  obtain ⟨q, ts, rfl, hq, hts⟩ := exists_cons_of_terminals hts
  obtain ⟨us, ts, rfl, hus, hts⟩ := exists_append_of_terminals hts
  obtain ⟨s, rfl, hs⟩ := terminals_eq_singleton_iff.1 hts
  obtain ⟨e, he, he'⟩ := h us hus
  exact ⟨_, Or.inl (derives_letStmt_of hk hx hq hs he),
    Stmt.traverse_bind_eq_ok_iff.2 ⟨_, he', rfl⟩⟩

theorem reads_returnStmt {ks : List Terminal} {e : Expr Int} (h : Nonterminal.Reads f .sum ks e) :
    Nonterminal.Reads f .statement ([.keyword .kwReturn] ++ ks ++ [.mark .semicolon])
      (.ret e) := by
  intro ts hts
  simp only [List.cons_append, List.nil_append] at hts
  obtain ⟨k, ts, rfl, hk, hts⟩ := exists_cons_of_terminals hts
  obtain ⟨us, ts, rfl, hus, hts⟩ := exists_append_of_terminals hts
  obtain ⟨s, rfl, hs⟩ := terminals_eq_singleton_iff.1 hts
  obtain ⟨e, he, he'⟩ := h us hus
  exact ⟨_, Or.inr (Or.inl (derives_returnStmt_of hk hs he)),
    Stmt.traverse_ret_eq_ok_iff.2 ⟨_, he', rfl⟩⟩

theorem reads_callStmt {ks ls ms : List Terminal} {e : Expr Int} {es : List (Expr Int)}
    {ess : List (List (Expr Int))} (he : Nonterminal.Reads f .dotted ks e)
    (hes : Nonterminal.Reads f .arguments ls es)
    (hess : Nonterminal.Reads f .argumentLists ms ess) :
    Nonterminal.Reads f .statement (ks ++ ls ++ ms ++ [.mark .semicolon])
      (.eval (.call e (es :: ess))) := by
  intro ts hts
  simp only [List.append_assoc] at hts
  obtain ⟨us, ts, rfl, hus, hts⟩ := exists_append_of_terminals hts
  obtain ⟨ws, ts, rfl, hws, hts⟩ := exists_append_of_terminals hts
  obtain ⟨ws', ts, rfl, hws', hts⟩ := exists_append_of_terminals hts
  obtain ⟨s, rfl, hs⟩ := terminals_eq_singleton_iff.1 hts
  obtain ⟨q, hq, hq'⟩ := he us hus
  obtain ⟨qs, hqs, hqs'⟩ := hes ws hws
  obtain ⟨qss, hqss, hqss'⟩ := hess ws' hws'
  have hstmt := derives_exprStmt_of hs hq hqs hqss
  rw [List.append_assoc, List.append_assoc] at hstmt
  have hlists := Expr.traverseLists_cons_eq_ok_iff.2 ⟨_, _, hqs', hqss', rfl⟩
  exact ⟨_, Or.inr (Or.inr hstmt), Stmt.traverse_eval_eq_ok_iff.2 ⟨_,
    Expr.traverse_call_eq_ok_iff.2 ⟨_, _, hq', hlists, rfl⟩, rfl⟩⟩

/-! ### Expressions -/

/-- A call with at least one argument list. Without one, it would be its callee. -/
theorem reads_callSome {ks ls : List Terminal} {e : Expr Int} {ess : List (List (Expr Int))}
    (he : Nonterminal.Reads f .dotted ks e) (hess : Nonterminal.Reads f .argumentLists ls ess)
    (hne : ess ≠ []) : Nonterminal.Reads f .call (ks ++ ls) (.call e ess) := by
  refine reads_append he hess ?_
  rintro us ws ⟨q, hq, hq'⟩ ⟨qss, hqss, hqss'⟩
  cases qss with
  | nil => exact absurd (Expr.traverseLists_nil_eq_ok_iff.1 hqss') hne
  | cons x xs =>
    exact ⟨_, derives_call_of hq hqss, Expr.traverse_call_eq_ok_iff.2 ⟨_, _, hq', hqss', rfl⟩⟩

/-- An access with at least one name. Without one, it would be its receiver. -/
theorem reads_dottedSome {ks ls : List Terminal} {e : Expr Int} {names : List String}
    (he : Nonterminal.Reads f .primary ks e) (hnames : Nonterminal.Reads f .accessors ls names)
    (hne : names ≠ []) : Nonterminal.Reads f .dotted (ks ++ ls) (.field e names) := by
  refine reads_append he hnames ?_
  rintro us ws ⟨q, hq, hq'⟩ hws
  cases names with
  | nil => exact absurd rfl hne
  | cons x xs =>
    exact ⟨_, derives_dotted_of hq hws, Expr.traverse_field_eq_ok_iff.2 ⟨_, hq', rfl⟩⟩

theorem reads_argumentsNil :
    Nonterminal.Reads f .arguments [.mark .openParen, .mark .closeParen] [] := by
  intro ts hts
  obtain ⟨o, ts, rfl, ho, hts⟩ := exists_cons_of_terminals hts
  obtain ⟨c, rfl, hc⟩ := terminals_eq_singleton_iff.1 hts
  exact ⟨[], derives_arguments_of ho hc (derivesBy_commaList.2 (Or.inl ⟨rfl, rfl⟩)),
    Expr.traverseAll_nil_eq_ok_iff.2 rfl⟩

theorem reads_argumentsCons {ks ls : List Terminal} {e : Expr Int} {es : List (Expr Int)}
    (he : Nonterminal.Reads f .sum ks e) (hes : Nonterminal.Reads f .moreArguments ls es) :
    Nonterminal.Reads f .arguments ([.mark .openParen] ++ ks ++ ls ++ [.mark .closeParen])
      (e :: es) := by
  intro ts hts
  simp only [List.append_assoc, List.cons_append, List.nil_append] at hts
  obtain ⟨o, ts, rfl, ho, hts⟩ := exists_cons_of_terminals hts
  obtain ⟨us, ts, rfl, hus, hts⟩ := exists_append_of_terminals hts
  obtain ⟨ws, ts, rfl, hws, hts⟩ := exists_append_of_terminals hts
  obtain ⟨c, rfl, hc⟩ := terminals_eq_singleton_iff.1 hts
  obtain ⟨q, hq, hq'⟩ := he us hus
  obtain ⟨qs, hqs, hqs'⟩ := hes ws hws
  have harguments := derives_arguments_of ho hc (derivesBy_commaList.2 (Or.inr
    ⟨us, ws, q, qs, rfl, rfl, hq, hqs⟩))
  rw [List.append_assoc] at harguments
  exact ⟨q :: qs, harguments, Expr.traverseAll_cons_eq_ok_iff.2 ⟨_, _, hq', hqs', rfl⟩⟩

/-- Parentheses leave no trace in the tree. -/
theorem reads_parens {ks : List Terminal} {e : Expr Int} (h : Nonterminal.Reads f .sum ks e) :
    Nonterminal.Reads f .primary ([.mark .openParen] ++ ks ++ [.mark .closeParen]) e := by
  intro ts hts
  simp only [List.cons_append, List.nil_append] at hts
  obtain ⟨o, ts, rfl, ho, hts⟩ := exists_cons_of_terminals hts
  obtain ⟨us, ts, rfl, hus, hts⟩ := exists_append_of_terminals hts
  obtain ⟨c, rfl, hc⟩ := terminals_eq_singleton_iff.1 hts
  obtain ⟨q, hq, hq'⟩ := h us hus
  exact ⟨q, Or.inr (Or.inr (derivesBy_right_mark.2 ⟨o, _, rfl, ho,
    derivesBy_left_mark.2 ⟨us, c, rfl, hc, hq⟩⟩)), hq'⟩

/-! ### All phrases -/

/-- **Every phrase is read**: the patterns derive the tree of a phrase from any tokens that it
consists of. -/
theorem Nonterminal.Derives.read (hf : Resolves f) {n : Nonterminal} {ks : List Terminal}
    {v : n.Value} (h : n.Derives ks v) : n.Reads f ks v := by
  induction h with
  | programNil => exact reads_nil ⟨[], derivesBy_many_nil, mapM_nil_eq_ok_iff.2 rfl⟩
  | programCons _ _ ihd ihp =>
    refine reads_append ihd ihp ?_
    rintro us ws ⟨d, hd, hd'⟩ ⟨p, hp, hp'⟩
    exact ⟨d :: p, derivesBy_many_cons hd hp, mapM_cons_eq_ok_iff.2 ⟨_, _, hd', hp', rfl⟩⟩
  | struct _ ih => exact reads_struct ih
  | function _ _ _ ihp ihr ihs => exact reads_function ihp ihr ihs
  | host _ _ ihp ihr => exact reads_host ihp ihr
  | bindersNil =>
    exact reads_nil (Rule.derives_iff.2 (derivesBy_commaList.2 (Or.inl ⟨rfl, rfl⟩)))
  | bindersCons _ ih =>
    intro ts hts
    obtain ⟨us, ws, rfl, hus, hws⟩ := exists_append_of_terminals hts
    exact Rule.derives_iff.2 (derivesBy_commaList.2 (Or.inr
      ⟨us, ws, _, _, rfl, rfl, Rule.derives_binder.2 hus, ih ws hws⟩))
  | moreBindersNil => exact reads_nil Items.nil
  | moreBindersComma => exact reads_singleton fun _ ht => Items.last rfl ht
  | moreBindersCons _ ih =>
    intro ts hts
    obtain ⟨us, ws, rfl, hus, hws⟩ := exists_append_of_terminals hts
    obtain ⟨t, us, rfl, ht, hus⟩ := exists_cons_of_terminals hus
    exact Items.cons ht (Rule.derives_binder.2 hus) (ih ws hws)
  | resultNone => exact reads_nil ⟨none, Or.inl ⟨rfl, rfl⟩, rfl⟩
  | resultSome =>
    exact fun ts hts => ⟨some _, Or.inr ⟨_, rfl, Rule.derives_returnType.2 hts⟩, rfl⟩
  | statementsNil => exact reads_nil ⟨[], derivesBy_many_nil, mapM_nil_eq_ok_iff.2 rfl⟩
  | statementsCons _ _ ihs ihss =>
    refine reads_append ihs ihss ?_
    rintro us ws ⟨s, hs, hs'⟩ ⟨ss, hss, hss'⟩
    exact ⟨s :: ss, derivesBy_many_cons hs hss, mapM_cons_eq_ok_iff.2 ⟨_, _, hs', hss', rfl⟩⟩
  | letStmt _ ih => exact reads_letStmt ih
  | returnStmt _ ih => exact reads_returnStmt ih
  | callStmt _ _ _ ihe ihes ihess => exact reads_callStmt ihe ihes ihess
  | sumOne _ ih =>
    intro ts hts
    obtain ⟨e, he, he'⟩ := ih ts hts
    have hsum := derives_sum_of he .nil
    rw [List.append_nil] at hsum
    exact ⟨e, hsum, he'⟩
  | sumMany _ _ hne ihe ihes =>
    refine reads_append ihe ihes fun us ws he hes => ?_
    exact exists_chain .sum .sum (fun _ _ _ _ _ => derives_sum_of)
      (fun _ _ hqs => Expr.traverse_sum_eq_ok_iff.2 ⟨_, hqs, rfl⟩) he hes hne
  | moreSummandsNil => exact reads_nil exists_items_nil
  | moreSummandsCons _ _ ihe ihes =>
    exact reads_cons_append ihe ihes fun _ _ _ ht he hes => exists_items_cons ht he hes
  | productOne _ ih =>
    intro ts hts
    obtain ⟨e, he, he'⟩ := ih ts hts
    have hproduct := derives_product_of he .nil
    rw [List.append_nil] at hproduct
    exact ⟨e, hproduct, he'⟩
  | productMany _ _ hne ihe ihes =>
    refine reads_append ihe ihes fun us ws he hes => ?_
    exact exists_chain .product .product (fun _ _ _ _ _ => derives_product_of)
      (fun _ _ hqs => Expr.traverse_product_eq_ok_iff.2 ⟨_, hqs, rfl⟩) he hes hne
  | moreFactorsNil => exact reads_nil exists_items_nil
  | moreFactorsCons _ _ ihe ihes =>
    exact reads_cons_append ihe ihes fun _ _ _ ht he hes => exists_items_cons ht he hes
  | callNone _ ih =>
    intro ts hts
    obtain ⟨e, he, he'⟩ := ih ts hts
    have hcall := derives_call_of he derivesBy_many_nil
    rw [List.append_nil] at hcall
    exact ⟨e, hcall, he'⟩
  | callSome _ _ hne ihe ihess => exact reads_callSome ihe ihess hne
  | argumentListsNil =>
    exact reads_nil ⟨[], derivesBy_many_nil, Expr.traverseLists_nil_eq_ok_iff.2 rfl⟩
  | argumentListsCons _ _ ihes ihess =>
    refine reads_append ihes ihess ?_
    rintro us ws ⟨es, hes, hes'⟩ ⟨ess, hess, hess'⟩
    exact ⟨es :: ess, derivesBy_many_cons hes hess,
      Expr.traverseLists_cons_eq_ok_iff.2 ⟨_, _, hes', hess', rfl⟩⟩
  | argumentsNil => exact reads_argumentsNil
  | argumentsCons _ _ ihe ihes => exact reads_argumentsCons ihe ihes
  | moreArgumentsNil => exact reads_nil exists_items_nil
  | moreArgumentsComma =>
    exact reads_singleton fun _ ht => ⟨[], .last rfl ht, Expr.traverseAll_nil_eq_ok_iff.2 rfl⟩
  | moreArgumentsCons _ _ ihe ihes =>
    exact reads_cons_append ihe ihes fun _ _ _ ht he hes => exists_items_cons ht he hes
  | dottedNone _ ih =>
    intro ts hts
    obtain ⟨e, he, he'⟩ := ih ts hts
    have hdotted := derives_dotted_of he .nil
    rw [List.append_nil] at hdotted
    exact ⟨e, hdotted, he'⟩
  | dottedSome _ _ hne ihe ihnames => exact reads_dottedSome ihe ihnames hne
  | accessorsNil => exact reads_nil Items.nil
  | accessorsCons _ ih =>
    intro ts hts
    obtain ⟨us, ws, rfl, hus, hws⟩ := exists_append_of_terminals hts
    obtain ⟨t, us, rfl, ht, hus⟩ := exists_cons_of_terminals hus
    exact Items.cons ht (Rule.derives_ident.2 hus) (ih ws hws)
  | @const text hrange =>
    intro ts hts
    -- the offset is that of the token, and the value does not depend on it
    obtain ⟨⟨n, t⟩, rfl, rfl⟩ := terminals_eq_singleton_iff.1 hts
    exact ⟨.const ⟨n, text⟩, Or.inl ⟨_, Rule.derives_number.2 rfl, rfl⟩,
      Expr.traverse_const_eq_ok_iff.2 ⟨_, (hf ⟨n, text⟩ _).2 ⟨hrange, rfl⟩, rfl⟩⟩
  | @var name =>
    exact fun ts hts => ⟨.var name, Or.inr (Or.inl ⟨_, Rule.derives_ident.2 hts, rfl⟩),
      Expr.traverse_var_eq_ok_iff.2 rfl⟩
  | parens _ ih => exact reads_parens ih

/-- A program is its declarations: the end of the text has no token. -/
theorem derives_program_iff {ts : List Token} {p : Program Literal} :
    Rule.Derives .program ts p ↔
      (Pattern.many Rule.declaration).DerivesBy Rule.Derives ts p := by
  rw [Rule.derives_iff]
  constructor
  · intro h
    obtain ⟨_, us, _, rfl, rfl, hrest⟩ := derivesBy_right.1 h
    obtain ⟨us, ws, _, rfl, hmany, hend⟩ := derivesBy_left.1 hrest
    have hws : ws = [] := Rule.derives_endOfText.1 hend
    rwa [hws, List.append_nil]
  · intro h
    exact derivesBy_right.2 ⟨[], ts, (), rfl, rfl,
      derivesBy_left.2 ⟨ts, [], (), (List.append_nil ts).symm, h, Rule.derives_endOfText.2 rfl⟩⟩

/-- **Patterns and productions agree**: the rules derive a program with literals that resolve
exactly where the productions derive the program with integers. -/
theorem exists_derives_program_iff (hf : Resolves f) {ts : List Token} {p : Program Int} :
    (∃ q, Rule.Derives .program ts q ∧ q.traverse f = .ok p) ↔
      Nonterminal.Derives .program (terminals ts) p := by
  constructor
  · rintro ⟨q, hq, hp⟩
    exact derives_declarations hf (derives_program_iff.1 hq) hp
  · intro h
    obtain ⟨q, hq, hp⟩ := h.read hf ts rfl
    exact ⟨q, derives_program_iff.2 hq, hp⟩

end Trees

end Kelp.Grammar
