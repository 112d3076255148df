import Kelp.Grammar.Parse
import Kelp.Proofs.Grammar.Shapes
import Kelp.Proofs.Traversal

/-!
# From patterns to phrases

What the patterns of the rules derive are phrases of the language. A pattern yields literals as
written, while the productions give integers, so this is up to the resolution of literals.

- `Faithful` says of a reading of the named rules that the expressions they yield are phrases.
  `faithful_derives` shows it by induction on the height of derivations.
- `derives_declarations` goes on to statements, declarations and programs.
-/

namespace Kelp.Grammar

/-- Literals are resolved to the integers that they denote, and only those of 64 bits are. -/
def Resolves {ε : Type} (f : Literal → Except ε Int) : Prop :=
  ∀ l n, f l = .ok n ↔ InInt64 l.denoted ∧ n = l.denoted

/-! ## Expressions -/

/-- Items whose expressions are phrases make up a phrase `P` that has a production for no item, one
for a trailing mark if there may be one, and one for an item in front of others. -/
theorem Items.phrase {ε : Type} {f : Literal → Except ε Int} {m : Mark} {trailing : Bool}
    {R : List Token → Expr Literal → Prop} {Q : List Terminal → Expr Int → Prop}
    {P : List Terminal → List (Expr Int) → Prop}
    (hitem : ∀ ts e e', R ts e → e.traverse f = .ok e' → Q (terminals ts) e')
    (hnil : P [] []) (hlast : trailing = true → P [.mark m] [])
    (hcons : ∀ {ks ls e es}, Q ks e → P ls es → P (.mark m :: (ks ++ ls)) (e :: es))
    {ts : List Token} {es : List (Expr Literal)} (h : Items m trailing R ts es)
    {es' : List (Expr Int)} (hes : Expr.traverseAll f es = .ok es') :
    P (terminals ts) es' := by
  induction h generalizing es' with
  | nil =>
    rw [Expr.traverseAll_nil_eq_ok_iff.1 hes]
    exact hnil
  | last htrailing ht =>
    rw [Expr.traverseAll_nil_eq_ok_iff.1 hes, terminals_cons, ht]
    exact hlast htrailing
  | cons ht hv _ ih =>
    obtain ⟨a, as, ha, has, rfl⟩ := Expr.traverseAll_cons_eq_ok_iff.1 hes
    rw [terminals_cons, terminals_append, ht]
    exact hcons (hitem _ _ _ hv ha) (ih has)

/-- Whatever expressions the named rules yield are phrases of the language, once their literals are
resolved. -/
structure Faithful {ε : Type} (f : Literal → Except ε Int)
    (D : (r : Rule) → List Token → r.Value → Prop) : Prop where
  derives : ∀ r ts v, D r ts v → r.Derives ts v
  sum : ∀ ts e e', D .sum ts e → e.traverse f = .ok e' →
    Nonterminal.Derives .sum (terminals ts) e'
  product : ∀ ts e e', D .product ts e → e.traverse f = .ok e' →
    Nonterminal.Derives .product (terminals ts) e'
  call : ∀ ts e e', D .call ts e → e.traverse f = .ok e' →
    Nonterminal.Derives .call (terminals ts) e'
  dotted : ∀ ts e e', D .dotted ts e → e.traverse f = .ok e' →
    Nonterminal.Derives .dotted (terminals ts) e'
  arguments : ∀ ts es es', D .arguments ts es → Expr.traverseAll f es = .ok es' →
    Nonterminal.Derives .arguments (terminals ts) es'

namespace Faithful

variable {ε : Type} {f : Literal → Except ε Int} {D : (r : Rule) → List Token → r.Value → Prop}
  (hD : Faithful f D)

include hD

/-- The operands of a sum behind the first one. -/
theorem moreSummands {ts : List Token} {es : List (Expr Literal)}
    (h : Items .plus false (D .product) ts es) {es' : List (Expr Int)}
    (hes : Expr.traverseAll f es = .ok es') :
    Nonterminal.Derives .moreSummands (terminals ts) es' :=
  h.phrase hD.product .moreSummandsNil Bool.noConfusion .moreSummandsCons hes

/-- The operands of a product behind the first one. -/
theorem moreFactors {ts : List Token} {es : List (Expr Literal)}
    (h : Items .times false (D .call) ts es) {es' : List (Expr Int)}
    (hes : Expr.traverseAll f es = .ok es') :
    Nonterminal.Derives .moreFactors (terminals ts) es' :=
  h.phrase hD.call .moreFactorsNil Bool.noConfusion .moreFactorsCons hes

/-- The arguments behind the first one, with a comma behind the last one or without. -/
theorem moreArguments {ts : List Token} {es : List (Expr Literal)}
    (h : Items .comma true (D .sum) ts es) {es' : List (Expr Int)}
    (hes : Expr.traverseAll f es = .ok es') :
    Nonterminal.Derives .moreArguments (terminals ts) es' :=
  h.phrase hD.sum .moreArgumentsNil (fun _ => .moreArgumentsComma) .moreArgumentsCons hes

/-- All argument lists of a call. -/
theorem argumentLists {ts : List Token} {ess : List (List (Expr Literal))}
    (h : (Pattern.many (.rule .arguments)).DerivesBy D ts ess) {ess' : List (List (Expr Int))}
    (hess : Expr.traverseLists f ess = .ok ess') :
    Nonterminal.Derives .argumentLists (terminals ts) ess' := by
  obtain ⟨tss, rfl, hrounds⟩ := h
  induction hrounds generalizing ess' with
  | nil =>
    rw [Expr.traverseLists_nil_eq_ok_iff.1 hess]
    exact .argumentListsNil
  | cons hround _ ih =>
    obtain ⟨a, as, ha, has, rfl⟩ := Expr.traverseLists_cons_eq_ok_iff.1 hess
    rw [List.flatten_cons, terminals_append]
    exact .argumentListsCons (hD.arguments _ _ _ hround ha) (ih has)

/-- All accessors of an access. -/
theorem accessors {ts : List Token} {names : List String}
    (h : Items .dot false (D .ident) ts names) :
    Nonterminal.Derives .accessors (terminals ts) names := by
  induction h with
  | nil => exact .accessorsNil
  | last htrailing _ => cases htrailing
  | cons ht hv _ ih =>
    rw [terminals_cons, terminals_append, ht, Rule.derives_ident.1 (hD.derives _ _ _ hv)]
    exact .accessorsCons ih

/-! The productions of expressions. -/

/-- A sum with one operand is that operand, and one with more is a sum of the language. -/
theorem sum_pattern {ts : List Token} {e : Expr Literal}
    (h : (Rule.pattern .sum).DerivesBy D ts e) {e' : Expr Int} (he : e.traverse f = .ok e') :
    Nonterminal.Derives .sum (terminals ts) e' := by
  obtain ⟨es, hes, rfl⟩ := h
  obtain ⟨us, ws, x, xs, rfl, rfl, hx, hxs⟩ := derivesBy_separated.1 hes
  -- with one operand, the pattern yields no sum at all
  cases xs with
  | nil =>
    cases hxs with
    | nil =>
      rw [List.append_nil]
      exact .sumOne (hD.product _ _ _ hx he)
    | last htrailing _ => cases htrailing
  | cons y ys =>
    obtain ⟨es', hall, rfl⟩ := Expr.traverse_sum_eq_ok_iff.1 he
    obtain ⟨a, as, ha, has, rfl⟩ := Expr.traverseAll_cons_eq_ok_iff.1 hall
    obtain ⟨b, bs, -, -, rfl⟩ := Expr.traverseAll_cons_eq_ok_iff.1 has
    rw [terminals_append]
    exact .sumMany (hD.product _ _ _ hx ha) (hD.moreSummands hxs has) (List.cons_ne_nil b bs)

theorem product_pattern {ts : List Token} {e : Expr Literal}
    (h : (Rule.pattern .product).DerivesBy D ts e) {e' : Expr Int} (he : e.traverse f = .ok e') :
    Nonterminal.Derives .product (terminals ts) e' := by
  obtain ⟨es, hes, rfl⟩ := h
  obtain ⟨us, ws, x, xs, rfl, rfl, hx, hxs⟩ := derivesBy_separated.1 hes
  cases xs with
  | nil =>
    cases hxs with
    | nil =>
      rw [List.append_nil]
      exact .productOne (hD.call _ _ _ hx he)
    | last htrailing _ => cases htrailing
  | cons y ys =>
    obtain ⟨es', hall, rfl⟩ := Expr.traverse_product_eq_ok_iff.1 he
    obtain ⟨a, as, ha, has, rfl⟩ := Expr.traverseAll_cons_eq_ok_iff.1 hall
    obtain ⟨b, bs, -, -, rfl⟩ := Expr.traverseAll_cons_eq_ok_iff.1 has
    rw [terminals_append]
    exact .productMany (hD.call _ _ _ hx ha) (hD.moreFactors hxs has) (List.cons_ne_nil b bs)

/-- A call without argument lists is its callee. -/
theorem call_pattern {ts : List Token} {e : Expr Literal}
    (h : (Rule.pattern .call).DerivesBy D ts e) {e' : Expr Int} (he : e.traverse f = .ok e') :
    Nonterminal.Derives .call (terminals ts) e' := by
  obtain ⟨⟨callee, lists⟩, ⟨us, ws, rfl, hcallee, hlists⟩, rfl⟩ := h
  cases lists with
  | nil =>
    obtain ⟨tss, rfl, hrounds⟩ := hlists
    cases hrounds
    rw [List.flatten_nil, List.append_nil]
    exact .callNone (hD.dotted _ _ _ hcallee he)
  | cons es ess =>
    obtain ⟨c, l, hc, hl, rfl⟩ := Expr.traverse_call_eq_ok_iff.1 he
    obtain ⟨b, bs, -, -, rfl⟩ := Expr.traverseLists_cons_eq_ok_iff.1 hl
    rw [terminals_append]
    exact .callSome (hD.dotted _ _ _ hcallee hc) (hD.argumentLists hlists hl)
      (List.cons_ne_nil b bs)

theorem arguments_pattern {ts : List Token} {es : List (Expr Literal)}
    (h : (Rule.pattern .arguments).DerivesBy D ts es) {es' : List (Expr Int)}
    (hes : Expr.traverseAll f es = .ok es') :
    Nonterminal.Derives .arguments (terminals ts) es' := by
  obtain ⟨o, us, rfl, ho, h⟩ := derivesBy_right_mark.1 h
  obtain ⟨us, c, rfl, hc, hitems⟩ := derivesBy_left_mark.1 h
  rw [terminals_cons, terminals_append, terminals_cons, terminals_nil, ho, hc]
  -- between the parentheses there may be nothing
  rcases derivesBy_commaList.1 hitems with ⟨rfl, rfl⟩ | ⟨us, ws, x, xs, rfl, rfl, hx, hxs⟩
  · rw [Expr.traverseAll_nil_eq_ok_iff.1 hes]
    exact .argumentsNil
  · obtain ⟨a, as, ha, has, rfl⟩ := Expr.traverseAll_cons_eq_ok_iff.1 hes
    have hcons := Nonterminal.Derives.argumentsCons (hD.sum _ _ _ hx ha) (hD.moreArguments hxs has)
    rwa [List.append_assoc, List.append_assoc, ← List.append_assoc (terminals us),
      ← terminals_append] at hcons

/-- An operand is a number, a name, or an expression in parentheses. -/
theorem primary_pattern (hf : Resolves f) {ts : List Token} {e : Expr Literal}
    (h : Rule.primary.DerivesBy D ts e) {e' : Expr Int} (he : e.traverse f = .ok e') :
    Nonterminal.Derives .primary (terminals ts) e' := by
  rcases h with ⟨l, hl, rfl⟩ | ⟨name, hname, rfl⟩ | h
  · obtain ⟨n, hn, rfl⟩ := Expr.traverse_const_eq_ok_iff.1 he
    obtain ⟨hrange, rfl⟩ := (hf l n).1 hn
    rw [Rule.derives_number.1 (hD.derives _ _ _ hl)]
    exact .const hrange
  · rw [Expr.traverse_var_eq_ok_iff.1 he, Rule.derives_ident.1 (hD.derives _ _ _ hname)]
    exact .var
  · obtain ⟨o, us, rfl, ho, h⟩ := derivesBy_right_mark.1 h
    obtain ⟨us, c, rfl, hc, hinner⟩ := derivesBy_left_mark.1 h
    rw [terminals_cons, terminals_append, terminals_cons, terminals_nil, ho, hc]
    exact .parens (hD.sum _ _ _ hinner he)

/-- An access without accessors is its receiver. -/
theorem dotted_pattern (hf : Resolves f) {ts : List Token} {e : Expr Literal}
    (h : (Rule.pattern .dotted).DerivesBy D ts e) {e' : Expr Int} (he : e.traverse f = .ok e') :
    Nonterminal.Derives .dotted (terminals ts) e' := by
  obtain ⟨⟨receiver, names⟩, ⟨us, ws, rfl, hreceiver, hnames⟩, rfl⟩ := h
  have hnames := derivesBy_many_right.1 hnames
  cases names with
  | nil =>
    cases hnames with
    | nil =>
      rw [List.append_nil]
      exact .dottedNone (hD.primary_pattern hf hreceiver he)
    | last htrailing _ => cases htrailing
  | cons name names =>
    obtain ⟨r, hr, rfl⟩ := Expr.traverse_field_eq_ok_iff.1 he
    rw [terminals_append]
    exact .dottedSome (hD.primary_pattern hf hreceiver hr) (hD.accessors hnames)
      (List.cons_ne_nil name names)

end Faithful

section

variable {ε : Type} {f : Literal → Except ε Int}

/-- By induction on the height: the rules that a pattern names have lower derivations. -/
theorem faithful_derivesIn (hf : Resolves f) : ∀ n, Faithful f (Rule.DerivesIn n)
  | 0 => by constructor <;> exact fun _ _ _ h => h.elim
  | n + 1 =>
    have hD := faithful_derivesIn hf n
    { derives := fun _ _ _ h => ⟨n + 1, h⟩
      sum := fun _ _ _ h he => hD.sum_pattern h he
      product := fun _ _ _ h he => hD.product_pattern h he
      call := fun _ _ _ h he => hD.call_pattern h he
      dotted := fun _ _ _ h he => hD.dotted_pattern hf h he
      arguments := fun _ _ _ h he => hD.arguments_pattern h he }

/-- **Expressions are phrases**: what the rules of expressions derive, the productions do. -/
theorem faithful_derives (hf : Resolves f) : Faithful f Rule.Derives where
  derives _ _ _ h := h
  sum := fun _ _ _ ⟨n, h⟩ => (faithful_derivesIn hf n).sum _ _ _ h
  product := fun _ _ _ ⟨n, h⟩ => (faithful_derivesIn hf n).product _ _ _ h
  call := fun _ _ _ ⟨n, h⟩ => (faithful_derivesIn hf n).call _ _ _ h
  dotted := fun _ _ _ ⟨n, h⟩ => (faithful_derivesIn hf n).dotted _ _ _ h
  arguments := fun _ _ _ ⟨n, h⟩ => (faithful_derivesIn hf n).arguments _ _ _ h

/-! ## Statements and declarations -/

/-- Binders behind the first one, with a comma behind the last one or without. -/
theorem derives_moreBinders {ts : List Token} {bs : List Binder}
    (h : Items .comma true (Rule.Derives .binder) ts bs) :
    Nonterminal.Derives .moreBinders (terminals ts) bs := by
  induction h with
  | nil => exact .moreBindersNil
  | last _ ht =>
    rw [terminals_cons, ht]
    exact .moreBindersComma
  | cons ht hv _ ih =>
    rw [terminals_cons, terminals_append, ht, Rule.derives_binder.1 hv]
    exact .moreBindersCons ih

theorem derives_binders {ts : List Token} {bs : List Binder} (h : Rule.Derives .binders ts bs) :
    Nonterminal.Derives .binders (terminals ts) bs := by
  rcases derivesBy_commaList.1 (Rule.derives_iff.1 h) with
    ⟨rfl, rfl⟩ | ⟨us, ws, x, xs, rfl, rfl, hx, hxs⟩
  · exact .bindersNil
  · rw [terminals_append, Rule.derives_binder.1 hx]
    exact .bindersCons (derives_moreBinders hxs)

/-- A return type that is not written is `unit`. -/
theorem derives_result {ts : List Token} {type : Option String}
    (h : (Pattern.opt (.rule .returnType)).DerivesBy Rule.Derives ts type) :
    Nonterminal.Derives .result (terminals ts) (type.getD unitType) := by
  rcases h with ⟨rfl, rfl⟩ | ⟨x, rfl, hx⟩
  · exact .resultNone
  · rw [Rule.derives_returnType.1 hx]
    exact .resultSome

/-- A statement that is an expression is a call with at least one argument list. -/
theorem derives_callStmt (hf : Resolves f) {ts : List Token} {e : Expr Literal}
    (h : Rule.Derives .exprStmt ts (.eval e)) {e' : Expr Int} (he : e.traverse f = .ok e') :
    Nonterminal.Derives .statement (terminals ts) (.eval e') := by
  obtain ⟨_, h, heq⟩ := Rule.derives_iff.1 h
  cases heq
  obtain ⟨us, c, rfl, hc, h⟩ := derivesBy_left_mark.1 h
  obtain ⟨⟨callee, lists⟩, ⟨us, ws, rfl, hcallee, hlists⟩, rfl⟩ := Rule.derives_iff.1 h
  obtain ⟨⟨first, rest⟩, ⟨us', ws', rfl, hfirst, hrest⟩, rfl⟩ := hlists
  obtain ⟨c', l, hcallee', hl, rfl⟩ := Expr.traverse_call_eq_ok_iff.1 he
  obtain ⟨a, as, ha, has, rfl⟩ := Expr.traverseLists_cons_eq_ok_iff.1 hl
  have hD := faithful_derives hf
  rw [terminals_append, terminals_append, terminals_append, terminals_cons, hc,
    ← List.append_assoc (terminals us)]
  exact .callStmt (hD.dotted _ _ _ hcallee hcallee') (hD.arguments _ _ _ hfirst ha)
    (hD.argumentLists hrest has)

/-- A statement, once its literals are resolved. -/
theorem derives_statement (hf : Resolves f) {ts : List Token} {s : Stmt Literal}
    (h : Rule.statement.DerivesBy Rule.Derives ts s) {s' : Stmt Int} (hs : s.traverse f = .ok s') :
    Nonterminal.Derives .statement (terminals ts) s' := by
  have hD := faithful_derives hf
  rcases h with h | h | h
  · obtain ⟨⟨name, e⟩, hlet, rfl⟩ := Rule.derives_iff.1 h
    obtain ⟨k, us, rfl, hk, h⟩ := derivesBy_right_keyword.1 hlet
    obtain ⟨x, us, rfl, hx, h⟩ := derivesBy_seq_ident.1 h
    obtain ⟨q, us, rfl, hq, h⟩ := derivesBy_right_mark.1 h
    obtain ⟨us, c, rfl, hc, h⟩ := derivesBy_left_mark.1 h
    obtain ⟨e', he, rfl⟩ := Stmt.traverse_bind_eq_ok_iff.1 hs
    simp only [terminals_cons, terminals_append, hk, hx, hq, hc]
    exact .letStmt (hD.sum _ _ _ h he)
  · obtain ⟨e, hreturn, rfl⟩ := Rule.derives_iff.1 h
    obtain ⟨k, us, rfl, hk, h⟩ := derivesBy_right_keyword.1 hreturn
    obtain ⟨us, c, rfl, hc, h⟩ := derivesBy_left_mark.1 h
    obtain ⟨e', he, rfl⟩ := Stmt.traverse_ret_eq_ok_iff.1 hs
    simp only [terminals_cons, terminals_append, hk, hc]
    exact .returnStmt (hD.sum _ _ _ h he)
  · obtain ⟨e, -, rfl⟩ := Rule.derives_iff.1 h
    obtain ⟨e', he, rfl⟩ := Stmt.traverse_eval_eq_ok_iff.1 hs
    exact derives_callStmt hf h he

theorem derives_statements (hf : Resolves f) {ts : List Token} {ss : List (Stmt Literal)}
    (h : (Pattern.many Rule.statement).DerivesBy Rule.Derives ts ss) {ss' : List (Stmt Int)}
    (hss : ss.mapM (Stmt.traverse f) = .ok ss') :
    Nonterminal.Derives .statements (terminals ts) ss' := by
  obtain ⟨tss, rfl, hrounds⟩ := h
  induction hrounds generalizing ss' with
  | nil =>
    rw [mapM_nil_eq_ok_iff.1 hss]
    exact .statementsNil
  | cons hround _ ih =>
    obtain ⟨s', ss', hs, hrest, rfl⟩ := mapM_cons_eq_ok_iff.1 hss
    rw [List.flatten_cons, terminals_append]
    exact .statementsCons (derives_statement hf hround hs) (ih hrest)

/-- A struct. There are no literals in it. -/
theorem derives_struct {ts : List Token} {d : StructDef} (h : Rule.Derives .struct ts d) :
    Nonterminal.Derives .declaration (terminals ts) (.struct d) := by
  obtain ⟨⟨name, fields⟩, hstruct, rfl⟩ := Rule.derives_iff.1 h
  obtain ⟨k, us, rfl, hk, h⟩ := derivesBy_right_keyword.1 hstruct
  obtain ⟨x, us, rfl, hx, h⟩ := derivesBy_seq_ident.1 h
  obtain ⟨o, us, rfl, ho, h⟩ := derivesBy_right_mark.1 h
  obtain ⟨us, c, rfl, hc, h⟩ := derivesBy_left_mark.1 h
  simp only [terminals_cons, terminals_append, hk, hx, ho, hc]
  exact .struct (derives_binders h)

/-- A function, once the literals of its body are resolved. -/
theorem derives_function (hf : Resolves f) {ts : List Token} {d : FunctionDef Literal}
    (h : Rule.Derives .function ts d) {body : List (Stmt Int)}
    (hbody : d.body.mapM (Stmt.traverse f) = .ok body) :
    Nonterminal.Derives .declaration (terminals ts)
      (.function ⟨d.isPublic, d.name, d.params, d.returnType, body⟩) := by
  obtain ⟨⟨pub, name, ⟨params, returnType⟩, ss⟩, ⟨us, ws, rfl, hpub, hfn⟩, rfl⟩ :=
    Rule.derives_iff.1 h
  obtain ⟨k, ws, rfl, hk, h⟩ := derivesBy_right_keyword.1 hfn
  obtain ⟨x, ws, rfl, hx, sig, bs, rfl, hsig, hblock⟩ := derivesBy_seq_ident.1 h
  obtain ⟨o, ps, c, rs, type, rfl, ho, hc, hps, htype, rfl⟩ := derivesBy_signature.1 hsig
  obtain ⟨o', ts, c', rfl, ho', hc', hss⟩ := Rule.derives_block.1 hblock
  have hfunction := @Nonterminal.Derives.function pub.isSome name _ _ _ _ _ _ (derives_binders hps)
    (derives_result htype) (derives_statements hf hss hbody)
  -- the keyword in front is there exactly if the function is public
  have hus : terminals us = if pub.isSome then [.keyword .kwPub] else [] := by
    rcases hpub with ⟨rfl, rfl⟩ | ⟨v, rfl, hv⟩
    · rfl
    · exact Rule.derives_keyword.1 hv
  simp only [terminals_cons, terminals_append, terminals_nil, hus, hk, hx, ho, hc, ho', hc',
    List.append_assoc, List.cons_append, List.nil_append] at hfunction ⊢
  exact hfunction

/-- A host function. There are no literals in it. -/
theorem derives_host {ts : List Token} {d : HostFunction} (h : Rule.Derives .hostFunction ts d) :
    Nonterminal.Derives .declaration (terminals ts) (.host d) := by
  obtain ⟨⟨path, name, params, returnType⟩, himport, rfl⟩ := Rule.derives_iff.1 h
  obtain ⟨k, us, rfl, hk, us, ws, rfl, hpath, h⟩ := derivesBy_right_keyword.1 himport
  obtain ⟨k', us', rfl, hk', h⟩ := derivesBy_right_keyword.1 h
  obtain ⟨k'', us', rfl, hk'', h⟩ := derivesBy_right_keyword.1 h
  obtain ⟨x, us', rfl, hx, h⟩ := derivesBy_seq_ident.1 h
  obtain ⟨us', s, rfl, hs, h⟩ := derivesBy_left_mark.1 h
  obtain ⟨o, ps, c, rs, type, rfl, ho, hc, hps, htype, rfl⟩ := derivesBy_signature.1 h
  have hhost := @Nonterminal.Derives.host path name _ _ _ _ (derives_binders hps)
    (derives_result htype)
  simp only [terminals_cons, terminals_append, terminals_nil, Rule.derives_hostPath.1 hpath, hk,
    hk', hk'', hx, hs, ho, hc, List.append_assoc, List.cons_append, List.nil_append] at hhost ⊢
  exact hhost

theorem derives_declaration (hf : Resolves f) {ts : List Token} {d : Decl Literal}
    (h : Rule.declaration.DerivesBy Rule.Derives ts d) {d' : Decl Int}
    (hd : d.traverse f = .ok d') : Nonterminal.Derives .declaration (terminals ts) d' := by
  rcases h with ⟨d, h, rfl⟩ | ⟨d, h, rfl⟩ | ⟨d, h, rfl⟩
  · rw [Decl.traverse_struct_eq_ok_iff.1 hd]
    exact derives_struct h
  · obtain ⟨body, hbody, rfl⟩ := Decl.traverse_function_eq_ok_iff.1 hd
    exact derives_function hf h hbody
  · rw [Decl.traverse_host_eq_ok_iff.1 hd]
    exact derives_host h

/-- **Programs are phrases**: what the rules of programs derive, the productions do. -/
theorem derives_declarations (hf : Resolves f) {ts : List Token} {p : Program Literal}
    (h : (Pattern.many Rule.declaration).DerivesBy Rule.Derives ts p) {p' : Program Int}
    (hp : p.mapM (Decl.traverse f) = .ok p') :
    Nonterminal.Derives .program (terminals ts) p' := by
  obtain ⟨tss, rfl, hrounds⟩ := h
  induction hrounds generalizing p' with
  | nil =>
    rw [mapM_nil_eq_ok_iff.1 hp]
    exact .programNil
  | cons hround _ ih =>
    obtain ⟨d', p', hd, hrest, rfl⟩ := mapM_cons_eq_ok_iff.1 hp
    rw [List.flatten_cons, terminals_append]
    exact .programCons (derives_declaration hf hround hd) (ih hrest)

end

end Kelp.Grammar
