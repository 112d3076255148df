import Kelp.Proofs.Grammar.Shapes
import Kelp.Proofs.Grammar.Spacing
import Kelp.Proofs.Traversal

/-!
# Literals in order

The constants of a program are the integer literals of its text, and in the order of the text.

- `literals` gives the literals among tokens.
- `Pattern.Collects` says that what a pattern yields holds the literals of what it derives. There is
  a lemma for each way to build patterns, so a rule is checked by going through its pattern.
- `Rule.Derives.constants_eq`: the constants of a derived program are the literals of its tokens.
-/

namespace Kelp.Grammar

/-! ## Literals of tokens -/

/-- The literal that a token is, if it is one. -/
def Token.literal? (t : Token) : Option Literal :=
  match t.terminal with
  | .number text => some ⟨t.offset, text⟩
  | _ => none

/-- The literals among the tokens. -/
def literals (ts : List Token) : List Literal := ts.filterMap Token.literal?

theorem literals_append (ts us : List Token) :
    literals (ts ++ us) = literals ts ++ literals us := List.filterMap_append

/-- What the pattern yields has the literals of what it derives. -/
def Pattern.Collects (call : (r : Rule) → List Token → r.Value → Prop) {α : Type} (p : Pattern α)
    (held : α → List Literal) : Prop :=
  ∀ ts v, p.DerivesBy call ts v → held v = literals ts

/-! ## Literals of patterns

One lemma for each way to build a pattern, and for the patterns that are put together from these. -/

namespace Pattern

variable {call : (r : Rule) → List Token → r.Value → Prop} {α β : Type} {p : Pattern α}
  {q : Pattern β} {f : α → List Literal} {g : β → List Literal}

theorem collects_empty : Pattern.empty.Collects call fun _ => [] := by
  rintro ts v rfl
  rfl

/-- Only numbers hold a literal. -/
theorem collects_lexeme {l : Lexeme} (hl : l ≠ .number) :
    (Pattern.lexeme l).Collects call fun _ => [] := by
  intro ts v h
  by_cases hend : l = .endOfText
  · subst hend
    obtain rfl : ts = [] := h
    rfl
  · -- a single token is derived, and it is none that holds a literal
    obtain ⟨⟨n, t⟩, rfl, rfl, -⟩ := (Lexeme.yields_iff hend).1 h
    cases t with
    | number text => exact absurd rfl hl
    | _ => rfl

/-- A number holds itself. -/
theorem collects_number : (Pattern.lexeme .number).Collects call fun l => [l] := by
  intro ts v h
  obtain ⟨⟨n, t⟩, rfl, ht, rfl⟩ := (Lexeme.yields_iff Lexeme.noConfusion).1 h
  cases t with
  | number text =>
    show [Literal.mk n (String.ofList text.toList)] = [⟨n, text⟩]
    rw [String.ofList_toList]
  | _ => cases ht

theorem collects_mark (m : Mark) : (Pattern.mark m).Collects call fun _ => [] :=
  collects_lexeme Lexeme.noConfusion

theorem Collects.congr {f' : α → List Literal} (h : p.Collects call f) (hf : ∀ v, f' v = f v) :
    p.Collects call f' := by
  intro ts v hv
  rw [hf, h ts v hv]

theorem Collects.map {m : α → β} (h : p.Collects call fun v => g (m v)) :
    (Pattern.map m p).Collects call g := by
  rintro ts _ ⟨v, hv, rfl⟩
  exact h ts v hv

/-- Literals come in the order of the parts. -/
theorem Collects.seq (hp : p.Collects call f) (hq : q.Collects call g) :
    (Pattern.seq p q).Collects call fun v => f v.1 ++ g v.2 := by
  rintro _ v ⟨us, ws, rfl, hus, hws⟩
  rw [literals_append, ← hp us v.1 hus, ← hq ws v.2 hws]

/-- A part whose value is dropped must hold nothing. -/
theorem Collects.right (hp : p.Collects call fun _ => []) (hq : q.Collects call g) :
    (Pattern.right p q).Collects call g :=
  Collects.map (m := Prod.snd) (hp.seq hq)

theorem Collects.left (hp : p.Collects call f) (hq : q.Collects call fun _ => []) :
    (Pattern.left p q).Collects call f :=
  ((hp.seq hq).congr fun v => (List.append_nil (f v.1)).symm).map

theorem Collects.alt {p' : Pattern α} (hp : p.Collects call f) (hp' : p'.Collects call f) :
    (Pattern.alt p p').Collects call f := by
  rintro ts v (h | h)
  · exact hp ts v h
  · exact hp' ts v h

theorem Collects.opt (hp : p.Collects call f) :
    (Pattern.opt p).Collects call fun v => v.elim [] f := by
  rintro ts v (⟨rfl, rfl⟩ | ⟨x, rfl, h⟩)
  · rfl
  · exact hp ts x h

/-- Literals come round by round. -/
theorem Collects.many (hp : p.Collects call f) :
    (Pattern.many p).Collects call fun vs => vs.flatMap f := by
  rintro ts vs ⟨tss, rfl, h⟩
  show vs.flatMap f = _
  induction h with
  | nil => rfl
  | cons hround _ ih =>
    rw [List.flatMap_cons, List.flatten_cons, literals_append, hp _ _ hround, ih]

theorem Collects.many1 (hp : p.Collects call f) :
    (Pattern.many1 p).Collects call fun vs => vs.flatMap f :=
  (hp.seq hp.many).map

theorem Collects.separated (separator : Mark) (hp : p.Collects call f) :
    (Pattern.separated separator p).Collects call fun vs => vs.flatMap f :=
  (hp.seq ((collects_mark separator).right hp).many).map

/-- A comma at the end of a list holds nothing. -/
theorem Collects.commaList (hp : p.Collects call f) :
    (Pattern.commaList p).Collects call fun vs => vs.flatMap f := by
  refine Collects.map (((hp.separated .comma).left ?_).opt.congr ?_)
  · exact (collects_mark .comma).opt.congr fun v => by cases v <;> rfl
  · intro v
    cases v <;> rfl

end Pattern

/-! ## Literals of rules -/

/-- The literals in what a rule yields. -/
def Rule.held : (r : Rule) → r.Value → List Literal
  | .number => fun l => [l]
  | .program => Program.constants
  | .function => fun d => d.body.flatMap Stmt.constants
  | .block => List.flatMap Stmt.constants
  | .letStmt => Stmt.constants
  | .returnStmt => Stmt.constants
  | .exprStmt => Stmt.constants
  | .sum => Expr.constants
  | .product => Expr.constants
  | .call => Expr.constants
  | .callStmt => Expr.constants
  | .arguments => List.flatMap Expr.constants
  | .dotted => Expr.constants
  | _ => fun _ => []

theorem constantsAll_eq {κ : Type} (es : List (Expr κ)) :
    Expr.constantsAll es = es.flatMap Expr.constants := by
  induction es with
  | nil => rfl
  | cons e es ih => rw [Expr.constantsAll, ih, List.flatMap_cons]

theorem constantsLists_eq {κ : Type} (ess : List (List (Expr κ))) :
    Expr.constantsLists ess = ess.flatMap (List.flatMap Expr.constants) := by
  induction ess with
  | nil => rfl
  | cons es ess ih => rw [Expr.constantsLists, ih, List.flatMap_cons, constantsAll_eq]

/-- A sum of one operand is that operand, and has its constants. -/
theorem constants_sumOf (es : List (Expr Literal)) :
    (sumOf es).constants = es.flatMap Expr.constants := by
  unfold sumOf
  split
  · simp
  · rw [Expr.constants, constantsAll_eq]

theorem constants_productOf (es : List (Expr Literal)) :
    (productOf es).constants = es.flatMap Expr.constants := by
  unfold productOf
  split
  · simp
  · rw [Expr.constants, constantsAll_eq]

/-- A call without argument lists is its callee, and has its constants. -/
theorem constants_callOf (e : Expr Literal) (ess : List (List (Expr Literal))) :
    (callOf e ess).constants = e.constants ++ ess.flatMap (List.flatMap Expr.constants) := by
  rw [callOf]
  split
  · rename_i h
    rw [List.isEmpty_iff.1 h, List.flatMap_nil, List.append_nil]
  · rw [Expr.constants, constantsLists_eq]

theorem constants_fieldOf (e : Expr Literal) (names : List String) :
    (fieldOf e names).constants = e.constants := by
  rw [fieldOf]
  split
  · rfl
  · rfl

section Rules

variable {call : (r : Rule) → List Token → r.Value → Prop}
  (hcall : ∀ r, (Pattern.rule r).Collects call r.held)

include hcall

open Pattern

theorem collects_keyword (k : Keyword) : (Pattern.keyword k).Collects call fun _ => [] :=
  hcall (.keyword k)

/-- There are no literals in the types of a function. -/
theorem collects_signature : Rule.signature.Collects call fun _ => [] := by
  have hparams := (collects_mark .openParen).right
    ((hcall .binders).left (collects_mark .closeParen))
  have hresult := (hcall .returnType).opt
  refine Collects.map ((hparams.seq hresult).congr fun v => ?_)
  cases v.2 <;> rfl

theorem collects_declaration : Rule.declaration.Collects call Decl.constants :=
  Collects.alt (Collects.map (hcall .struct))
    (Collects.alt (Collects.map (hcall .function)) (Collects.map (hcall .hostFunction)))

theorem collects_statement : Rule.statement.Collects call Stmt.constants :=
  Collects.alt (hcall .letStmt) (Collects.alt (hcall .returnStmt) (hcall .exprStmt))

/-- The literals of an operand are its own, or those of the expression in its parentheses. -/
theorem collects_primary : Rule.primary.Collects call Expr.constants :=
  Collects.alt (Collects.map (hcall .number)) (Collects.alt (Collects.map (hcall .ident))
    ((collects_mark .openParen).right ((hcall .sum).left (collects_mark .closeParen))))

/-- **Every rule yields the literals that it derives**, if the rules that it names do. -/
theorem collects_pattern (r : Rule) : r.pattern.Collects call r.held := by
  cases r with
  | endOfText => exact collects_lexeme Lexeme.noConfusion
  | keyword k => exact collects_lexeme Lexeme.noConfusion
  | ident => exact collects_lexeme Lexeme.noConfusion
  | number => exact collects_number
  | program =>
    exact collects_empty.right ((collects_declaration hcall).many.left (hcall .endOfText))
  | typeName => exact hcall .ident
  | binder =>
    exact Collects.map ((hcall .ident).seq ((collects_mark .colon).right (hcall .typeName)))
  | binders => exact (hcall .binder).commaList.congr fun v => by simp [Rule.held]
  | returnType => exact (collects_mark .arrow).right (hcall .typeName)
  | struct =>
    exact Collects.map ((collects_keyword hcall .kwStruct).right ((hcall .ident).seq
      ((collects_mark .openBrace).right ((hcall .binders).left (collects_mark .closeBrace)))))
  | function =>
    have hpub := (collects_keyword hcall .kwPub).opt
    have hrest := (collects_keyword hcall .kwFn).right
      ((hcall .ident).seq ((collects_signature hcall).seq (hcall .block)))
    refine Collects.map ((hpub.seq hrest).congr fun v => ?_)
    cases v.1 <;> rfl
  | block =>
    exact (collects_mark .openBrace).right
      ((collects_statement hcall).many.left (collects_mark .closeBrace))
  | hostPath => exact collects_lexeme Lexeme.noConfusion
  | hostFunction =>
    exact Collects.map ((collects_keyword hcall .kwImport).right ((hcall .hostPath).seq
      ((collects_keyword hcall .kwAs).right ((collects_keyword hcall .kwFn).right
        ((hcall .ident).seq ((collects_signature hcall).left (collects_mark .semicolon)))))))
  | letStmt =>
    exact Collects.map ((collects_keyword hcall .kwLet).right ((hcall .ident).seq
      ((collects_mark .equals).right ((hcall .sum).left (collects_mark .semicolon)))))
  | returnStmt =>
    exact Collects.map ((collects_keyword hcall .kwReturn).right
      ((hcall .sum).left (collects_mark .semicolon)))
  | exprStmt => exact Collects.map ((hcall .callStmt).left (collects_mark .semicolon))
  | sum => exact Collects.map (((hcall .product).separated .plus).congr constants_sumOf)
  | product => exact Collects.map (((hcall .call).separated .times).congr constants_productOf)
  | call =>
    refine Collects.map (((hcall .dotted).seq (hcall .arguments).many).congr fun v => ?_)
    exact constants_callOf v.1 v.2
  | callStmt =>
    refine Collects.map (((hcall .dotted).seq (hcall .arguments).many1).congr fun v => ?_)
    exact constants_callOf v.1 v.2
  | arguments =>
    exact (collects_mark .openParen).right
      ((hcall .sum).commaList.left (collects_mark .closeParen))
  | dotted =>
    have haccessors := ((collects_mark .dot).right (hcall .ident)).many
    refine Collects.map (((collects_primary hcall).seq haccessors).congr fun v => ?_)
    refine (constants_fieldOf v.1 v.2).trans ?_
    simp [Rule.held]

end Rules

/-- What a rule yields holds the literals that it derives. -/
theorem Rule.DerivesIn.held_eq {n : Nat} {r : Rule} {ts : List Token} {v : r.Value}
    (h : Rule.DerivesIn n r ts v) : r.held v = literals ts := by
  induction n generalizing r ts with
  | zero => exact h.elim
  | succ n ih =>
    -- the rules that the pattern names have lower derivations
    exact collects_pattern (fun r ts v => ih) r ts v h

/-- **The constants of a program** are the literals among its tokens, in order. -/
theorem Rule.Derives.constants_eq {ts : List Token} {q : Program Literal}
    (h : Rule.Derives .program ts q) : q.constants = literals ts := by
  obtain ⟨n, hn⟩ := h
  exact hn.held_eq

end Kelp.Grammar
