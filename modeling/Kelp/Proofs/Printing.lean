import Kelp.Proofs.Decimal
import Kelp.Proofs.WellFormed

/-!
# Printing

Writing a program as source text, and reading it back.

- `Program.tokens` writes a program as tokens, with parentheses around every compound part of an
  expression, and `Program.print` puts a space between each two tokens.
- `Program.derives_tokens`: the tokens of a well-formed program derive that program.
- `Program.parse_print`: parsing and printing are inverse to each other on well-formed programs,
  which are the programs that parsing yields.
-/

namespace Kelp

open Grammar

/-! ## The printer -/

/-- The tokens of an expression as a part of another one: in parentheses, unless it is a name or a
constant. -/
def Expr.enclosed (e : Expr Int) (ts : List Terminal) : List Terminal :=
  match e with
  | .var _ => ts
  | .const _ => ts
  | _ => [.mark .openParen] ++ ts ++ [.mark .closeParen]

mutual

/-- The tokens of an expression that stands alone. -/
def Expr.tokens : Expr Int → List Terminal
  | .sum operands => Expr.chainTokens .plus operands
  | .product operands => Expr.chainTokens .times operands
  | .field receiver accessors =>
    receiver.enclosed receiver.tokens ++ accessors.flatMap fun x => [.mark .dot, .ident x]
  | .call callee arguments => callee.enclosed callee.tokens ++ Expr.listsTokens arguments
  | .var name => [.ident name]
  | .const value => [.number (toString value)]

/-- The tokens of expressions with a mark between each two. -/
def Expr.chainTokens (m : Mark) : List (Expr Int) → List Terminal
  | [] => []
  | e :: es => e.enclosed e.tokens ++ Expr.moreTokens m es

/-- The tokens of expressions with a mark before each of them. -/
def Expr.moreTokens (m : Mark) : List (Expr Int) → List Terminal
  | [] => []
  | e :: es => .mark m :: (e.enclosed e.tokens ++ Expr.moreTokens m es)

/-- The tokens of argument lists. -/
def Expr.listsTokens : List (List (Expr Int)) → List Terminal
  | [] => []
  | es :: ess =>
    [.mark .openParen] ++ Expr.chainTokens .comma es ++ [.mark .closeParen] ++ Expr.listsTokens ess

end

/-- The tokens of a statement. -/
def Stmt.tokens : Stmt Int → List Terminal
  | .bind name value =>
    [.keyword .kwLet, .ident name, .mark .equals] ++ value.tokens ++ [.mark .semicolon]
  | .ret value => [.keyword .kwReturn] ++ value.tokens ++ [.mark .semicolon]
  | .eval value => value.tokens ++ [.mark .semicolon]

/-- The tokens of a name with its type. -/
def Binder.tokens (b : Binder) : List Terminal := [.ident b.name, .mark .colon, .ident b.type]

/-- The tokens of names with their types, with a comma between each two. -/
def bindersTokens : List Binder → List Terminal
  | [] => []
  | b :: bs => b.tokens ++ bs.flatMap fun b => .mark .comma :: b.tokens

/-- The tokens of a declaration. -/
def Decl.tokens : Decl Int → List Terminal
  | .struct d =>
    [.keyword .kwStruct, .ident d.name, .mark .openBrace] ++ bindersTokens d.fields ++
      [.mark .closeBrace]
  | .function d =>
    (if d.isPublic then [.keyword .kwPub] else []) ++
      [.keyword .kwFn, .ident d.name, .mark .openParen] ++ bindersTokens d.params ++
      [.mark .closeParen] ++ [.mark .arrow, .ident d.returnType] ++
      [.mark .openBrace] ++ d.body.flatMap Stmt.tokens ++ [.mark .closeBrace]
  | .host d =>
    [.keyword .kwImport, .hostPath d.path, .keyword .kwAs, .keyword .kwFn, .ident d.name,
        .mark .openParen] ++ bindersTokens d.params ++ [.mark .closeParen] ++
      [.mark .arrow, .ident d.returnType] ++ [.mark .semicolon]

/-- The tokens of a program. -/
def Program.tokens (p : Program Int) : List Terminal := p.flatMap Decl.tokens

/-- A program as source text. -/
def Program.print (p : Program Int) : String := String.ofList (spaced p.tokens)

/-! ## The tokens derive the program -/

/-- A constant is read back from its decimal text. -/
theorem derives_const {n : Int} (h : InInt64 n) :
    Nonterminal.Derives .primary [.number (toString n)] (.const n) := by
  have hrange : InInt64 (Decimal.value (toString n).toList) := by rwa [Decimal.value_toString]
  have hconst := Nonterminal.Derives.const hrange
  rwa [Decimal.value_toString] at hconst

/-- An expression that derives its tokens also does as a part of another one. -/
theorem Expr.derives_enclosed {e : Expr Int} (he : e.WellFormed)
    (h : Nonterminal.Derives .sum e.tokens e) :
    Nonterminal.Derives .primary (e.enclosed e.tokens) e := by
  cases e with
  | var name => exact .var
  | const n => exact derives_const he
  | sum operands => exact .parens h
  | product operands => exact .parens h
  | field receiver accessors => exact .parens h
  | call callee arguments => exact .parens h

theorem derives_call_of_primary {ts : List Terminal} {e : Expr Int}
    (h : Nonterminal.Derives .primary ts e) : Nonterminal.Derives .call ts e :=
  .callNone (.dottedNone h)

theorem derives_sum_of_primary {ts : List Terminal} {e : Expr Int}
    (h : Nonterminal.Derives .primary ts e) : Nonterminal.Derives .sum ts e :=
  .sumOne (.productOne (derives_call_of_primary h))

/-- Accessors are read back one by one. -/
theorem derives_accessors : ∀ names : List String, Nonterminal.Derives .accessors
    (names.flatMap fun x => [.mark .dot, .ident x]) names
  | [] => .accessorsNil
  | _ :: names => .accessorsCons (derives_accessors names)

mutual

/-- A well-formed expression derives its tokens. -/
theorem Expr.derives_tokens : ∀ e : Expr Int, e.WellFormed →
    Nonterminal.Derives .sum e.tokens e
  | .sum [], h => absurd h.1 (by decide)
  | .sum [_], h => absurd h.1 (by simp)
  | .sum (e :: e' :: es), h => by
    have he := e.derives_enclosed h.2.1 (e.derives_tokens h.2.1)
    -- two operands at least, or the sum would be read as its only operand
    have hes := Expr.derives_moreSummands (e' :: es) h.2.2
    exact .sumMany (.productOne (derives_call_of_primary he)) hes (List.cons_ne_nil e' es)
  | .product [], h => absurd h.1 (by decide)
  | .product [_], h => absurd h.1 (by simp)
  | .product (e :: e' :: es), h => by
    have he := e.derives_enclosed h.2.1 (e.derives_tokens h.2.1)
    have hes := Expr.derives_moreFactors (e' :: es) h.2.2
    exact .sumOne (.productMany (derives_call_of_primary he) hes (List.cons_ne_nil e' es))
  | .field e names, h => by
    have he := e.derives_enclosed h.1 (e.derives_tokens h.1)
    exact .sumOne (.productOne (.callNone (.dottedSome he (derives_accessors names) h.2.1)))
  | .call e ess, h => by
    have he := e.derives_enclosed h.1 (e.derives_tokens h.1)
    have hess := Expr.derives_argumentLists ess h.2.2
    exact .sumOne (.productOne (.callSome (.dottedNone he) hess h.2.1))
  | .var _, _ => derives_sum_of_primary .var
  | .const _, h => derives_sum_of_primary (derives_const h)

/-- The further operands of a sum. Each one is enclosed, so that its own marks do not count. -/
theorem Expr.derives_moreSummands : ∀ es : List (Expr Int), Expr.AllWellFormed es →
    Nonterminal.Derives .moreSummands (Expr.moreTokens .plus es) es
  | [], _ => .moreSummandsNil
  | e :: es, h => by
    have he := e.derives_enclosed h.1 (e.derives_tokens h.1)
    exact .moreSummandsCons (.productOne (derives_call_of_primary he))
      (Expr.derives_moreSummands es h.2)

/-- The further operands of a product. -/
theorem Expr.derives_moreFactors : ∀ es : List (Expr Int), Expr.AllWellFormed es →
    Nonterminal.Derives .moreFactors (Expr.moreTokens .times es) es
  | [], _ => .moreFactorsNil
  | e :: es, h => by
    have he := e.derives_enclosed h.1 (e.derives_tokens h.1)
    exact .moreFactorsCons (derives_call_of_primary he) (Expr.derives_moreFactors es h.2)

/-- The further arguments of a list. -/
theorem Expr.derives_moreArguments : ∀ es : List (Expr Int), Expr.AllWellFormed es →
    Nonterminal.Derives .moreArguments (Expr.moreTokens .comma es) es
  | [], _ => .moreArgumentsNil
  | e :: es, h => by
    have he := e.derives_enclosed h.1 (e.derives_tokens h.1)
    exact .moreArgumentsCons (derives_sum_of_primary he) (Expr.derives_moreArguments es h.2)

/-- A list of arguments in its parentheses. -/
theorem Expr.derives_arguments : ∀ es : List (Expr Int), Expr.AllWellFormed es →
    Nonterminal.Derives .arguments
      ([.mark .openParen] ++ Expr.chainTokens .comma es ++ [.mark .closeParen]) es
  | [], _ => .argumentsNil
  | e :: es, h => by
    have he := e.derives_enclosed h.1 (e.derives_tokens h.1)
    have hcons := Nonterminal.Derives.argumentsCons (derives_sum_of_primary he)
      (Expr.derives_moreArguments es h.2)
    rwa [List.append_assoc [_]] at hcons

/-- All argument lists of a call. -/
theorem Expr.derives_argumentLists : ∀ ess : List (List (Expr Int)), Expr.ListsWellFormed ess →
    Nonterminal.Derives .argumentLists (Expr.listsTokens ess) ess
  | [], _ => .argumentListsNil
  | es :: ess, h =>
    .argumentListsCons (Expr.derives_arguments es h.1) (Expr.derives_argumentLists ess h.2)

end

/-- A well-formed statement derives its tokens. -/
theorem Stmt.derives_tokens {s : Stmt Int} (h : s.WellFormed) :
    Nonterminal.Derives .statement s.tokens s := by
  cases s with
  | bind name value => exact .letStmt (value.derives_tokens h.2)
  | ret value => exact .returnStmt (value.derives_tokens h)
  | eval value =>
    -- an expression statement is a call, and begins with the production for it
    obtain ⟨hkind, hvalue⟩ := h
    cases value with
    | call e ess =>
      obtain ⟨he, hne, hess⟩ := hvalue
      cases ess with
      | nil => exact absurd rfl hne
      | cons es ess =>
        have hcall := Nonterminal.Derives.callStmt
          (.dottedNone (e.derives_enclosed he (e.derives_tokens he)))
          (Expr.derives_arguments es hess.1) (Expr.derives_argumentLists ess hess.2)
        rwa [List.append_assoc (e.enclosed e.tokens)] at hcall
    | _ => cases hkind

theorem derives_statements_tokens : ∀ {ss : List (Stmt Int)}, (∀ s ∈ ss, s.WellFormed) →
    Nonterminal.Derives .statements (ss.flatMap Stmt.tokens) ss
  | [], _ => .statementsNil
  | _ :: _, h => by
    rw [List.forall_mem_cons] at h
    exact .statementsCons (Stmt.derives_tokens h.1) (derives_statements_tokens h.2)

theorem derives_moreBinders_tokens : ∀ bs : List Binder,
    Nonterminal.Derives .moreBinders (bs.flatMap fun b => .mark .comma :: b.tokens) bs
  | [] => .moreBindersNil
  | _ :: bs => .moreBindersCons (derives_moreBinders_tokens bs)

theorem derives_binders_tokens : ∀ bs : List Binder,
    Nonterminal.Derives .binders (bindersTokens bs) bs
  | [] => .bindersNil
  | _ :: bs => .bindersCons (derives_moreBinders_tokens bs)

/-- A well-formed declaration derives its tokens. The return type is always written, also where it
is `unit`. -/
theorem Decl.derives_tokens {d : Decl Int} (h : d.WellFormed) :
    Nonterminal.Derives .declaration d.tokens d := by
  cases d with
  | struct d => exact .struct (derives_binders_tokens d.fields)
  | function d =>
    exact .function (derives_binders_tokens d.params) .resultSome
      (derives_statements_tokens (FunctionDef.WellFormed.body h))
  | host d => exact .host (derives_binders_tokens d.params) .resultSome

/-- **A well-formed program derives its tokens.** -/
theorem Program.derives_tokens : ∀ {p : Program Int}, p.WellFormed →
    Nonterminal.Derives .program (Program.tokens p) p
  | [], _ => .programNil
  | _ :: _, h => by
    rw [Program.WellFormed, List.forall_mem_cons] at h
    exact .programCons (Decl.derives_tokens h.1) (Program.derives_tokens h.2)

/-! ## The tokens are valid -/

/-- Every one of the tokens is valid. -/
def AllValid (ts : List Terminal) : Prop := ∀ t ∈ ts, t.Valid

@[simp] theorem allValid_nil : AllValid [] := fun _ h => nomatch h

@[simp] theorem allValid_cons {t : Terminal} {ts : List Terminal} :
    AllValid (t :: ts) ↔ t.Valid ∧ AllValid ts := List.forall_mem_cons

@[simp] theorem allValid_append {ts us : List Terminal} :
    AllValid (ts ++ us) ↔ AllValid ts ∧ AllValid us := List.forall_mem_append

@[simp] theorem Terminal.valid_mark (m : Mark) : (Terminal.mark m).Valid := trivial

@[simp] theorem Terminal.valid_keyword (k : Keyword) : (Terminal.keyword k).Valid := trivial

@[simp] theorem Terminal.valid_ident {x : String} : (Terminal.ident x).Valid ↔ IsName x := Iff.rfl

theorem allValid_flatMap {α : Type} {f : α → List Terminal} {as : List α}
    (h : ∀ a ∈ as, AllValid (f a)) : AllValid (as.flatMap f) := by
  intro t ht
  obtain ⟨a, ha, hta⟩ := List.mem_flatMap.1 ht
  exact h a ha t hta

/-- Parentheses are valid tokens. -/
theorem Expr.allValid_enclosed {e : Expr Int} {ts : List Terminal} (h : AllValid ts) :
    AllValid (e.enclosed ts) := by
  cases e <;> simpa [Expr.enclosed] using h

mutual

/-- The tokens of a well-formed expression are valid, as its names and constants are. -/
theorem Expr.allValid_tokens : ∀ e : Expr Int, e.WellFormed → AllValid e.tokens
  | .sum es, h => Expr.allValid_chain .plus es h.2
  | .product es, h => Expr.allValid_chain .times es h.2
  | .field e names, h => by
    rw [Expr.tokens, allValid_append]
    refine ⟨Expr.allValid_enclosed (e.allValid_tokens h.1), allValid_flatMap fun x hx => ?_⟩
    simpa using h.2.2 x hx
  | .call e ess, h => by
    rw [Expr.tokens, allValid_append]
    exact ⟨Expr.allValid_enclosed (e.allValid_tokens h.1), Expr.allValid_lists ess h.2.2⟩
  | .var _, h => allValid_cons.2 ⟨h, allValid_nil⟩
  | .const n, _ => allValid_cons.2 ⟨Decimal.isNumeral_toString n, allValid_nil⟩

theorem Expr.allValid_chain (m : Mark) : ∀ es : List (Expr Int), Expr.AllWellFormed es →
    AllValid (Expr.chainTokens m es)
  | [], _ => allValid_nil
  | e :: es, h => by
    rw [Expr.chainTokens, allValid_append]
    exact ⟨Expr.allValid_enclosed (e.allValid_tokens h.1), Expr.allValid_more m es h.2⟩

theorem Expr.allValid_more (m : Mark) : ∀ es : List (Expr Int), Expr.AllWellFormed es →
    AllValid (Expr.moreTokens m es)
  | [], _ => allValid_nil
  | e :: es, h => by
    rw [Expr.moreTokens, allValid_cons, allValid_append]
    exact ⟨trivial, Expr.allValid_enclosed (e.allValid_tokens h.1), Expr.allValid_more m es h.2⟩

theorem Expr.allValid_lists : ∀ ess : List (List (Expr Int)), Expr.ListsWellFormed ess →
    AllValid (Expr.listsTokens ess)
  | [], _ => allValid_nil
  | es :: ess, h => by
    rw [Expr.listsTokens, allValid_append]
    refine ⟨?_, Expr.allValid_lists ess h.2⟩
    simpa using Expr.allValid_chain .comma es h.1

end

/-- So are those of a statement. -/
theorem Stmt.allValid_tokens {s : Stmt Int} (h : s.WellFormed) : AllValid s.tokens := by
  cases s with
  | bind name value => simpa [Stmt.tokens] using ⟨h.1, value.allValid_tokens h.2⟩
  | ret value => simpa [Stmt.tokens] using value.allValid_tokens h
  | eval value => simpa [Stmt.tokens] using value.allValid_tokens h.2

theorem Binder.allValid_tokens {b : Binder} (h : b.WellFormed) : AllValid b.tokens := by
  simpa [Binder.tokens] using ⟨h.name, h.type⟩

theorem allValid_bindersTokens : ∀ {bs : List Binder}, (∀ b ∈ bs, b.WellFormed) →
    AllValid (bindersTokens bs)
  | [], _ => allValid_nil
  | b :: bs, h => by
    rw [List.forall_mem_cons] at h
    rw [bindersTokens, allValid_append]
    refine ⟨Binder.allValid_tokens h.1, allValid_flatMap fun b hb => ?_⟩
    simpa using Binder.allValid_tokens (h.2 b hb)

/-- So are those of a declaration. -/
theorem Decl.allValid_tokens {d : Decl Int} (h : d.WellFormed) : AllValid d.tokens := by
  cases d with
  | struct d =>
    have hfields := allValid_bindersTokens (StructDef.WellFormed.fields h)
    simpa [Decl.tokens] using ⟨StructDef.WellFormed.name h, hfields⟩
  | function d =>
    obtain ⟨hname, hparams, hreturn, hbody⟩ : d.WellFormed := h
    have hbody : AllValid (d.body.flatMap Stmt.tokens) :=
      allValid_flatMap fun s hs => Stmt.allValid_tokens (hbody s hs)
    have hpub : AllValid (if d.isPublic then [.keyword .kwPub] else []) := by
      split <;> simp
    simpa [Decl.tokens] using ⟨hpub, hname, allValid_bindersTokens hparams, hreturn, hbody⟩
  | host d =>
    obtain ⟨hpath, hname, hparams, hreturn⟩ : d.WellFormed := h
    simpa [Decl.tokens] using ⟨hpath, hname, allValid_bindersTokens hparams, hreturn⟩

theorem Program.allValid_tokens {p : Program Int} (h : p.WellFormed) : AllValid p.tokens :=
  allValid_flatMap fun d hd => Decl.allValid_tokens (h d hd)

/-! ## Reading back -/

/-- A well-formed program is read back from its text. -/
theorem Program.parse_print_of_wellFormed {p : Program Int} (h : p.WellFormed) :
    Program.parse p.print = .ok p := by
  refine Program.parse_eq_ok_iff.2 ⟨p.tokens, ?_, Program.derives_tokens h⟩
  rw [Program.print, String.toList_ofList]
  exact layout_spaced (Program.allValid_tokens h)

/-- **Parsing and printing are inverse**: parsing yields well-formed programs only, every
well-formed program is read back from its text, and so printing and parsing an accepted text again
gives the same program. -/
theorem Program.parse_print :
    (∀ (source : String) (p : Program Int), Program.parse source = .ok p → p.WellFormed) ∧
    (∀ p : Program Int, p.WellFormed → Program.parse p.print = .ok p) ∧
    (∀ (source : String) (p : Program Int), Program.parse source = .ok p →
      Program.parse p.print = .ok p) :=
  ⟨fun _ _ => Program.wellFormed_of_parse, fun _ => Program.parse_print_of_wellFormed,
    fun _ _ h => Program.parse_print_of_wellFormed (Program.wellFormed_of_parse h)⟩

end Kelp
