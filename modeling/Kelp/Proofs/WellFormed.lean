import Kelp.Proofs.Parsing

/-!
# Well-formed programs

The programs that parsing can yield: names are identifiers, chains have at least two operands,
accesses and calls apply something, only calls stand alone, and constants are 64-bit integers.

`Program.wellFormed_of_parse` shows that every parsed program is one, by induction on the derivation
of its tokens.
-/

namespace Kelp

open Grammar

/-! ## Definitions -/

/-- The text is an identifier. -/
def IsName (s : String) : Prop := IsIdentifier s.toList

/-- A name and the name of its type. -/
structure Binder.WellFormed (b : Binder) : Prop where
  name : IsName b.name
  type : IsName b.type

mutual

/-- A well-formed expression. -/
def Expr.WellFormed : Expr Int → Prop
  | .sum operands => 2 ≤ operands.length ∧ Expr.AllWellFormed operands
  | .product operands => 2 ≤ operands.length ∧ Expr.AllWellFormed operands
  | .field receiver accessors =>
    receiver.WellFormed ∧ accessors ≠ [] ∧ ∀ x ∈ accessors, IsName x
  | .call callee arguments =>
    callee.WellFormed ∧ arguments ≠ [] ∧ Expr.ListsWellFormed arguments
  | .var name => IsName name
  | .const value => InInt64 value

/-- Well-formed expressions. -/
def Expr.AllWellFormed : List (Expr Int) → Prop
  | [] => True
  | e :: es => e.WellFormed ∧ Expr.AllWellFormed es

/-- Lists of well-formed expressions. -/
def Expr.ListsWellFormed : List (List (Expr Int)) → Prop
  | [] => True
  | es :: ess => Expr.AllWellFormed es ∧ Expr.ListsWellFormed ess

end

/-- A well-formed statement. Only a call stands alone. -/
def Stmt.WellFormed : Stmt Int → Prop
  | .bind name value => IsName name ∧ value.WellFormed
  | .ret value => value.WellFormed
  | .eval value => value.kind = .call ∧ value.WellFormed

/-- A well-formed struct declaration. -/
structure StructDef.WellFormed (d : StructDef) : Prop where
  name : IsName d.name
  fields : ∀ b ∈ d.fields, b.WellFormed

/-- A well-formed function. -/
structure FunctionDef.WellFormed (d : FunctionDef Int) : Prop where
  name : IsName d.name
  params : ∀ b ∈ d.params, b.WellFormed
  returnType : IsName d.returnType
  body : ∀ s ∈ d.body, s.WellFormed

/-- A well-formed host function. Its path is identifiers joined by dots. -/
structure HostFunction.WellFormed (d : HostFunction) : Prop where
  path : IsHostPath d.path.toList
  name : IsName d.name
  params : ∀ b ∈ d.params, b.WellFormed
  returnType : IsName d.returnType

/-- A well-formed declaration. -/
def Decl.WellFormed : Decl Int → Prop
  | .struct d => d.WellFormed
  | .function d => d.WellFormed
  | .host d => d.WellFormed

/-- A well-formed program. -/
def Program.WellFormed (p : Program Int) : Prop := ∀ d ∈ p, d.WellFormed

/-! ## Parsed programs -/

namespace Grammar

/-- What a well-formed tree is, for each kind of phrase. -/
def Nonterminal.WellFormed : (n : Nonterminal) → n.Value → Prop
  | .program, p => Program.WellFormed p
  | .declaration, d => d.WellFormed
  | .binders, bs => ∀ b ∈ bs, b.WellFormed
  | .moreBinders, bs => ∀ b ∈ bs, b.WellFormed
  | .result, type => IsName type
  | .statements, ss => ∀ s ∈ ss, s.WellFormed
  | .statement, s => s.WellFormed
  | .sum, e => e.WellFormed
  | .moreSummands, es => Expr.AllWellFormed es
  | .product, e => e.WellFormed
  | .moreFactors, es => Expr.AllWellFormed es
  | .call, e => e.WellFormed
  | .argumentLists, ess => Expr.ListsWellFormed ess
  | .arguments, es => Expr.AllWellFormed es
  | .moreArguments, es => Expr.AllWellFormed es
  | .dotted, e => e.WellFormed
  | .accessors, names => ∀ x ∈ names, IsName x
  | .primary, e => e.WellFormed

theorem isName_unitType : IsName unitType :=
  ⟨rfl, List.all_eq_true.mp rfl, fun k => by cases k <;> decide⟩

/-- A chain with an operand behind the first one has two. -/
theorem two_le_length_cons {α : Type} {x : α} {xs : List α} (h : xs ≠ []) :
    2 ≤ (x :: xs).length := by
  have := List.length_pos_of_ne_nil h
  rw [List.length_cons]
  omega

/-- Only valid tokens are laid out. -/
theorem Layout.valid {ws : List Terminal} {s : List Char} (h : Layout ws s) :
    ∀ t ∈ ws, t.Valid := by
  induction h with
  | done _ => exact fun _ ht => nomatch ht
  | token _ ht _ _ ih => exact List.forall_mem_cons.2 ⟨ht, ih⟩

/-- **Trees of valid tokens are well-formed.** -/
theorem Nonterminal.Derives.wellFormed {n : Nonterminal} {ws : List Terminal} {v : n.Value}
    (h : n.Derives ws v) (hws : ∀ t ∈ ws, t.Valid) : n.WellFormed v := by
  -- one case for each production: its tokens are those of its parts and a few of its own
  induction h with
  | programNil => exact fun _ hd => nomatch hd
  | programCons _ _ ihd ihp =>
    rw [List.forall_mem_append] at hws
    exact List.forall_mem_cons.2 ⟨ihd hws.1, ihp hws.2⟩
  | struct _ ih =>
    simp only [List.forall_mem_append, List.forall_mem_cons] at hws
    exact ⟨hws.1.1.2.1, ih hws.1.2⟩
  | function _ _ _ ihp ihr ihs =>
    simp only [List.forall_mem_append, List.forall_mem_cons] at hws
    obtain ⟨⟨⟨⟨⟨⟨⟨-, -, hname, -⟩, hps⟩, -⟩, hrs⟩, -⟩, hss⟩, -⟩ := hws
    exact ⟨hname, ihp hps, ihr hrs, ihs hss⟩
  | host _ _ ihp ihr =>
    simp only [List.forall_mem_append, List.forall_mem_cons] at hws
    obtain ⟨⟨⟨⟨⟨-, hpath, -, -, hname, -⟩, hps⟩, -⟩, hrs⟩, -⟩ := hws
    exact ⟨hpath, hname, ihp hps, ihr hrs⟩
  | bindersNil => exact fun _ hb => nomatch hb
  | bindersCons _ ih =>
    simp only [List.forall_mem_append, List.forall_mem_cons] at hws
    exact List.forall_mem_cons.2 ⟨⟨hws.1.1, hws.1.2.2.1⟩, ih hws.2⟩
  | moreBindersNil => exact fun _ hb => nomatch hb
  | moreBindersComma => exact fun _ hb => nomatch hb
  | moreBindersCons _ ih =>
    simp only [List.forall_mem_append, List.forall_mem_cons] at hws
    exact List.forall_mem_cons.2 ⟨⟨hws.1.2.1, hws.1.2.2.2.1⟩, ih hws.2⟩
  | resultNone => exact isName_unitType
  | resultSome =>
    simp only [List.forall_mem_cons] at hws
    exact hws.2.1
  | statementsNil => exact fun _ hs => nomatch hs
  | statementsCons _ _ ihs ihss =>
    rw [List.forall_mem_append] at hws
    exact List.forall_mem_cons.2 ⟨ihs hws.1, ihss hws.2⟩
  | letStmt _ ih =>
    simp only [List.forall_mem_append, List.forall_mem_cons] at hws
    exact ⟨hws.1.1.2.1, ih hws.1.2⟩
  | returnStmt _ ih =>
    simp only [List.forall_mem_append] at hws
    exact ih hws.1.2
  | callStmt _ _ _ ihe ihes ihess =>
    simp only [List.forall_mem_append] at hws
    exact ⟨rfl, ihe hws.1.1.1, List.cons_ne_nil _ _, ihes hws.1.1.2, ihess hws.1.2⟩
  | sumOne _ ih => exact ih hws
  | sumMany _ _ hne ihe ihes =>
    rw [List.forall_mem_append] at hws
    exact ⟨two_le_length_cons hne, ihe hws.1, ihes hws.2⟩
  | moreSummandsNil => trivial
  | moreSummandsCons _ _ ihe ihes =>
    rw [List.forall_mem_cons, List.forall_mem_append] at hws
    exact ⟨ihe hws.2.1, ihes hws.2.2⟩
  | productOne _ ih => exact ih hws
  | productMany _ _ hne ihe ihes =>
    rw [List.forall_mem_append] at hws
    exact ⟨two_le_length_cons hne, ihe hws.1, ihes hws.2⟩
  | moreFactorsNil => trivial
  | moreFactorsCons _ _ ihe ihes =>
    rw [List.forall_mem_cons, List.forall_mem_append] at hws
    exact ⟨ihe hws.2.1, ihes hws.2.2⟩
  | callNone _ ih => exact ih hws
  | callSome _ _ hne ihe ihess =>
    rw [List.forall_mem_append] at hws
    exact ⟨ihe hws.1, hne, ihess hws.2⟩
  | argumentListsNil => trivial
  | argumentListsCons _ _ ihes ihess =>
    rw [List.forall_mem_append] at hws
    exact ⟨ihes hws.1, ihess hws.2⟩
  | argumentsNil => trivial
  | argumentsCons _ _ ihe ihes =>
    simp only [List.forall_mem_append] at hws
    exact ⟨ihe hws.1.1.2, ihes hws.1.2⟩
  | moreArgumentsNil => trivial
  | moreArgumentsComma => trivial
  | moreArgumentsCons _ _ ihe ihes =>
    rw [List.forall_mem_cons, List.forall_mem_append] at hws
    exact ⟨ihe hws.2.1, ihes hws.2.2⟩
  | dottedNone _ ih => exact ih hws
  | dottedSome _ _ hne ihe ihnames =>
    rw [List.forall_mem_append] at hws
    exact ⟨ihe hws.1, hne, ihnames hws.2⟩
  | accessorsNil => exact fun _ hx => nomatch hx
  | accessorsCons _ ih =>
    simp only [List.forall_mem_append, List.forall_mem_cons] at hws
    exact List.forall_mem_cons.2 ⟨hws.1.2.1, ih hws.2⟩
  | const hrange => exact hrange
  | var => exact hws _ List.mem_cons_self
  | parens _ ih =>
    simp only [List.forall_mem_append] at hws
    exact ih hws.1.2

end Grammar

/-- A parsed program is well-formed. -/
theorem Program.wellFormed_of_parse {source : String} {p : Program Int}
    (h : Program.parse source = .ok p) : p.WellFormed := by
  obtain ⟨ws, hlayout, hws⟩ := Program.parse_eq_ok_iff.1 h
  exact hws.wellFormed hlayout.valid

end Kelp
