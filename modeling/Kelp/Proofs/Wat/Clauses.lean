import Kelp.Proofs.Decimal
import Kelp.Proofs.Grammar.Spacing
import Kelp.Proofs.Wat.SExpr
import Kelp.Wat.Reader

/-!
# Clauses of text modules

The clauses that a module is written in, each with what it takes to read it back.

- `Module.WellNamed` says that all names and types of a module are made of word characters. The
  module that imports come from may be any text.
- `Instr.plain_toSExpr` and its companions: the clauses of such parts hold only words and plain
  strings, so they are cut into the tokens they are made of.
- `Instr.ofSExpr?_toSExpr`, `Func.ofSExpr?_toSExpr` and their companions: each part of a module is
  read back from its clause.
-/

namespace Kelp.Wat

open Grammar (isWordChar)
open SExpr (IsWord IsPlainBody)

/-! ## Names -/

/-- A name of word characters. -/
def IsId (s : String) : Prop := s.toList ≠ [] ∧ ∀ c ∈ s.toList, isWordChar c = true

instance (s : String) : Decidable (IsId s) :=
  decidable_of_iff (s.toList ≠ [] ∧ s.toList.all isWordChar = true)
    (and_congr_right' List.all_eq_true)

theorem isIdentChar_of_isWordChar {c : Char} (h : isWordChar c = true) : isIdentChar c = true := by
  rw [isWordChar, Bool.or_eq_true, beq_iff_eq] at h
  rw [isIdentChar, Bool.or_eq_true]
  rcases h with h | rfl
  · exact Or.inl h
  · exact Or.inr rfl

/-- The characters of names are those of words in S-expressions. -/
theorem isWordChar_sexpr {c : Char} (h : isWordChar c = true) : SExpr.IsWordChar c := by
  constructor
  · rw [Bool.eq_false_iff]
    intro hd
    simp only [SExpr.isDelimiter, SExpr.isSpace, Bool.or_eq_true, beq_iff_eq] at hd
    rcases hd with ((((rfl | rfl) | rfl) | rfl) | rfl) | rfl <;> exact absurd h (by decide)
  · rintro rfl
    exact absurd h (by decide)

namespace IsId

variable {s : String} (h : IsId s)

include h

/-- A name is a word. -/
theorem isWord : IsWord s.toList := ⟨h.1, fun c hc => isWordChar_sexpr (h.2 c hc)⟩

/-- A name is also the inside of a string without escapes. -/
theorem isPlainBody : IsPlainBody s.toList := by
  intro c hc
  constructor
  · exact (isWordChar_sexpr (h.2 c hc)).2
  · rintro rfl
    exact absurd (h.2 _ hc) (by decide)

theorem plain_atom : (SExpr.atom s).Plain := SExpr.plain_atom.2 (Or.inl h.isWord)

/-- A name with a dollar sign in front is a word. -/
theorem plain_ident : (SExpr.ident s).Plain := by
  refine SExpr.plain_atom.2 (Or.inl ⟨by simp, ?_⟩)
  rw [String.toList_append]
  refine List.forall_mem_cons.2 ⟨⟨by decide, by decide⟩, ?_⟩
  exact fun c hc => isWordChar_sexpr (h.2 c hc)

theorem plain_quoted : (SExpr.quoted s).Plain :=
  SExpr.plain_atom.2 (Or.inr ⟨s, rfl, h.isPlainBody⟩)

/-- A name is read back from its identifier. -/
theorem ident?_ident : ident? (SExpr.ident s) = some s := by
  have hchars : ("$" ++ s).toList = '$' :: s.toList := by simp
  rw [SExpr.ident, ident?, hchars]
  cases hs : s.toList with
  | nil => exact absurd hs h.1
  | cons c cs =>
    have hall : (c :: cs).all isIdentChar = true := by
      rw [List.all_eq_true]
      intro x hx
      exact isIdentChar_of_isWordChar (h.2 x (hs ▸ hx))
    show (if (c :: cs).all isIdentChar = true then _ else none) = _
    rw [if_pos hall, ← hs, String.ofList_toList]

end IsId

/-- A string is read back by its inside, whatever that is. -/
theorem quoted?_quoted (s : String) : quoted? (SExpr.quoted s) = some s := by
  have hchars : ("\"" ++ s ++ "\"").toList = '"' :: (s.toList ++ ['"']) := by simp
  rw [SExpr.quoted, quoted?, hchars]
  show (if (s.toList ++ ['"']).getLast? = some '"' then _ else none) = _
  rw [if_pos List.getLast?_concat, List.dropLast_concat, String.ofList_toList]

mutual

/-- The names of an instruction are made of word characters. -/
def Instr.WellNamed : Instr → Prop
  | .const _ => True
  | .localGet x => IsId x
  | .localSet x e => IsId x ∧ e.WellNamed
  | .structGet f e => IsId f ∧ e.WellNamed
  | .binary _ a b => a.WellNamed ∧ b.WellNamed
  | .call f es => IsId f ∧ Instr.AllWellNamed es
  | .ret e => e.WellNamed

/-- The names of several instructions are made of word characters. -/
def Instr.AllWellNamed : List Instr → Prop
  | [] => True
  | e :: es => e.WellNamed ∧ Instr.AllWellNamed es

end

/-- A name and a type of word characters. -/
structure Binder.WellNamed (b : Binder) : Prop where
  name : IsId b.name
  type : IsId b.type

/-- The names and types of a struct are made of word characters. -/
structure Struct.WellNamed (s : Struct) : Prop where
  name : IsId s.name
  fields : ∀ b ∈ s.fields, Binder.WellNamed b

/-- The names and types of an import are made of word characters, apart from the module that it
comes from. -/
structure Import.WellNamed (i : Import) : Prop where
  name : IsId i.name
  params : ∀ t ∈ i.params, IsId t
  result : ∀ t ∈ i.result, IsId t

/-- The names and types of a function are made of word characters. -/
structure Func.WellNamed (f : Func) : Prop where
  name : IsId f.name
  params : ∀ b ∈ f.params, Binder.WellNamed b
  result : ∀ t ∈ f.result, IsId t
  locals : ∀ x ∈ f.locals, IsId x
  body : Instr.AllWellNamed f.body

/-- The names and types of a module are made of word characters. -/
structure Module.WellNamed (m : Module) : Prop where
  structs : ∀ s ∈ m.structs, s.WellNamed
  imports : ∀ i ∈ m.imports, i.WellNamed
  functions : ∀ f ∈ m.functions, f.WellNamed
  exports : ∀ x ∈ m.exports, IsId x
  start : ∀ x ∈ m.start, IsId x

/-! ## Clauses are plain

Keywords, names, types and numbers are words, and exported names are strings without escapes. So all
clauses are plain, apart from the module that an import comes from. -/

theorem isWord_of_all {s : String}
    (h : (!s.toList.isEmpty && s.toList.all fun c => !SExpr.isDelimiter c && c != '"') = true) :
    IsWord s.toList := by
  simp only [Bool.and_eq_true, Bool.not_eq_true', List.isEmpty_eq_false_iff, List.all_eq_true,
    bne_iff_ne] at h
  exact h

theorem plain_clause {keyword : String} (hkeyword : IsWord keyword.toList)
    {arguments : List SExpr} (h : ∀ e ∈ arguments, e.Plain) :
    (SExpr.clause keyword arguments).Plain :=
  SExpr.plain_list.2 (List.forall_mem_cons.2 ⟨SExpr.plain_atom.2 (Or.inl hkeyword), h⟩)

/-- A number is a word, with its sign. -/
theorem isWord_toString (n : Int) : IsWord (toString n).toList := by
  have hdigit : ∀ {c : Char}, c.isDigit = true → SExpr.IsWordChar c :=
    fun hc => isWordChar_sexpr (Grammar.isWordChar_of_isDigit hc)
  obtain ⟨digits, hne, hdigits, htext⟩ := Decimal.isNumeral_toString n
  rcases htext with htext | htext
  · rw [htext]
    exact ⟨hne, fun c hc => hdigit (hdigits c hc)⟩
  · rw [htext]
    refine ⟨List.cons_ne_nil _ _, List.forall_mem_cons.2 ⟨⟨by decide, by decide⟩, ?_⟩⟩
    exact fun c hc => hdigit (hdigits c hc)

mutual

/-- The clause of an instruction is plain, and so are those inside. -/
theorem Instr.plain_toSExpr : ∀ (i : Instr), i.WellNamed → i.toSExpr.Plain
  | .const n, _ => by
    refine plain_clause (isWord_of_all rfl) ?_
    exact List.forall_mem_singleton.2 (SExpr.plain_atom.2 (Or.inl (isWord_toString n)))
  | .localGet x, h => by
    refine plain_clause (isWord_of_all rfl) ?_
    exact List.forall_mem_singleton.2 (IsId.plain_ident h)
  | .localSet x e, h => by
    refine plain_clause (isWord_of_all rfl) ?_
    exact List.forall_mem_cons.2 ⟨h.1.plain_ident,
      List.forall_mem_singleton.2 (e.plain_toSExpr h.2)⟩
  | .structGet f e, h => by
    refine plain_clause (isWord_of_all rfl) ?_
    exact List.forall_mem_cons.2 ⟨h.1.plain_ident,
      List.forall_mem_singleton.2 (e.plain_toSExpr h.2)⟩
  | .binary op a b, h => by
    refine plain_clause (by cases op <;> exact isWord_of_all rfl) ?_
    exact List.forall_mem_cons.2 ⟨a.plain_toSExpr h.1,
      List.forall_mem_singleton.2 (b.plain_toSExpr h.2)⟩
  | .call f es, h => by
    refine plain_clause (isWord_of_all rfl) ?_
    exact List.forall_mem_cons.2 ⟨h.1.plain_ident, Instr.plain_toSExprs es h.2⟩
  | .ret e, h => by
    refine plain_clause (isWord_of_all rfl) ?_
    exact List.forall_mem_singleton.2 (e.plain_toSExpr h)

theorem Instr.plain_toSExprs : ∀ (is : List Instr), Instr.AllWellNamed is →
    ∀ e ∈ Instr.toSExprs is, e.Plain
  | [], _ => fun _ he => nomatch he
  | i :: is, h =>
    List.forall_mem_cons.2 ⟨i.plain_toSExpr h.1, Instr.plain_toSExprs is h.2⟩

end

theorem plain_binder {keyword : String} (hkeyword : IsWord keyword.toList) {b : Binder}
    (hb : Binder.WellNamed b) :
    (SExpr.clause keyword [.ident b.name, .atom b.type]).Plain := by
  refine plain_clause hkeyword ?_
  exact List.forall_mem_cons.2 ⟨hb.name.plain_ident,
    List.forall_mem_singleton.2 hb.type.plain_atom⟩

theorem plain_resultClause {r : Option String} (h : ∀ t ∈ r, IsId t) :
    ∀ e ∈ resultClause r, e.Plain := by
  cases r with
  | none => exact fun _ he => nomatch he
  | some t =>
    refine List.forall_mem_singleton.2 (plain_clause (isWord_of_all rfl) ?_)
    exact List.forall_mem_singleton.2 (IsId.plain_atom (h t rfl))

theorem Struct.plain_toSExpr {s : Struct} (h : s.WellNamed) : s.toSExpr.Plain := by
  refine plain_clause (isWord_of_all rfl) ?_
  refine List.forall_mem_cons.2 ⟨h.name.plain_ident, List.forall_mem_singleton.2 ?_⟩
  refine plain_clause (isWord_of_all rfl) ?_
  exact List.forall_mem_map.2 fun b hb => plain_binder (isWord_of_all rfl) (h.fields b hb)

theorem isId_localType : IsId localType := ⟨by decide, List.all_eq_true.mp rfl⟩

theorem Func.plain_toSExpr {f : Func} (h : f.WellNamed) : f.toSExpr.Plain := by
  refine plain_clause (isWord_of_all rfl) ?_
  refine List.forall_mem_cons.2 ⟨h.name.plain_ident, ?_⟩
  simp only [List.forall_mem_append, List.forall_mem_map]
  refine ⟨⟨⟨?_, plain_resultClause h.result⟩, ?_⟩, Instr.plain_toSExprs f.body h.body⟩
  · exact fun b hb => plain_binder (isWord_of_all rfl) (h.params b hb)
  · intro x hx
    refine plain_clause (isWord_of_all rfl) ?_
    exact List.forall_mem_cons.2 ⟨IsId.plain_ident (h.locals x hx),
      List.forall_mem_singleton.2 isId_localType.plain_atom⟩

/-- The clause of the function inside the clause of an import. -/
def Import.funcClause (i : Import) : SExpr :=
  .clause "func" (.ident i.name ::
    (i.params.map (fun t => .clause "param" [.atom t]) ++ resultClause i.result))

theorem Import.plain_funcClause {i : Import} (h : i.WellNamed) : i.funcClause.Plain := by
  refine plain_clause (isWord_of_all rfl) ?_
  refine List.forall_mem_cons.2 ⟨h.name.plain_ident, ?_⟩
  simp only [List.forall_mem_append, List.forall_mem_map]
  refine ⟨?_, plain_resultClause h.result⟩
  intro t ht
  refine plain_clause (isWord_of_all rfl) ?_
  exact List.forall_mem_singleton.2 (IsId.plain_atom (h.params t ht))

theorem plain_exportClause {x : String} (h : IsId x) : (exportClause x).Plain := by
  refine plain_clause (isWord_of_all rfl) ?_
  refine List.forall_mem_cons.2 ⟨h.plain_quoted, List.forall_mem_singleton.2 ?_⟩
  exact plain_clause (isWord_of_all rfl) (List.forall_mem_singleton.2 h.plain_ident)

theorem plain_startClause {x : String} (h : IsId x) : (startClause x).Plain :=
  plain_clause (isWord_of_all rfl) (List.forall_mem_singleton.2 h.plain_ident)

/-! ## Parts are read back -/

/-- A number is read back from its digits. -/
theorem read?_toString (n : Int) : Decimal.read? (toString n) = some n := by
  have hend : Grammar.EndsWord [] := fun _ hb => nomatch hb
  have hleading := (Decimal.isNumeral_toString n).leading_append hend
  rw [List.append_nil] at hleading
  rw [Decimal.read?, if_pos hleading, Decimal.value_toString]

@[simp] theorem arguments?_clause (keyword : String) (arguments : List SExpr) :
    arguments? keyword (.clause keyword arguments) = some arguments := by
  rw [SExpr.clause, arguments?, if_pos rfl]

/-- A clause with another keyword is not read. -/
theorem arguments?_clause_ne {keyword keyword' : String} (h : keyword' ≠ keyword)
    (arguments : List SExpr) : arguments? keyword (.clause keyword' arguments) = none := by
  rw [SExpr.clause, arguments?, if_neg h]

/-- Only clauses with the keyword are read. -/
theorem exists_clause_of_arguments? {keyword : String} {e : SExpr} {arguments : List SExpr}
    (h : arguments? keyword e = some arguments) : e = .clause keyword arguments := by
  unfold arguments? at h
  split at h
  next k rest =>
    split at h
    next hk =>
      cases h
      rw [SExpr.clause, hk]
    next => cases h
  next => cases h

mutual

/-- **Instructions** are read back from their clauses. -/
theorem Instr.ofSExpr?_toSExpr : ∀ (i : Instr), i.WellNamed → Instr.ofSExpr? i.toSExpr = some i
  | .const n, _ => by
    rw [Instr.toSExpr, SExpr.clause, Instr.ofSExpr?, read?_toString]
    rfl
  | .localGet x, h => by
    rw [Instr.toSExpr, SExpr.clause, Instr.ofSExpr?, IsId.ident?_ident h]
    rfl
  | .localSet x e, h => by
    rw [Instr.toSExpr, SExpr.clause, Instr.ofSExpr?, h.1.ident?_ident, e.ofSExpr?_toSExpr h.2]
    rfl
  | .structGet f e, h => by
    rw [Instr.toSExpr, SExpr.clause, Instr.ofSExpr?, h.1.ident?_ident, e.ofSExpr?_toSExpr h.2]
    rfl
  | .binary .add a b, h => by
    rw [Instr.toSExpr, SExpr.clause, BinaryOp.keyword, Instr.ofSExpr?, a.ofSExpr?_toSExpr h.1,
      b.ofSExpr?_toSExpr h.2]
    rfl
  | .binary .mul a b, h => by
    rw [Instr.toSExpr, SExpr.clause, BinaryOp.keyword, Instr.ofSExpr?, a.ofSExpr?_toSExpr h.1,
      b.ofSExpr?_toSExpr h.2]
    rfl
  | .call f es, h => by
    rw [Instr.toSExpr, SExpr.clause, Instr.ofSExpr?, h.1.ident?_ident,
      Instr.ofSExprs?_toSExprs es h.2]
    rfl
  | .ret e, h => by
    rw [Instr.toSExpr, SExpr.clause, Instr.ofSExpr?, e.ofSExpr?_toSExpr h]
    rfl

theorem Instr.ofSExprs?_toSExprs : ∀ (is : List Instr), Instr.AllWellNamed is →
    Instr.ofSExprs? (Instr.toSExprs is) = some is
  | [], _ => rfl
  | i :: is, h => by
    rw [Instr.toSExprs, Instr.ofSExprs?, i.ofSExpr?_toSExpr h.1, Instr.ofSExprs?_toSExprs is h.2]
    rfl

end

/-- A name and a type are read back from their clause. -/
theorem binder?_clause {keyword x : String} (hx : IsId x) (t : String) :
    binder? keyword (.clause keyword [.ident x, .atom t]) = some ⟨x, t⟩ := by
  rw [binder?, arguments?_clause]
  show (ident? (.ident x)).bind _ = _
  rw [hx.ident?_ident]
  rfl

theorem type?_clause (keyword t : String) :
    type? keyword (.clause keyword [.atom t]) = some t := by
  rw [type?, arguments?_clause]
  rfl

theorem binder?_eq_none {keyword : String} {e : SExpr} (h : arguments? keyword e = none) :
    binder? keyword e = none := by
  rw [binder?, h]

theorem type?_eq_none {keyword : String} {e : SExpr} (h : arguments? keyword e = none) :
    type? keyword e = none := by
  rw [type?, h]

theorem local?_eq_none {e : SExpr} (h : arguments? "local" e = none) : local? e = none := by
  rw [local?, binder?_eq_none h]
  rfl

/-- The words that an instruction's clause does not start with. -/
theorem Instr.arguments?_toSExpr {keyword : String} (h : keyword ∈ ["param", "result", "local"])
    (i : Instr) : arguments? keyword i.toSExpr = none := by
  -- these are all keywords of instructions
  have hne : ∀ k ∈ ["i32.const", "local.get", "local.set", "struct.get", "i32.add", "i32.mul",
      "call", "return"], k ≠ keyword := by
    rintro k hk rfl
    revert k
    decide
  cases i with
  | const n => exact arguments?_clause_ne (hne _ (by decide)) _
  | localGet x => exact arguments?_clause_ne (hne _ (by decide)) _
  | localSet x e => exact arguments?_clause_ne (hne _ (by decide)) _
  | structGet f e => exact arguments?_clause_ne (hne _ (by decide)) _
  | binary op a b => cases op <;> exact arguments?_clause_ne (hne _ (by decide)) _
  | call f es => exact arguments?_clause_ne (hne _ (by decide)) _
  | ret e => exact arguments?_clause_ne (hne _ (by decide)) _

theorem Instr.arguments?_toSExprs {keyword : String} (h : keyword ∈ ["param", "result", "local"]) :
    ∀ (is : List Instr), ∀ e ∈ Instr.toSExprs is, arguments? keyword e = none
  | [] => fun _ he => nomatch he
  | i :: is => List.forall_mem_cons.2 ⟨i.arguments?_toSExpr h, Instr.arguments?_toSExprs h is⟩

/-! ### Runs of clauses -/

/-- The clauses up to the first one that is not accepted. -/
theorem leadingMap_append {α : Type} {f : SExpr → Option α} {es rest : List SExpr} {as : List α}
    (h : List.Forall₂ (fun e a => f e = some a) es as)
    (hrest : ∀ e ∈ rest.head?, f e = none) : leadingMap f (es ++ rest) = (as, rest) := by
  induction h with
  | nil =>
    cases rest with
    | nil => rfl
    | cons e rest => rw [List.nil_append, leadingMap, hrest e rfl]
  | cons h _ ih => rw [List.cons_append, leadingMap, h, ih]

/-- What `leadingMap` gives, in general. -/
theorem exists_of_leadingMap {α : Type} {f : SExpr → Option α} {es rest : List SExpr} {as : List α}
    (h : leadingMap f es = (as, rest)) :
    ∃ front, es = front ++ rest ∧ List.Forall₂ (fun e a => f e = some a) front as ∧
      ∀ e ∈ rest.head?, f e = none := by
  induction es generalizing as with
  | nil =>
    cases h
    exact ⟨[], rfl, .nil, fun _ he => nomatch he⟩
  | cons e es ih =>
    rw [leadingMap] at h
    cases he : f e with
    | none =>
      rw [he] at h
      cases h
      exact ⟨[], rfl, .nil, fun _ hx => by cases hx; exact he⟩
    | some a =>
      rw [he] at h
      cases h
      obtain ⟨front, hes, hfront, hrest⟩ := ih rfl
      exact ⟨e :: front, congrArg (e :: ·) hes, .cons he hfront, hrest⟩

theorem head?_of_forall {P : SExpr → Prop} {es : List SExpr} (h : ∀ e ∈ es, P e) :
    ∀ e ∈ es.head?, P e :=
  fun e he => h e (List.mem_of_head? he)

theorem forall₂_map {α β : Type} {f : β → Option α} {g : α → β} {as : List α}
    (h : ∀ a ∈ as, f (g a) = some a) :
    List.Forall₂ (fun e a => f e = some a) (as.map g) as := by
  induction as with
  | nil => exact .nil
  | cons a as ih =>
    obtain ⟨ha, has⟩ := List.forall_mem_cons.1 h
    exact .cons ha (ih has)

/-- A result is read back where no other one follows. -/
theorem leadingResult_resultClause (r : Option String) {rest : List SExpr}
    (hrest : ∀ e ∈ rest.head?, type? "result" e = none) :
    leadingResult (resultClause r ++ rest) = (r, rest) := by
  cases r with
  | none =>
    cases rest with
    | nil => rfl
    | cons e rest =>
      show leadingResult (e :: rest) = _
      rw [leadingResult, hrest e rfl]
  | some t =>
    show leadingResult (.clause "result" [.atom t] :: rest) = _
    rw [leadingResult, type?_clause]

theorem mem_resultClause {r : Option String} {e : SExpr} (h : e ∈ resultClause r) :
    ∃ t, e = .clause "result" [.atom t] := by
  cases r with
  | none => exact nomatch h
  | some t => exact ⟨t, List.mem_singleton.1 h⟩

/-! ### Declarations -/

/-- Binders are read back from their clauses. -/
theorem mapM_binder? {keyword : String} {bs : List Binder} (h : ∀ b ∈ bs, Binder.WellNamed b) :
    (bs.map fun b => SExpr.clause keyword [.ident b.name, .atom b.type]).mapM (binder? keyword) =
      some bs := by
  induction bs with
  | nil => rfl
  | cons b bs ih =>
    obtain ⟨hb, hbs⟩ := List.forall_mem_cons.1 h
    rw [List.map_cons, List.mapM_cons, binder?_clause hb.name, ih hbs]
    rfl

/-- **Structs** are read back from their clauses. -/
theorem Struct.ofSExpr?_toSExpr {s : Struct} (h : s.WellNamed) :
    Struct.ofSExpr? s.toSExpr = some s := by
  simp only [Struct.ofSExpr?, Struct.toSExpr, arguments?_clause, Option.bind_eq_bind,
    Option.bind_some, Option.pure_def, h.name.ident?_ident, mapM_binder? h.fields]

/-- **Functions** are read back from their clauses. -/
theorem Func.ofSExpr?_toSExpr {f : Func} (h : f.WellNamed) : Func.ofSExpr? f.toSExpr = some f := by
  have hbody : ∀ {keyword}, keyword ∈ ["param", "result", "local"] →
      ∀ e ∈ Instr.toSExprs f.body, arguments? keyword e = none :=
    fun hk => Instr.arguments?_toSExprs hk f.body
  -- no clause behind the parameters is a parameter, and so on
  have hparams : leadingMap (binder? "param") (f.params.map paramClause ++
      (resultClause f.result ++ (f.locals.map localClause ++ Instr.toSExprs f.body))) =
      (f.params, resultClause f.result ++ (f.locals.map localClause ++ Instr.toSExprs f.body)) := by
    refine leadingMap_append (forall₂_map fun b hb => binder?_clause (h.params b hb).name _) ?_
    refine head?_of_forall ?_
    simp only [List.forall_mem_append, List.forall_mem_map]
    refine ⟨?_, ?_, fun e he => binder?_eq_none (hbody (by decide) e he)⟩
    · intro e he
      obtain ⟨t, rfl⟩ := mem_resultClause he
      exact binder?_eq_none (arguments?_clause_ne (by decide) _)
    · exact fun x _ => binder?_eq_none (arguments?_clause_ne (by decide) _)
  have hresult : leadingResult (resultClause f.result ++
      (f.locals.map localClause ++ Instr.toSExprs f.body)) =
      (f.result, f.locals.map localClause ++ Instr.toSExprs f.body) := by
    refine leadingResult_resultClause f.result (head?_of_forall ?_)
    simp only [List.forall_mem_append, List.forall_mem_map]
    refine ⟨?_, fun e he => type?_eq_none (hbody (by decide) e he)⟩
    exact fun x _ => type?_eq_none (arguments?_clause_ne (by decide) _)
  have hlocals : leadingMap local? (f.locals.map localClause ++ Instr.toSExprs f.body) =
      (f.locals, Instr.toSExprs f.body) := by
    refine leadingMap_append (forall₂_map ?_) (head?_of_forall ?_)
    · intro x hx
      rw [local?, localClause, binder?_clause (h.locals x hx)]
      rfl
    · exact fun e he => local?_eq_none (hbody (by decide) e he)
  simp only [Func.ofSExpr?, Func.toSExpr, arguments?_clause, List.append_assoc,
    Option.bind_eq_bind, Option.bind_some, Option.pure_def, hparams, hresult, hlocals,
    h.name.ident?_ident, Instr.ofSExprs?_toSExprs f.body h.body]

theorem export?_exportClause {x : String} (h : IsId x) : export? (exportClause x) = some x := by
  simp only [export?, exportClause, arguments?_clause, Option.bind_eq_bind, Option.bind_some,
    Option.pure_def, quoted?_quoted, h.ident?_ident, if_true]

theorem start?_startClause {x : String} (h : IsId x) : start? (startClause x) = some x := by
  rw [start?, startClause, arguments?_clause]
  exact h.ident?_ident

end Kelp.Wat
