import Kelp.Proofs.Except
import Kelp.Proofs.Wat.Clauses

/-!
# Reading text modules back

What the assembler reads from the text of a module.

- `Import.ofSExpr?_eq_some` and `Func.ofSExpr?_eq_some` say what the clauses look like that are read
  as imports and as functions.
- `Module.read?_text`: whatever is read from the text of a module has the same structs, functions,
  exports and start function. Its imports are those of the module and possibly more: the name of the
  module that imports come from is written as it is, and may itself contain import clauses.
- `Module.read?_text_of_closed`: where these names are closed, a module is read back from its text.
  `Module.read?_text_of_openEscape`: where one of them ends with an open escape, and no quote is
  bare, nothing is read.
-/

namespace Kelp.Wat

open SExpr (Taken Token tokenLists nodes nodesAll IsTokensOf)

/-! ## What is read as an import or a function -/

/-- A clause that is read as a type. -/
theorem type?_eq_some {keyword : String} {e : SExpr} {t : String} (h : type? keyword e = some t) :
    e = .clause keyword [.atom t] := by
  unfold type? at h
  split at h
  next x hargs =>
    cases x with
    | atom s =>
      cases h
      exact exists_clause_of_arguments? hargs
    | list _ => cases h
  next => cases h

/-- Clauses that are all read as a result. -/
theorem leadingResult_eq_nil {es : List SExpr} {r : Option String}
    (h : leadingResult es = (r, [])) : es = resultClause r := by
  cases es with
  | nil =>
    cases h
    rfl
  | cons e es =>
    rw [leadingResult] at h
    cases ht : type? "result" e with
    | none =>
      rw [ht] at h
      cases h
    | some t =>
      rw [ht] at h
      cases h
      rw [type?_eq_some ht]
      rfl

theorem eq_map_of_forall₂ {keyword : String} {es : List SExpr} {ts : List String}
    (h : List.Forall₂ (fun e t => type? keyword e = some t) es ts) :
    es = ts.map fun t => .clause keyword [.atom t] := by
  induction h with
  | nil => rfl
  | cons h _ ih => rw [type?_eq_some h, ih, List.map_cons]

/-- **A clause that is read as an import.** -/
theorem Import.ofSExpr?_eq_some {e : SExpr} {i : Import} (h : Import.ofSExpr? e = some i) :
    ∃ m n x, e = .clause "import" [m, n, .clause "func" (x ::
        (i.params.map (fun t => .clause "param" [.atom t]) ++ resultClause i.result))] ∧
      quoted? m = some i.module ∧ quoted? n = some i.name ∧ ident? x = some i.name := by
  unfold Import.ofSExpr? at h
  split at h
  next m n f hargs =>
    rw [Option.bind_eq_bind, Option.bind_eq_some_iff] at h
    obtain ⟨children, hfunc, h⟩ := h
    cases children with
    | nil => cases h
    | cons x clauses =>
      obtain ⟨params, rest, hparams⟩ :
          ∃ params rest, leadingMap (type? "param") clauses = (params, rest) := ⟨_, _, rfl⟩
      obtain ⟨result, rest', hresult⟩ : ∃ result rest', leadingResult rest = (result, rest') :=
        ⟨_, _, rfl⟩
      simp only [hparams, hresult, Option.bind_eq_bind, Option.bind_eq_some_iff] at h
      obtain ⟨name, hname, name', hx, h⟩ := h
      split at h
      next hrest =>
        rw [Option.bind_eq_some_iff] at h
        obtain ⟨module, hmodule, h⟩ := h
        cases h
        rw [Bool.and_eq_true, List.isEmpty_iff, decide_eq_true_eq] at hrest
        obtain ⟨rfl, rfl⟩ := hrest
        -- all clauses behind the name are parameters, then a result
        obtain ⟨front, rfl, hfront, -⟩ := exists_of_leadingMap hparams
        rw [leadingResult_eq_nil hresult, eq_map_of_forall₂ hfront] at hfunc
        refine ⟨m, n, x, ?_, hmodule, hname, hx⟩
        rw [exists_clause_of_arguments? hargs, exists_clause_of_arguments? hfunc]
      next => cases h
  next => cases h

/-- The S-expression is a list. -/
def IsList : SExpr → Prop
  | .atom _ => False
  | .list _ => True

theorem isList_of_arguments? {keyword : String} {e : SExpr} {arguments : List SExpr}
    (h : arguments? keyword e = some arguments) : IsList e := by
  rw [exists_clause_of_arguments? h]
  trivial

theorem isList_of_binder? {keyword : String} {e : SExpr} {b : Binder}
    (h : binder? keyword e = some b) : IsList e := by
  unfold binder? at h
  split at h
  next hargs => exact isList_of_arguments? hargs
  next => cases h

theorem isList_of_local? {e : SExpr} {x : String} (h : local? e = some x) : IsList e := by
  rw [local?, Option.bind_eq_some_iff] at h
  obtain ⟨b, hb, -⟩ := h
  exact isList_of_binder? hb

/-- Instructions are lists. -/
theorem isList_of_ofSExprs? {es : List SExpr} {is : List Instr}
    (h : Instr.ofSExprs? es = some is) : ∀ e ∈ es, IsList e := by
  induction es generalizing is with
  | nil => exact fun _ he => nomatch he
  | cons e es ih =>
    rw [Instr.ofSExprs?, Option.bind_eq_bind, Option.bind_eq_some_iff] at h
    obtain ⟨i, hi, h⟩ := h
    rw [Option.bind_eq_bind, Option.bind_eq_some_iff] at h
    obtain ⟨js, hjs, -⟩ := h
    refine List.forall_mem_cons.2 ⟨?_, ih hjs⟩
    cases e with
    | atom s => simp [Instr.ofSExpr?] at hi
    | list es => trivial

/-- All clauses are lists, if the accepted ones and the others are. -/
theorem isList_of_leadingMap {α : Type} {f : SExpr → Option α} {es rest : List SExpr} {as : List α}
    (h : leadingMap f es = (as, rest)) (hf : ∀ {e a}, f e = some a → IsList e)
    (hrest : ∀ e ∈ rest, IsList e) : ∀ e ∈ es, IsList e := by
  obtain ⟨front, rfl, hfront, -⟩ := exists_of_leadingMap h
  refine List.forall_mem_append.2 ⟨?_, hrest⟩
  intro e he
  obtain ⟨a, -, ha⟩ := exists_right_of_mem hfront he
  exact hf ha

theorem isList_of_leadingResult {es rest : List SExpr} {r : Option String}
    (h : leadingResult es = (r, rest)) (hrest : ∀ e ∈ rest, IsList e) : ∀ e ∈ es, IsList e := by
  cases es with
  | nil => exact fun _ he => nomatch he
  | cons e es =>
    rw [leadingResult] at h
    cases ht : type? "result" e with
    | none =>
      rw [ht] at h
      cases h
      exact hrest
    | some t =>
      rw [ht] at h
      cases h
      refine List.forall_mem_cons.2 ⟨?_, hrest⟩
      rw [type?_eq_some ht]
      trivial

/-- **A clause that is read as a function**: a name, and lists behind it. -/
theorem Func.ofSExpr?_eq_some {e : SExpr} {f : Func} (h : Func.ofSExpr? e = some f) :
    ∃ x clauses, e = .clause "func" (x :: clauses) ∧ ident? x = some f.name ∧
      ∀ c ∈ clauses, IsList c := by
  rw [Func.ofSExpr?, Option.bind_eq_bind, Option.bind_eq_some_iff] at h
  obtain ⟨children, hargs, h⟩ := h
  cases children with
  | nil => cases h
  | cons x clauses =>
    obtain ⟨params, rest, hparams⟩ :
        ∃ params rest, leadingMap (binder? "param") clauses = (params, rest) := ⟨_, _, rfl⟩
    obtain ⟨result, rest', hresult⟩ : ∃ result rest', leadingResult rest = (result, rest') :=
      ⟨_, _, rfl⟩
    obtain ⟨locals, instrs, hlocals⟩ :
        ∃ locals instrs, leadingMap local? rest' = (locals, instrs) := ⟨_, _, rfl⟩
    simp only [hparams, hresult, hlocals, Option.bind_eq_bind, Option.bind_eq_some_iff] at h
    obtain ⟨name, hname, body, hbody, h⟩ := h
    cases h
    refine ⟨x, clauses, exists_clause_of_arguments? hargs, hname, ?_⟩
    refine isList_of_leadingMap hparams isList_of_binder? ?_
    refine isList_of_leadingResult hresult ?_
    exact isList_of_leadingMap hlocals isList_of_local? (isList_of_ofSExprs? hbody)

/-! ## Lists that end like an import -/

/-- Two strings and a last S-expression. -/
def endOfImport (module name : String) (last : SExpr) : List SExpr :=
  [.quoted module, .quoted name, last]

theorem not_isList_quoted (name : String) : ¬ IsList (.quoted name) := id

/-- A string is no identifier. -/
theorem ident?_quoted (name : String) : ident? (.quoted name) = none := by
  have hchars : ("\"" ++ name ++ "\"").toList = '"' :: (name.toList ++ ['"']) := by simp
  rw [SExpr.quoted, ident?, hchars]
  split
  next heq => exact absurd (List.cons.inj heq).1 (by decide)
  next => rfl

theorem quoted_ne_atom {name s : String} (hs : s.toList.head? ≠ some '"') :
    SExpr.quoted name ≠ .atom s := by
  intro h
  rw [SExpr.quoted, SExpr.atom.injEq] at h
  refine hs ?_
  rw [← h]
  simp

/-- No string stands in a clause with the given keyword and name, and lists behind them. -/
theorem quoted_notMem {keyword name : String} (hkeyword : keyword.toList.head? ≠ some '"')
    {x : SExpr} {name' : String} (hx : ident? x = some name') {clauses : List SExpr}
    (h : ∀ c ∈ clauses, IsList c) : SExpr.quoted name ∉ .atom keyword :: x :: clauses := by
  intro hmem
  rcases List.mem_cons.1 hmem with heq | hmem
  · exact quoted_ne_atom hkeyword heq
  · rcases List.mem_cons.1 hmem with rfl | hmem
    · rw [ident?_quoted] at hx
      cases hx
    · exact not_isList_quoted name (h _ hmem)

theorem quoted_mem_endOfImport (cs : List SExpr) (module name : String) (last : SExpr) :
    SExpr.quoted name ∈ cs ++ endOfImport module name last :=
  List.mem_append_right _ (List.mem_cons_of_mem _ List.mem_cons_self)

/-- Such a list is not read as a function. -/
theorem func_ofSExpr?_endOfImport (cs : List SExpr) (module name : String) (last : SExpr) :
    Func.ofSExpr? (.list (cs ++ endOfImport module name last)) = none := by
  rw [Option.eq_none_iff_forall_ne_some]
  intro f hf
  obtain ⟨x, clauses, he, hx, hclauses⟩ := Func.ofSExpr?_eq_some hf
  rw [SExpr.clause, SExpr.list.injEq] at he
  -- the list has a string in it, and the clause of a function has none
  have hmem := quoted_mem_endOfImport cs module name last
  rw [he] at hmem
  exact quoted_notMem (by decide) hx hclauses hmem

/-- Such a list has more than two items, and if it has three the first one is a string. -/
theorem export?_endOfImport (cs : List SExpr) (module name : String) (last : SExpr) :
    export? (.list (cs ++ endOfImport module name last)) = none := by
  rw [Option.eq_none_iff_forall_ne_some]
  intro f hf
  unfold export? at hf
  split at hf
  next n body hargs =>
    have he := exists_clause_of_arguments? hargs
    rw [SExpr.clause, SExpr.list.injEq] at he
    cases cs with
    | nil => exact absurd (List.cons.inj he).1 (quoted_ne_atom (by decide))
    | cons c cs =>
      have hlen := congrArg List.length he
      simp only [endOfImport, List.length_append, List.length_cons, List.length_nil] at hlen
      omega
  next => cases hf

/-- Such a list is too long for a start clause. -/
theorem start?_endOfImport (cs : List SExpr) (module name : String) (last : SExpr) :
    start? (.list (cs ++ endOfImport module name last)) = none := by
  rw [Option.eq_none_iff_forall_ne_some]
  intro f hf
  unfold start? at hf
  split at hf
  next x hargs =>
    have he := exists_clause_of_arguments? hargs
    rw [SExpr.clause, SExpr.list.injEq] at he
    have hlen := congrArg List.length he
    simp only [endOfImport, List.length_append, List.length_cons, List.length_nil] at hlen
    omega
  next => cases hf

/-- The clauses of a signature, one type in each. -/
theorem exists_type_of_mem {params : List String} {result : Option String} {c : SExpr}
    (h : c ∈ params.map (fun t => SExpr.clause "param" [.atom t]) ++ resultClause result) :
    ∃ keyword t, c = .clause keyword [.atom t] := by
  rcases List.mem_append.1 h with h | h
  · obtain ⟨t, -, rfl⟩ := List.mem_map.1 h
    exact ⟨_, t, rfl⟩
  · obtain ⟨t, rfl⟩ := mem_resultClause h
    exact ⟨_, t, rfl⟩

/-- Inside a clause that is read as an import, only the clause itself is such a list. -/
theorem Import.eq_clause_of_node {e : SExpr} {i : Import} (h : Import.ofSExpr? e = some i)
    {cs : List SExpr} {module name : String} {last : SExpr}
    (hnode : .list (cs ++ endOfImport module name last) ∈ e.nodes) :
    e = .clause "import" (endOfImport module name last) := by
  obtain ⟨m, n, x, rfl, hm, hn, hx⟩ := Import.ofSExpr?_eq_some h
  cases m with
  | list _ => cases hm
  | atom m =>
    cases n with
    | list _ => cases hn
    | atom n =>
      simp only [SExpr.clause, SExpr.nodes, SExpr.nodesAll, List.mem_cons, List.mem_append,
        List.not_mem_nil, or_false, reduceCtorEq, false_or, SExpr.list.injEq] at hnode
      have htypes := fun c => @exists_type_of_mem i.params i.result c
      rcases hnode with hnode | hnode | hnode | hnode
      · -- the clause itself
        have hlen := congrArg List.length hnode
        simp only [endOfImport, List.length_append, List.length_cons, List.length_nil] at hlen
        obtain ⟨c, rfl⟩ := List.length_eq_one_iff.1 (show cs.length = 1 by omega)
        rw [List.singleton_append, List.cons.injEq] at hnode
        rw [hnode.2]
        rfl
      · -- the clause of its function has no strings
        have hmem := quoted_mem_endOfImport cs module name last
        rw [hnode] at hmem
        refine absurd hmem (quoted_notMem (by decide) hx ?_)
        intro c hc
        obtain ⟨keyword, t, rfl⟩ := htypes c hc
        trivial
      · cases x with
        | atom x => simp [SExpr.nodes] at hnode
        | list _ => cases hx
      · -- the clauses of types are too short
        obtain ⟨c, hc, hnode⟩ := SExpr.mem_nodesAll.1 hnode
        obtain ⟨keyword, t, rfl⟩ := htypes c hc
        simp only [SExpr.clause, SExpr.nodes, SExpr.nodesAll, List.mem_cons, List.mem_append,
          List.not_mem_nil, or_false, reduceCtorEq, SExpr.list.injEq] at hnode
        have hlen := congrArg List.length hnode
        simp only [endOfImport, List.length_append, List.length_cons, List.length_nil] at hlen
        omega

/-- The parameter types of a signature, and the clause of its result. -/
theorem leadingMap_signature (params : List String) (result : Option String) :
    leadingMap (type? "param")
        (params.map (fun t => SExpr.clause "param" [.atom t]) ++ resultClause result) =
      (params, resultClause result) := by
  refine leadingMap_append (forall₂_map fun t _ => type?_clause "param" t) (head?_of_forall ?_)
  intro e he
  obtain ⟨t, rfl⟩ := mem_resultClause he
  exact type?_eq_none (arguments?_clause_ne (by decide) _)

/-- The result of a signature, with nothing behind it. -/
theorem leadingResult_signature (result : Option String) :
    leadingResult (resultClause result) = (result, []) := by
  have h := @leadingResult_resultClause result [] (fun _ he => nomatch he)
  rwa [List.append_nil] at h

/-- An import that is read from a clause with the name and signature of another has these. -/
theorem Import.eq_of_ofSExpr? {i i' : Import} {module : String}
    (h : Import.ofSExpr? (.clause "import" (endOfImport module i.name i.funcClause)) = some i') :
    i' = { i with module } := by
  obtain ⟨m', n', x, he, hmodule, hname, -⟩ := Import.ofSExpr?_eq_some h
  simp only [endOfImport, SExpr.clause, SExpr.list.injEq, List.cons.injEq, true_and, and_true,
    Import.funcClause] at he
  obtain ⟨rfl, rfl, -, hsignature⟩ := he
  rw [quoted?_quoted, Option.some.injEq] at hmodule hname
  -- both signatures are read in the same way
  have hparams := leadingMap_signature i'.params i'.result
  have hparams' := leadingMap_signature i.params i.result
  simp only [SExpr.clause] at hparams hparams'
  rw [← hsignature, hparams', Prod.mk.injEq] at hparams
  have hresult := leadingResult_signature i'.result
  rw [← hparams.2, leadingResult_signature, Prod.mk.injEq] at hresult
  cases i'
  cases i
  simp only at hmodule hname hparams hresult ⊢
  rw [hmodule, hname, hparams.1, hresult.1]

/-! ## Modules -/

/-- What may be taken for the clause of an import. Between the keyword and the name there may be
anything that ends in a string, as long as the name of the module ends with it. -/
def IsTokensOfImport (i : Import) (ts : List Token) : Prop :=
  ∃ front module, module.toList <:+ i.module.toList ∧ ts = .opening :: .atom "import" ::
    (front ++ (tokenLists (endOfImport module i.name i.funcClause) ++ [.closing]))

/-- How the clause of an import is taken, from how its two strings are taken. -/
theorem Import.taken_of_pair {i : Import} (h : i.WellNamed) {P : List Token → Prop}
    (hpair : Taken ((SExpr.quoted i.module).text ++ " " ++ (SExpr.quoted i.name).text).toList P) :
    Taken i.toSExpr.text.toList fun ts => ∃ strings, P strings ∧
      ts = .opening :: .atom "import" :: (strings ++ (i.funcClause.tokenList ++ [.closing])) := by
  -- for the reader of tokens, both strings together are as good as one child of the list
  have htext : i.toSExpr.text = (SExpr.list [.atom "import",
      .atom ((SExpr.quoted i.module).text ++ " " ++ (SExpr.quoted i.name).text),
      i.funcClause]).text := by
    rw [← String.toList_inj, Import.toSExpr, SExpr.clause, SExpr.text_list, SExpr.text_list]
    simp [List.intercalate, SExpr.text, Import.funcClause]
  have hkeyword : (SExpr.atom "import").Readable := Or.inl (isWord_of_all rfl)
  have hchildren : List.Forall₂ (fun e P => Taken e.text.toList P)
      [.atom "import", .atom ((SExpr.quoted i.module).text ++ " " ++ (SExpr.quoted i.name).text),
        i.funcClause]
      [IsTokensOf (.atom "import"), P, IsTokensOf i.funcClause] :=
    .cons (SExpr.cut_text _ hkeyword).taken
      (.cons hpair (.cons (SExpr.cut_text _ (Import.plain_funcClause h).readable).taken .nil))
  rw [htext]
  intro rest us hrest hus
  obtain ⟨_, vs, ⟨tss, htss, rfl⟩, hvs, rfl⟩ := SExpr.taken_list hchildren rest us hrest hus
  rcases htss with _ | ⟨himport, _ | ⟨hstrings, _ | ⟨hfunc, _ | _⟩⟩⟩
  refine ⟨_, vs, ⟨_, hstrings, ?_⟩, hvs, rfl⟩
  rw [himport, hfunc]
  simp [SExpr.tokenList]

/-- The clause of an import, whatever the name of its module is. -/
theorem Import.taken_toSExpr {i : Import} (h : i.WellNamed) :
    Taken i.toSExpr.text.toList (IsTokensOfImport i) := by
  intro rest us hrest hus
  have hpair := @SExpr.taken_quoted_pair i.module i.name h.name.isWord h.name.isPlainBody
  obtain ⟨_, vs, ⟨_, ⟨_, ⟨front, _, rfl, module, hmodule, rfl⟩, rfl⟩, rfl⟩, hvs, rfl⟩ :=
    Import.taken_of_pair h hpair rest us hrest hus
  refine ⟨_, vs, ⟨front, module, hmodule, ?_⟩, hvs, rfl⟩
  simp [SExpr.tokenList, SExpr.text, endOfImport, SExpr.quoted]

/-- The clauses of a module that come after its imports. -/
def Module.laterClauses (m : Module) : List SExpr :=
  m.functions.map Func.toSExpr ++ (m.exports.map exportClause ++ (m.start.map startClause).toList)

/-- The clauses behind the imports are plain. -/
theorem Module.plain_laterClauses {m : Module} (hm : m.WellNamed) :
    ∀ e ∈ m.laterClauses, e.Plain := by
  simp only [Module.laterClauses, List.forall_mem_append, List.forall_mem_map]
  refine ⟨fun f hf => Func.plain_toSExpr (hm.functions f hf),
    fun x hx => plain_exportClause (hm.exports x hx), ?_⟩
  intro e he
  rw [Option.mem_toList, Option.map_eq_some_iff] at he
  obtain ⟨x, hx, rfl⟩ := he
  exact plain_startClause (hm.start x hx)

/-- The tokens of the text of a module, from how its imports are taken. -/
theorem Module.exists_tokens {m : Module} (hm : m.WellNamed) {P : Import → List Token → Prop}
    (hP : ∀ i ∈ m.imports, Taken i.toSExpr.text.toList (P i)) {ts : List Token}
    (hts : SExpr.tokens m.text.toList = some ts) :
    ∃ tss, List.Forall₂ P m.imports tss ∧
      ts = .opening :: ((tokenLists (.atom "module" :: m.structs.map Struct.toSExpr) ++
        (tss.flatten ++ tokenLists m.laterClauses)) ++ [.closing]) := by
  have hwritten : m.toSExpr = .list ((.atom "module" :: m.structs.map Struct.toSExpr) ++
      (m.imports.map Import.toSExpr ++ m.laterClauses)) := by
    simp [Module.toSExpr, SExpr.clause, Module.laterClauses]
  -- how each clause is taken by the reader of tokens
  have hheads := SExpr.taken_texts (.atom "module" :: m.structs.map Struct.toSExpr) (by
    refine List.forall_mem_cons.2 ⟨Or.inl (isWord_of_all rfl), ?_⟩
    exact List.forall_mem_map.2 fun s hs => (Struct.plain_toSExpr (hm.structs s hs)).readable)
  have himports : List.Forall₂ (fun e P => Taken e.text.toList P)
      (m.imports.map Import.toSExpr) (m.imports.map P) := by
    rw [List.forall₂_map_left_iff, List.forall₂_map_right_iff, List.forall₂_same]
    exact hP
  have hlater := SExpr.taken_texts _ fun e he => (Module.plain_laterClauses hm e he).readable
  have htaken := SExpr.taken_list (List.rel_append hheads (List.rel_append himports hlater))
  rw [Module.text, hwritten] at hts
  rw [← List.append_nil (SExpr.text _).toList] at hts
  obtain ⟨_, vs, ⟨tss, htss, rfl⟩, hvs, rfl⟩ := htaken [] ts rfl hts
  cases hvs
  obtain ⟨tss₁, tss₂, rfl, htss₁, htss₂⟩ := exists_append_of_forall₂ htss
  obtain ⟨tss₂, tss₃, rfl, htss₂, htss₃⟩ := exists_append_of_forall₂ htss₂
  rw [List.forall₂_map_left_iff] at htss₂
  refine ⟨tss₂, htss₂, ?_⟩
  rw [List.append_nil, List.flatten_append, List.flatten_append,
    SExpr.flatten_eq_tokenLists htss₁, SExpr.flatten_eq_tokenLists htss₃]

/-- The tree that is read from the text of a module: only in the place of the imports it may differ
from what was written. -/
theorem Module.exists_children {m : Module} (hm : m.WellNamed) {e : SExpr}
    (h : SExpr.read? m.text = some e) :
    ∃ middle tss,
      e = .clause "module" (m.structs.map Struct.toSExpr ++ (middle ++ m.laterClauses)) ∧
      List.Forall₂ IsTokensOfImport m.imports tss ∧ tokenLists middle = tss.flatten := by
  obtain ⟨tss, htss, htokens⟩ :=
    Module.exists_tokens hm (fun i hi => Import.taken_toSExpr (hm.imports i hi))
      (SExpr.read?_eq_some_iff.1 h)
  cases e with
  | atom s => cases htokens
  | list es =>
    rw [SExpr.tokenList, List.cons.injEq, List.append_cancel_right_eq] at htokens
    obtain ⟨clauses, rfl, hclauses⟩ := SExpr.exists_append_left htokens.2
    obtain ⟨middle, rfl, hmiddle⟩ := SExpr.exists_append_right hclauses
    exact ⟨middle, tss, rfl, htss, hmiddle⟩

theorem struct_ofSExpr?_eq_none {e : SExpr} (h : arguments? "type" e = none) :
    Struct.ofSExpr? e = none := by
  rw [Struct.ofSExpr?, h]

theorem import_ofSExpr?_eq_none {e : SExpr} (h : arguments? "import" e = none) :
    Import.ofSExpr? e = none := by
  rw [Import.ofSExpr?, h]

/-- The words that a later clause does not start with. -/
theorem Module.arguments?_laterClauses {m : Module} {keyword : String}
    (h : keyword ∈ ["type", "import"]) : ∀ e ∈ m.laterClauses, arguments? keyword e = none := by
  have hne : ∀ k ∈ ["func", "export", "start"], k ≠ keyword := by
    rintro k hk rfl
    revert k
    decide
  simp only [Module.laterClauses, List.forall_mem_append, List.forall_mem_map]
  refine ⟨fun f _ => arguments?_clause_ne (hne _ (by decide)) _,
    fun x _ => arguments?_clause_ne (hne _ (by decide)) _, ?_⟩
  intro e he
  rw [Option.mem_toList, Option.map_eq_some_iff] at he
  obtain ⟨x, -, rfl⟩ := he
  exact arguments?_clause_ne (hne _ (by decide)) _

/-- Every tree has a token. -/
theorem eq_nil_of_tokenLists {es : List SExpr} (h : tokenLists es = []) : es = [] := by
  cases es with
  | nil => rfl
  | cons e es => cases e <;> cases h

/-- The first tree, from the first tokens. -/
theorem exists_first_of_tokenLists {es : List SExpr} {s : String} {ts : List Token}
    (h : tokenLists es = .opening :: .atom s :: ts) :
    ∃ cs es', es = .list (.atom s :: cs) :: es' := by
  cases es with
  | nil => cases h
  | cons e es =>
    cases e with
    | atom s' => cases h
    | list cs =>
      cases cs with
      | nil => cases h
      | cons c cs =>
        cases c with
        | atom s' =>
          cases h
          exact ⟨cs, es, rfl⟩
        | list _ => cases h

/-- No struct is read in the place of the imports. -/
theorem head?_middle {m : Module} {middle : List SExpr} {tss : List (List Token)}
    (htss : List.Forall₂ IsTokensOfImport m.imports tss)
    (hmiddle : tokenLists middle = tss.flatten) :
    ∀ e ∈ (middle ++ m.laterClauses).head?, Struct.ofSExpr? e = none := by
  generalize m.imports = imports at htss
  cases htss with
  | nil =>
    rw [eq_nil_of_tokenLists hmiddle, List.nil_append]
    refine head?_of_forall fun e he => struct_ofSExpr?_eq_none ?_
    exact Module.arguments?_laterClauses (by decide) e he
  | cons h _ =>
    obtain ⟨front, s, -, rfl⟩ := h
    obtain ⟨cs, es, rfl⟩ := exists_first_of_tokenLists hmiddle
    intro e he
    cases he
    exact struct_ofSExpr?_eq_none (arguments?_clause_ne (by decide) cs)

/-- In the place of the imports, the last list ends like an import. -/
theorem exists_last_middle {imports : List Import} {middle : List SExpr} {tss : List (List Token)}
    (htss : List.Forall₂ IsTokensOfImport imports tss) (hmiddle : tokenLists middle = tss.flatten)
    (hne : middle ≠ []) :
    ∃ ds cs module name last, middle = ds ++ [.list (cs ++ endOfImport module name last)] := by
  rcases List.eq_nil_or_concat' tss with rfl | ⟨tss, ts, rfl⟩
  · exact absurd (eq_nil_of_tokenLists hmiddle) hne
  · obtain ⟨i, -, front, module, -, rfl⟩ :=
      exists_left_of_mem htss (List.mem_append_right _ (List.mem_singleton_self ts))
    rw [List.flatten_append, List.flatten_singleton, ← List.cons_append, ← List.cons_append,
      ← List.append_assoc] at hmiddle
    obtain ⟨ds, cs, rfl⟩ := SExpr.exists_last_of_closing hmiddle
    exact ⟨ds, cs, module, i.name, i.funcClause, rfl⟩

/-- The clauses from which functions, exports and a start function are read hold no list that ends
like an import. -/
theorem notMem_of_read {clauses rest rest' : List SExpr} {fs : List Func} {xs : List String}
    (hfs : leadingMap Func.ofSExpr? clauses = (fs, rest))
    (hxs : leadingMap export? rest = (xs, rest'))
    (hstart : ∀ e ∈ rest', (start? e).isSome = true) (cs : List SExpr) (module name : String)
    (last : SExpr) : .list (cs ++ endOfImport module name last) ∉ clauses := by
  obtain ⟨front, rfl, hfront, -⟩ := exists_of_leadingMap hfs
  obtain ⟨front', rfl, hfront', -⟩ := exists_of_leadingMap hxs
  intro hmem
  rcases List.mem_append.1 hmem with hmem | hmem
  · obtain ⟨f, -, hf⟩ := exists_right_of_mem hfront hmem
    rw [func_ofSExpr?_endOfImport] at hf
    cases hf
  · rcases List.mem_append.1 hmem with hmem | hmem
    · obtain ⟨x, -, hx⟩ := exists_right_of_mem hfront' hmem
      rw [export?_endOfImport] at hx
      cases hx
    · have hsome := hstart _ hmem
      rw [start?_endOfImport] at hsome
      cases hsome

/-- Where the rest of a module is read, all that stands in the place of the imports is read as
imports, and nothing else. -/
theorem imports_of_middle {m : Module} {middle clauses : List SExpr} {tss : List (List Token)}
    {imports : List Import} (htss : List.Forall₂ IsTokensOfImport m.imports tss)
    (hmiddle : tokenLists middle = tss.flatten)
    (himports : leadingMap Import.ofSExpr? (middle ++ m.laterClauses) = (imports, clauses))
    (hclauses : ∀ cs module name last, .list (cs ++ endOfImport module name last) ∉ clauses) :
    clauses = m.laterClauses ∧
      List.Forall₂ (fun e i => Import.ofSExpr? e = some i) middle imports := by
  obtain ⟨front, hsplit, hfront, -⟩ := exists_of_leadingMap himports
  rcases List.append_eq_append_iff.1 hsplit with ⟨more, rfl, hlater⟩ | ⟨more, rfl, rfl⟩
  · -- no later clause is read as an import
    cases more with
    | nil =>
      rw [List.append_nil] at hfront
      exact ⟨hlater.symm, hfront⟩
    | cons e more =>
      have hmem : e ∈ m.laterClauses := hlater ▸ List.mem_cons_self
      obtain ⟨i, -, hi⟩ := exists_right_of_mem hfront (List.mem_append_right _ List.mem_cons_self)
      rw [import_ofSExpr?_eq_none (Module.arguments?_laterClauses (by decide) e hmem)] at hi
      cases hi
  · -- what is left over in the place of the imports has a list that nothing is read from
    cases more with
    | nil => exact ⟨rfl, by rwa [List.append_nil]⟩
    | cons e more =>
      obtain ⟨ds, cs, module, name, last, hlast⟩ := exists_last_middle htss hmiddle (by simp)
      refine absurd ?_ (hclauses cs module name last)
      have hmem : .list (cs ++ endOfImport module name last) ∈ (e :: more).getLast? := by
        rw [← @List.getLast?_append_of_ne_nil _ front (e :: more) (List.cons_ne_nil e more), hlast]
        simp
      exact List.mem_append_left _ (List.mem_of_getLast? hmem)

/-- Each import that was written is read, up to the module that it comes from. -/
theorem exists_import_of_mem {imports imports' : List Import} {middle : List SExpr}
    {tss : List (List Token)} (htss : List.Forall₂ IsTokensOfImport imports tss)
    (hmiddle : tokenLists middle = tss.flatten)
    (hread : List.Forall₂ (fun e i => Import.ofSExpr? e = some i) middle imports') {i : Import}
    (hi : i ∈ imports) :
    ∃ module, module.toList <:+ i.module.toList ∧ { i with module } ∈ imports' := by
  obtain ⟨ts, hts, front, module, hmodule, rfl⟩ := exists_right_of_mem htss hi
  obtain ⟨before, after, rfl⟩ := List.append_of_mem hts
  have hclosing : tokenLists middle =
      (before.flatten ++ .opening :: .atom "import" :: front) ++
        (tokenLists (endOfImport module i.name i.funcClause) ++ .closing :: after.flatten) := by
    rw [hmiddle]
    simp
  obtain ⟨cs, hnode⟩ := SExpr.exists_node_of_closing hclosing
  obtain ⟨e, he, hnode⟩ := SExpr.mem_nodesAll.1 hnode
  obtain ⟨i', hi', hread⟩ := exists_right_of_mem hread he
  rw [Import.eq_clause_of_node hread hnode] at hread
  exact ⟨module, hmodule, Import.eq_of_ofSExpr? hread ▸ hi'⟩

/-- The functions, exports and start function are read back. -/
theorem Module.read_laterClauses {m : Module} (hm : m.WellNamed) :
    leadingMap Func.ofSExpr? m.laterClauses =
        (m.functions, m.exports.map exportClause ++ (m.start.map startClause).toList) ∧
      leadingMap export? (m.exports.map exportClause ++ (m.start.map startClause).toList) =
        (m.exports, (m.start.map startClause).toList) := by
  have hstart : ∀ e ∈ (m.start.map startClause).toList, ∃ x, e = startClause x := by
    intro e he
    rw [Option.mem_toList, Option.map_eq_some_iff] at he
    obtain ⟨x, -, rfl⟩ := he
    exact ⟨x, rfl⟩
  constructor
  · refine leadingMap_append (forall₂_map fun f hf => Func.ofSExpr?_toSExpr (hm.functions f hf))
      (head?_of_forall ?_)
    simp only [List.forall_mem_append, List.forall_mem_map]
    constructor
    · intro x _
      rw [Func.ofSExpr?, exportClause, arguments?_clause_ne (by decide)]
      rfl
    · intro e he
      obtain ⟨x, rfl⟩ := hstart e he
      rw [Func.ofSExpr?, startClause, arguments?_clause_ne (by decide)]
      rfl
  · refine leadingMap_append (forall₂_map fun x hx => export?_exportClause (hm.exports x hx))
      (head?_of_forall ?_)
    intro e he
    obtain ⟨x, rfl⟩ := hstart e he
    rw [export?, startClause, arguments?_clause_ne (by decide)]

/-- **Reading back**: whatever is read from the text of a module is the module, with imports that
include its own. Only the module that an import comes from may differ, and then the end of its name
is left. -/
theorem Module.read?_text {m w : Module} (hm : m.WellNamed) (h : Module.read? m.text = some w) :
    ∃ imports, w = { m with imports } ∧ ∀ i ∈ m.imports,
      ∃ module, module.toList <:+ i.module.toList ∧ { i with module } ∈ imports := by
  rw [Module.read?, Option.bind_eq_some_iff] at h
  obtain ⟨e, he, h⟩ := h
  obtain ⟨middle, tss, rfl, htss, hmiddle⟩ := Module.exists_children hm he
  have hstructs := leadingMap_append
    (forall₂_map fun s hs => Struct.ofSExpr?_toSExpr (hm.structs s hs)) (head?_middle htss hmiddle)
  obtain ⟨imports, clauses, himports⟩ : ∃ imports clauses,
      leadingMap Import.ofSExpr? (middle ++ m.laterClauses) = (imports, clauses) := ⟨_, _, rfl⟩
  obtain ⟨fs, rest, hfs⟩ : ∃ fs rest, leadingMap Func.ofSExpr? clauses = (fs, rest) := ⟨_, _, rfl⟩
  obtain ⟨xs, rest', hxs⟩ : ∃ xs rest', leadingMap export? rest = (xs, rest') := ⟨_, _, rfl⟩
  simp only [Module.ofSExpr?, arguments?_clause, Option.bind_eq_bind, Option.bind_some, hstructs,
    himports, hfs, hxs] at h
  -- nothing or one start clause is behind the exports
  have hstart : ∀ e ∈ rest', (start? e).isSome = true := by
    split at h
    · exact fun _ he => nomatch he
    · rw [Option.bind_eq_some_iff] at h
      obtain ⟨x, hx, -⟩ := h
      exact List.forall_mem_singleton.2 (by rw [hx]; rfl)
    · cases h
  obtain ⟨rfl, hread⟩ := imports_of_middle htss hmiddle himports
    (notMem_of_read hfs hxs hstart)
  obtain ⟨hfs', hxs'⟩ := Module.read_laterClauses hm
  rw [hfs'] at hfs
  cases hfs
  rw [hxs'] at hxs
  cases hxs
  refine ⟨imports, ?_, ?_⟩
  · cases hm' : m.start with
    | none =>
      rw [hm'] at h
      cases h
      rw [← hm']
    | some x =>
      rw [hm'] at h
      have hx := start?_startClause (hm.start x hm')
      simp only [Option.map_some, Option.toList_some, hx, Option.bind_some] at h
      cases h
      rw [← hm']
  · exact fun i hi => exists_import_of_mem htss hmiddle hread hi

/-! ## Modules whose imports have closed names -/

/-- The clause of an import is readable if the name of its module is closed. -/
theorem Import.readable_toSExpr {i : Import} (h : i.WellNamed)
    (hmodule : SExpr.IsClosedBody i.module.toList) : i.toSExpr.Readable :=
  ⟨Or.inl (isWord_of_all rfl), Or.inr ⟨i.module, rfl, hmodule⟩, h.name.plain_quoted.readable,
    (Import.plain_funcClause h).readable, trivial⟩

theorem Import.plain_toSExpr {i : Import} (h : i.WellNamed)
    (hmodule : SExpr.IsPlainBody i.module.toList) : i.toSExpr.Plain := by
  refine plain_clause (isWord_of_all rfl) ?_
  refine List.forall_mem_cons.2 ⟨SExpr.plain_atom.2 (Or.inr ⟨i.module, rfl, hmodule⟩), ?_⟩
  exact List.forall_mem_cons.2 ⟨h.name.plain_quoted,
    List.forall_mem_singleton.2 (Import.plain_funcClause h)⟩

/-- **Imports** are read back from their clauses. -/
theorem Import.ofSExpr?_toSExpr {i : Import} (h : i.WellNamed) :
    Import.ofSExpr? i.toSExpr = some i := by
  simp only [Import.ofSExpr?, Import.toSExpr, arguments?_clause, Option.bind_eq_bind,
    Option.bind_some, Option.pure_def, leadingMap_signature, leadingResult_signature,
    quoted?_quoted, h.name.ident?_ident]
  rfl

/-- The clauses of a module are plain, but for those of its imports. -/
theorem Module.exists_clauses {m : Module} (hm : m.WellNamed) :
    ∃ clauses, m.toSExpr = .clause "module" clauses ∧
      ∀ e ∈ clauses, e.Plain ∨ ∃ i ∈ m.imports, e = i.toSExpr := by
  refine ⟨m.structs.map Struct.toSExpr ++ (m.imports.map Import.toSExpr ++ m.laterClauses),
    by simp [Module.toSExpr, Module.laterClauses], ?_⟩
  simp only [List.forall_mem_append, List.forall_mem_map]
  exact ⟨fun s hs => Or.inl (Struct.plain_toSExpr (hm.structs s hs)),
    fun i hi => Or.inr ⟨i, hi, rfl⟩, fun e he => Or.inl (Module.plain_laterClauses hm e he)⟩

/-- So is the clause of a module, if all these names are closed. -/
theorem Module.readable_toSExpr {m : Module} (hm : m.WellNamed)
    (himports : ∀ i ∈ m.imports, SExpr.IsClosedBody i.module.toList) : m.toSExpr.Readable := by
  obtain ⟨clauses, hclauses, hplain⟩ := Module.exists_clauses hm
  rw [hclauses]
  refine ⟨Or.inl (isWord_of_all rfl), SExpr.allReadable_iff.2 fun e he => ?_⟩
  rcases hplain e he with h | ⟨i, hi, rfl⟩
  · exact h.readable
  · exact Import.readable_toSExpr (hm.imports i hi) (himports i hi)

theorem Module.plain_toSExpr {m : Module} (hm : m.WellNamed)
    (himports : ∀ i ∈ m.imports, SExpr.IsPlainBody i.module.toList) : m.toSExpr.Plain := by
  obtain ⟨clauses, hclauses, hplain⟩ := Module.exists_clauses hm
  rw [hclauses]
  refine plain_clause (isWord_of_all rfl) fun e he => ?_
  rcases hplain e he with h | ⟨i, hi, rfl⟩
  · exact h
  · exact Import.plain_toSExpr (hm.imports i hi) (himports i hi)

/-- **Modules** are read back from their clauses. -/
theorem Module.ofSExpr?_toSExpr {m : Module} (hm : m.WellNamed) :
    Module.ofSExpr? m.toSExpr = some m := by
  have himports : leadingMap Import.ofSExpr? (m.imports.map Import.toSExpr ++ m.laterClauses) =
      (m.imports, m.laterClauses) := by
    refine leadingMap_append (forall₂_map fun i hi => Import.ofSExpr?_toSExpr (hm.imports i hi))
      (head?_of_forall fun e he => import_ofSExpr?_eq_none ?_)
    exact Module.arguments?_laterClauses (by decide) e he
  have hstructs : leadingMap Struct.ofSExpr? (m.structs.map Struct.toSExpr ++
      (m.imports.map Import.toSExpr ++ m.laterClauses)) =
      (m.structs, m.imports.map Import.toSExpr ++ m.laterClauses) := by
    refine leadingMap_append (forall₂_map fun s hs => Struct.ofSExpr?_toSExpr (hm.structs s hs))
      (head?_of_forall fun e he => struct_ofSExpr?_eq_none ?_)
    rcases List.mem_append.1 he with he | he
    · obtain ⟨i, -, rfl⟩ := List.mem_map.1 he
      exact arguments?_clause_ne (by decide) _
    · exact Module.arguments?_laterClauses (by decide) e he
  obtain ⟨hfunctions, hexports⟩ := Module.read_laterClauses hm
  have hwritten : m.toSExpr = .clause "module" (m.structs.map Struct.toSExpr ++
      (m.imports.map Import.toSExpr ++ m.laterClauses)) := by
    simp [Module.toSExpr, Module.laterClauses]
  simp only [hwritten, Module.ofSExpr?, arguments?_clause, Option.bind_eq_bind, Option.bind_some,
    hstructs, himports, hfunctions, hexports]
  cases hstart : m.start with
  | none =>
    show some (Module.mk _ _ _ _ none) = _
    rw [← hstart]
  | some x =>
    show (start? (startClause x)).bind _ = _
    rw [start?_startClause (hm.start x hstart), Option.bind_some, ← hstart]
    rfl

/-- **Reading back** a module whose imports come from modules with closed names. -/
theorem Module.read?_text_of_closed {m : Module} (hm : m.WellNamed)
    (himports : ∀ i ∈ m.imports, SExpr.IsClosedBody i.module.toList) :
    Module.read? m.text = some m := by
  rw [Module.read?, Module.text, SExpr.read?_text (Module.readable_toSExpr hm himports),
    Option.bind_some, Module.ofSExpr?_toSExpr hm]

/-- **Nothing is read** where imports come from a module whose name ends with an open escape. -/
theorem Module.read?_text_of_openEscape {m : Module} (hm : m.WellNamed) (hne : m.imports ≠ [])
    (himports : ∀ i ∈ m.imports, SExpr.hasBareQuote i.module.toList = false ∧
      SExpr.hasOpenEscape i.module.toList = true) : Module.read? m.text = none := by
  rw [Option.eq_none_iff_forall_ne_some]
  intro w hw
  rw [Module.read?, Option.bind_eq_some_iff] at hw
  obtain ⟨e, he, -⟩ := hw
  -- no clause of an import is taken at all
  have hP : ∀ i ∈ m.imports, Taken i.toSExpr.text.toList fun _ => False := by
    intro i hi rest us hrest hus
    obtain ⟨hquote, hescape⟩ := himports i hi
    have hname := (hm.imports i hi).name.isWord
    obtain ⟨_, _, ⟨_, hfalse, -⟩, -⟩ := Import.taken_of_pair (hm.imports i hi)
      (SExpr.taken_quoted_pair_of_openEscape hquote hescape hname) rest us hrest hus
    exact hfalse.elim
  obtain ⟨tss, htss, -⟩ := Module.exists_tokens hm hP (SExpr.read?_eq_some_iff.1 he)
  obtain ⟨i, hi⟩ := List.exists_mem_of_ne_nil _ hne
  obtain ⟨_, -, hfalse⟩ := exists_right_of_mem htss hi
  exact hfalse

end Kelp.Wat
