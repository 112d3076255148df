import Kelp.Proofs.Except
import Kelp.Proofs.StackMachine

/-!
# Assembled modules

What is known of a text module when its names are resolved and the outcome is valid.

- `Module.arity` gives the number of operands of each function of a module, imported or not, and
  whether it has a result. `Module.arity_of_idxOf?` finds it in the types of the functions.
- `Module.exists_valid_body`: the instructions of every function resolve, and the outcome passes the
  check of function bodies in the context of the types that the module declares.
-/

namespace Kelp.Wat

/-! ## Arities -/

/-- The arity of an imported function. -/
def Import.arity (i : Import) : Arity := ⟨i.params.length, i.result.isSome⟩

/-- The arity of a function. -/
def Func.arity (f : Func) : Arity := ⟨f.params.length, f.result.isSome⟩

/-- The names of all functions with their arities, imports first. -/
def Module.arities (m : Module) : List (String × Arity) :=
  m.imports.map (fun i => (i.name, i.arity)) ++ m.functions.map fun f => (f.name, f.arity)

/-- The arity of the function with the given name. -/
def Module.arity (m : Module) (name : String) : Option Arity := m.arities.lookup name

/-- The arity that a function type stands for. -/
def typeArity (t : Wasm.FuncType) : Arity := ⟨t.params.length, t.result.isSome⟩

/-- A function type has as many parameters as names of types, and a result if there is one. -/
theorem typeArity_of_signature? {params : List String} {result : Option String}
    {t : Wasm.FuncType} (h : signature? params result = some t) :
    typeArity t = ⟨params.length, result.isSome⟩ := by
  simp only [signature?, Option.bind_eq_bind, Option.bind_eq_some_iff] at h
  obtain ⟨types, htypes, type, htype, h⟩ := h
  cases h
  have hlength : types.length = params.length := (mapM_eq_some_iff.1 htypes).length_eq.symm
  have hsome : type.isSome = result.isSome := by
    cases result with
    | none =>
      cases htype
      rfl
    | some t =>
      obtain ⟨v, -, rfl⟩ := Option.map_eq_some_iff.1 htype
      rfl
  rw [typeArity, hlength, hsome]

theorem Import.typeArity_signature? {i : Import} {t : Wasm.FuncType} (h : i.signature? = some t) :
    typeArity t = i.arity :=
  typeArity_of_signature? h

theorem Func.typeArity_signature? {f : Func} {t : Wasm.FuncType} (h : f.signature? = some t) :
    typeArity t = f.arity := by
  rw [typeArity_of_signature? h, List.length_map, Func.arity]

/-- The types of all functions, imports first. -/
theorem Module.signatures?_eq_some {m : Module} {sigs : List Wasm.FuncType}
    (h : m.signatures? = some sigs) :
    ∃ ss ts, sigs = ss ++ ts ∧
      List.Forall₂ (fun i t => Import.signature? i = some t) m.imports ss ∧
      List.Forall₂ (fun f t => Func.signature? f = some t) m.functions ts := by
  simp only [Module.signatures?, Option.bind_eq_bind, Option.bind_eq_some_iff] at h
  obtain ⟨ss, hss, ts, hts, h⟩ := h
  cases h
  exact ⟨ss, ts, rfl, mapM_eq_some_iff.1 hss, mapM_eq_some_iff.1 hts⟩

/-- Names with arities, found from the types. -/
theorem map_pair_eq_zip {α : Type} {name : α → String} {arity : α → Arity}
    {signature : α → Option Wasm.FuncType}
    (harity : ∀ {a t}, signature a = some t → typeArity t = arity a) {as : List α}
    {ts : List Wasm.FuncType} (h : List.Forall₂ (fun a t => signature a = some t) as ts) :
    as.map (fun a => (name a, arity a)) = (as.map name).zip (ts.map typeArity) := by
  induction h with
  | nil => rfl
  | cons h _ ih => simp [ih, harity h]

theorem Module.arities_eq_zip {m : Module} {sigs : List Wasm.FuncType}
    (h : m.signatures? = some sigs) : m.arities = m.functionNames.zip (sigs.map typeArity) := by
  obtain ⟨ss, ts, rfl, hss, hts⟩ := Module.signatures?_eq_some h
  rw [Module.arities, Module.functionNames, List.map_append, List.zip_append]
  · rw [map_pair_eq_zip Import.typeArity_signature? hss,
      map_pair_eq_zip Func.typeArity_signature? hts]
  · rw [List.length_map, List.length_map, hss.length_eq]

/-- A name is looked up at its first index. -/
theorem lookup_zip {β : Type} {names : List String} {name : String} {n : Nat}
    (h : names.idxOf? name = some n) (xs : List β) : (names.zip xs).lookup name = xs[n]? := by
  induction names generalizing n xs with
  | nil => simp at h
  | cons x names ih =>
    rw [List.idxOf?_cons] at h
    cases xs with
    | nil => rfl
    | cons y xs =>
      rw [List.zip_cons_cons, List.lookup_cons]
      by_cases hx : x = name
      · subst hx
        simp only [beq_self_eq_true, if_true, Option.some.injEq] at h ⊢
        subst h
        rfl
      · have hx' : (name == x) = false := by simpa using fun h => hx h.symm
        simp only [beq_iff_eq, hx, if_false, Option.map_eq_some_iff] at h
        obtain ⟨k, hk, rfl⟩ := h
        rw [hx']
        exact ih hk xs

/-- The arity of a function is that of its type. -/
theorem Module.arity_of_idxOf? {m : Module} {sigs : List Wasm.FuncType}
    (h : m.signatures? = some sigs) {name : String} {n : Nat}
    (hn : m.functionNames.idxOf? name = some n) : m.arity name = sigs[n]?.map typeArity := by
  rw [Module.arity, Module.arities_eq_zip h, lookup_zip hn, List.getElem?_map]

/-! ## Names that occur once -/

/-- The test on names means that none occurs twice. -/
theorem distinct_iff_nodup {names : List String} : distinct names = true ↔ names.Nodup := by
  induction names with
  | nil => simp [distinct]
  | cons name names ih => simp [distinct, ih]

theorem Module.map_fst_arities (m : Module) : m.arities.map Prod.fst = m.functionNames := by
  rw [Module.arities, List.map_append, List.map_map, List.map_map]
  rfl

/-- The arity of an import is found under its name, if names occur once. -/
theorem Module.arity_import {m : Module} (h : distinct m.functionNames = true) {i : Import}
    (hi : i ∈ m.imports) : m.arity i.name = some i.arity := by
  rw [distinct_iff_nodup, ← Module.map_fst_arities] at h
  exact lookup_eq_some_of_mem h (List.mem_append_left _ (List.mem_map.2 ⟨i, hi, rfl⟩))

/-- So is the arity of a function. -/
theorem Module.arity_function {m : Module} (h : distinct m.functionNames = true) {f : Func}
    (hf : f ∈ m.functions) : m.arity f.name = some f.arity := by
  rw [distinct_iff_nodup, ← Module.map_fst_arities] at h
  exact lookup_eq_some_of_mem h (List.mem_append_right _ (List.mem_map.2 ⟨f, hf, rfl⟩))

/-! ## Valid modules -/

/-- The index at which a function type of the module is found. -/
theorem funcType?_idxOf {r : Wasm.Module} {t : Wasm.FuncType} (h : t ∈ r.funcTypes) :
    r.funcType? (r.structs.length + r.funcTypes.idxOf t) = some t := by
  rw [Wasm.Module.funcType?, if_neg (by omega), Nat.add_sub_cancel_left, List.getElem?_idxOf h]

/-- The parts of a resolved module that concern its functions. -/
theorem Module.resolve?_eq_some {m : Module} {r : Wasm.Module} (h : m.resolve? = some r) :
    distinct m.functionNames = true ∧ ∃ sigs, m.signatures? = some sigs ∧
      r.funcTypes = sigs.eraseDups ∧
      List.Forall₂ (fun i i' => Import.resolve?
        (fun t => r.structs.length + r.funcTypes.idxOf t) i = some i') m.imports r.imports ∧
      List.Forall₂ (fun f f' => Func.resolve?
        (fun t => r.structs.length + r.funcTypes.idxOf t) m.functionNames f = some f')
        m.functions r.functions := by
  unfold Module.resolve? at h
  split at h
  next hdistinct =>
    rw [Bool.and_eq_true] at hdistinct
    simp only [Option.bind_eq_bind, Option.bind_eq_some_iff] at h
    obtain ⟨structs, -, sigs, hsigs, imports, himports, functions, hfunctions, exports, -, start, -,
      h⟩ := h
    cases h
    exact ⟨hdistinct.2, sigs, hsigs, rfl, mapM_eq_some_iff.1 himports,
      mapM_eq_some_iff.1 hfunctions⟩
  next => cases h

/-- The other parts of a resolved module. -/
theorem Module.resolve?_outline {m : Module} {r : Wasm.Module} (h : m.resolve? = some r) :
    List.Forall₂ (fun s fields => Struct.resolve? s = some fields) m.structs r.structs ∧
      List.Forall₂ (fun x e => resolveExport? m.functionNames x = some e) m.exports r.exports ∧
      resolveStart? m.functionNames m.start = some r.start := by
  unfold Module.resolve? at h
  split at h
  next =>
    simp only [Option.bind_eq_bind, Option.bind_eq_some_iff] at h
    obtain ⟨structs, hstructs, sigs, -, imports, -, functions, -, exports, hexports, start, hstart,
      h⟩ := h
    cases h
    exact ⟨mapM_eq_some_iff.1 hstructs, mapM_eq_some_iff.1 hexports, hstart⟩
  next => cases h

theorem Import.type_of_resolve? {typeIndex : Wasm.FuncType → Nat} {i : Import} {i' : Wasm.Import}
    {t : Wasm.FuncType} (h : i.resolve? typeIndex = some i') (ht : i.signature? = some t) :
    i'.type = typeIndex t := by
  simp only [Import.resolve?, ht, Option.bind_eq_bind, Option.bind_some,
    Option.bind_eq_some_iff] at h
  obtain ⟨_, -, _, -, h⟩ := h
  cases h
  rfl

/-- The names of a resolved import are what the strings spell. -/
theorem Import.names_of_resolve? {typeIndex : Wasm.FuncType → Nat} {i : Import} {i' : Wasm.Import}
    (h : i.resolve? typeIndex = some i') :
    StringBody.decode? i.module = some i'.module ∧ StringBody.decode? i.name = some i'.name := by
  simp only [Import.resolve?, Option.bind_eq_bind, Option.bind_eq_some_iff] at h
  obtain ⟨_, -, module, hmodule, name, hname, h⟩ := h
  cases h
  exact ⟨hmodule, hname⟩

/-- The parts of a resolved function. -/
theorem Func.resolve?_eq_some {typeIndex : Wasm.FuncType → Nat} {functions : List String} {f : Func}
    {f' : Wasm.Func} (h : f.resolve? typeIndex functions = some f') :
    ∃ t body, f.signature? = some t ∧
      (Instr.flattenAll f.body).mapM (PlainInstr.resolve? f.localNames functions) = some body ∧
      f' = { type := typeIndex t, locals := f.locals.length, body } := by
  unfold Func.resolve? at h
  split at h
  next =>
    simp only [Option.bind_eq_bind, Option.bind_eq_some_iff] at h
    obtain ⟨t, ht, body, hbody, h⟩ := h
    cases h
    exact ⟨t, body, ht, hbody, rfl⟩
  next => cases h

theorem Func.type_of_resolve? {typeIndex : Wasm.FuncType → Nat} {functions : List String} {f : Func}
    {f' : Wasm.Func} {t : Wasm.FuncType} (h : f.resolve? typeIndex functions = some f')
    (ht : f.signature? = some t) : f'.type = typeIndex t := by
  obtain ⟨t', body, ht', -, rfl⟩ := Func.resolve?_eq_some h
  rw [ht] at ht'
  cases ht'
  rfl

/-- Two lists that go with the same list agree, if their items do. -/
theorem map_eq_map_of_forall₂ {α β γ δ : Type} {R : α → β → Prop} {S : α → γ → Prop} {f : β → δ}
    {g : γ → δ} {as : List α} {bs : List β} {cs : List γ} (h₁ : List.Forall₂ R as bs)
    (h₂ : List.Forall₂ S as cs) (hfg : ∀ a b c, R a b → S a c → f b = g c) :
    bs.map f = cs.map g := by
  induction h₁ generalizing cs with
  | nil =>
    cases h₂
    rfl
  | cons hab _ ih =>
    cases h₂ with
    | cons hac h₂ => rw [List.map_cons, List.map_cons, hfg _ _ _ hab hac, ih h₂]

/-- The types of the functions of a resolved module are those that the text declares. -/
theorem Module.mapM_typeIndices {m : Module} {r : Wasm.Module} (h : m.resolve? = some r)
    {sigs : List Wasm.FuncType} (hsigs : m.signatures? = some sigs) :
    r.typeIndices.mapM r.funcType? = some sigs := by
  obtain ⟨-, sigs', hsigs', htypes, himports, hfunctions⟩ := Module.resolve?_eq_some h
  rw [hsigs] at hsigs'
  cases hsigs'
  obtain ⟨ss, ts, rfl, hss, hts⟩ := Module.signatures?_eq_some hsigs
  -- each index was made from the type of its function
  have hindices : r.typeIndices =
      (ss ++ ts).map fun t => r.structs.length + r.funcTypes.idxOf t := by
    rw [Wasm.Module.typeIndices, List.map_append,
      map_eq_map_of_forall₂ himports hss fun _ _ _ => Import.type_of_resolve?,
      map_eq_map_of_forall₂ hfunctions hts fun _ _ _ => Func.type_of_resolve?]
  rw [hindices, mapM_eq_some_iff, List.forall₂_map_left_iff, List.forall₂_same]
  intro t ht
  refine funcType?_idxOf ?_
  rw [htypes, List.mem_eraseDups]
  exact ht

/-- The type of a function is found under the index that the resolved function has. -/
theorem Module.funcType?_of_resolve? {m : Module} {r : Wasm.Module} (h : m.resolve? = some r)
    {f : Func} (hf : f ∈ m.functions) {t : Wasm.FuncType} (ht : f.signature? = some t) :
    r.funcType? (r.structs.length + r.funcTypes.idxOf t) = some t := by
  obtain ⟨-, sigs, hsigs, htypes, -⟩ := Module.resolve?_eq_some h
  obtain ⟨ss, ts, rfl, -, hts⟩ := Module.signatures?_eq_some hsigs
  obtain ⟨t', ht', hsig⟩ := exists_right_of_mem hts hf
  rw [ht] at hsig
  cases hsig
  refine funcType?_idxOf ?_
  rw [htypes, List.mem_eraseDups]
  exact List.mem_append_right _ ht'

/-- **Valid bodies**: in a valid module, the instructions of every function resolve to a body that
passes the check, in the context of the types that the text declares. -/
theorem Module.exists_valid_body {m : Module} {r : Wasm.Module} (h : m.resolve? = some r)
    (hvalid : r.isValid = true) {sigs : List Wasm.FuncType} (hsigs : m.signatures? = some sigs)
    {f : Func} (hf : f ∈ m.functions) :
    ∃ t body, f.signature? = some t ∧
      (Instr.flattenAll f.body).mapM (PlainInstr.resolve? f.localNames m.functionNames) =
        some body ∧
      Wasm.bodyIsValid ⟨t.params ++ List.replicate f.locals.length .i32, sigs, t.result⟩ body =
        true := by
  obtain ⟨-, -, -, -, -, hfunctions⟩ := Module.resolve?_eq_some h
  obtain ⟨f', hf', hresolve⟩ := exists_right_of_mem hfunctions hf
  obtain ⟨t, body, ht, hbody, rfl⟩ := Func.resolve?_eq_some hresolve
  have htype := Module.funcType?_of_resolve? h hf ht
  rw [Wasm.Module.isValid, Module.mapM_typeIndices h hsigs] at hvalid
  simp only [Bool.and_eq_true, List.all_eq_true] at hvalid
  have hfunc := hvalid.2 _ hf'
  rw [Wasm.Func.isValid, htype] at hfunc
  simp only [Bool.and_eq_true] at hfunc
  exact ⟨t, body, ht, hbody, hfunc.2⟩

end Kelp.Wat
