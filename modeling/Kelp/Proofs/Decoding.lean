import Kelp.Proofs.Code
import Kelp.Proofs.EntryPoints
import Kelp.Proofs.Wasm.RoundTrip

/-!
# Binaries decode to their declarations

What a decoder finds in the binary of a source, part by part.

- `Module.DescribedBy` says that the layout of a binary is that of the declarations of a module:
  which types, imports, functions, exports and code it has, and under which indices.
- `exists_stages` finds the stages of a compilation, whether or not the outcome was validated.
- `compileToBinary_describes_iff`: the binary of a source always decodes, and describes the
  declarations of the source exactly when the module that host functions are imported from has a
  legal name, if there are host functions.
- `forgedOptions` has a name of that kind that ends its own string literal and goes on with clauses.
  The binary then has an import that nobody declared.
-/

namespace Kelp

open Wasm (Layout TypeEntry ValueType StorageType)

/-! ## Layouts of declarations -/

/-- The type with the given index is that of a function with the given parameters and result. -/
def Wasm.Layout.HasType (d : Layout) (index : Nat) (params : List String)
    (result : Option String) : Prop :=
  ∃ ps rs, d.types[index]? = some (.func ps rs) ∧
    List.Forall₂ (fun p t => ValueType.ofName? p = some t) params ps ∧
    List.Forall₂ (fun r t => ValueType.ofName? r = some t) result.toList rs

/-- A struct type is that of its declaration. -/
def StructDef.HasEntry (s : StructDef) (entry : TypeEntry) : Prop :=
  ∃ fields, entry = .struct fields ∧
    List.Forall₂ (fun b t => StorageType.ofName? b.type = some t) s.fields fields

/-- The functions of a module with their indices, which start behind those of the host
functions. -/
def Module.numberedFunctions (m : Module) : List (FunctionDef Int × Nat) :=
  m.functions.zipIdx m.hosts.length

/-- The declarations of a module are those that the layout of a binary has. -/
structure Module.DescribedBy (m : Module) (importModule : String) (d : Layout) : Prop where
  /-- The struct types come first, each in its own place. -/
  structs : List.Forall₂ StructDef.HasEntry m.structs (d.types.take m.structs.length)
  /-- No function type occurs twice. -/
  shared : (d.types.drop m.structs.length).Nodup
  /-- Every function type belongs to a function. -/
  used : ∀ t ∈ d.types.drop m.structs.length,
    ∃ k ∈ d.imports.map Wasm.Import.type ++ d.functions, d.types[k]? = some t
  imports : List.Forall₂ (fun h i => Wat.StringBody.decode? importModule = some i.module ∧
    i.name = h.name ∧ d.HasType i.type (h.params.map Binder.type) h.result) m.hosts d.imports
  functions : List.Forall₂ (fun f k => d.HasType k (f.params.map Binder.type) f.result)
    m.functions d.functions
  /-- A name is that of one function, so its index is what it stands for. -/
  names : m.functionNames.Nodup
  exports : d.exports =
    (m.numberedFunctions.filter fun p => p.1.isPublic).map fun p => (p.1.name, p.2)
  start : ∀ k, d.start = some k ↔ ∃ f, (f, k) ∈ m.numberedFunctions ∧ f.name = Module.entryName
  code : List.Forall₂ (fun f c => f.localNames.Nodup ∧
    c.locals = List.replicate f.letNames.length .i32 ∧
    Stmt.EmitsAll (f.scope m.functionNames) f.body c.body) m.functions d.code

/-! ## Types -/

theorem nodup_eraseDups {α : Type} [DecidableEq α] : ∀ as : List α, as.eraseDups.Nodup
  | [] => List.nodup_nil
  | a :: as => by
    rw [List.eraseDups_cons, List.nodup_cons, List.mem_eraseDups]
    -- the head is filtered out of the rest, which stays no longer than it was
    exact ⟨by simp, nodup_eraseDups _⟩
  termination_by as => as.length
  decreasing_by exact Nat.lt_succ_of_le (List.length_filter_le _ as)

/-- Types that differ are encoded as types that differ. -/
theorem Wasm.FuncType.entry_injective : Function.Injective Wasm.FuncType.entry := by
  rintro ⟨params, result⟩ ⟨params', result'⟩ h
  obtain ⟨rfl, hresult⟩ := TypeEntry.func.inj h
  cases result <;> cases result' <;> simp_all

/-- Function types keep their indices in the binary. -/
theorem Wasm.Module.types_of_funcType? {r : Wasm.Module} {k : Nat} {t : Wasm.FuncType}
    (h : r.funcType? k = some t) : r.layout.types[k]? = some t.entry := by
  unfold Wasm.Module.funcType? at h
  split at h
  next => cases h
  next hk =>
    show (r.structs.map TypeEntry.struct ++ r.funcTypes.map Wasm.FuncType.entry)[k]? = _
    rw [List.getElem?_append_right (by simpa using hk), List.length_map, List.getElem?_map, h,
      Option.map_some]

/-- The type of a function has a type for each of its parameters and for its result. -/
theorem Wat.signature?_eq_some {params : List String} {result : Option String}
    {t : Wasm.FuncType} (h : Wat.signature? params result = some t) :
    List.Forall₂ (fun p t => ValueType.ofName? p = some t) params t.params ∧
      List.Forall₂ (fun r t => ValueType.ofName? r = some t) result.toList t.result.toList := by
  simp only [Wat.signature?, Option.bind_eq_bind, Option.bind_eq_some_iff] at h
  obtain ⟨ps, hps, v, hv, h⟩ := h
  cases h
  refine ⟨mapM_eq_some_iff.1 hps, ?_⟩
  cases result with
  | none =>
    cases hv
    exact .nil
  | some name =>
    obtain ⟨t, ht, rfl⟩ := Option.map_eq_some_iff.1 hv
    exact .cons ht .nil

theorem Wasm.Module.hasType_idxOf {r : Wasm.Module} {t : Wasm.FuncType} (ht : t ∈ r.funcTypes)
    {params : List String} {result : Option String} (h : Wat.signature? params result = some t) :
    r.layout.HasType (r.structs.length + r.funcTypes.idxOf t) params result :=
  ⟨t.params, t.result.toList, Wasm.Module.types_of_funcType? (Wat.funcType?_idxOf ht),
    Wat.signature?_eq_some h⟩

section Types

variable {w : Wat.Module} {r : Wasm.Module} (hr : w.resolve? = some r)

include hr

/-- An import has the type that it was written with. -/
theorem Wat.Module.hasType_import (i : Wat.Import) (hi : i ∈ w.imports) (i' : Wasm.Import)
    (h : i.resolve? (fun t => r.structs.length + r.funcTypes.idxOf t) = some i') :
    r.layout.HasType i'.type i.params i.result := by
  obtain ⟨-, sigs, hsigs, htypes, -⟩ := Wat.Module.resolve?_eq_some hr
  obtain ⟨ss, ts, rfl, hss, -⟩ := Wat.Module.signatures?_eq_some hsigs
  obtain ⟨t, ht, hsig⟩ := exists_right_of_mem hss hi
  have hmem : t ∈ r.funcTypes := by
    rw [htypes, List.mem_eraseDups]
    exact List.mem_append_left _ ht
  rw [Wat.Import.type_of_resolve? h hsig]
  exact Wasm.Module.hasType_idxOf hmem hsig

/-- A function has the type that it was written with. -/
theorem Wat.Module.hasType_function (f : Wat.Func) (hf : f ∈ w.functions) (f' : Wasm.Func)
    (h : f.resolve? (fun t => r.structs.length + r.funcTypes.idxOf t) w.functionNames = some f') :
    r.layout.HasType f'.type (f.params.map Binder.type) f.result := by
  obtain ⟨-, sigs, hsigs, htypes, -⟩ := Wat.Module.resolve?_eq_some hr
  obtain ⟨ss, ts, rfl, -, hts⟩ := Wat.Module.signatures?_eq_some hsigs
  obtain ⟨t, ht, hsig⟩ := exists_right_of_mem hts hf
  have hmem : t ∈ r.funcTypes := by
    rw [htypes, List.mem_eraseDups]
    exact List.mem_append_right _ ht
  rw [Wat.Func.type_of_resolve? h hsig]
  exact Wasm.Module.hasType_idxOf hmem hsig

theorem Wat.Module.drop_types :
    r.layout.types.drop w.structs.length = r.funcTypes.map Wasm.FuncType.entry := by
  have hlength := (Wat.Module.resolve?_outline hr).1.length_eq
  exact List.drop_left' (by rw [List.length_map, hlength])

theorem Wat.Module.take_types :
    r.layout.types.take w.structs.length = r.structs.map TypeEntry.struct := by
  have hlength := (Wat.Module.resolve?_outline hr).1.length_eq
  exact List.take_left' (by rw [List.length_map, hlength])

/-- Function types are shared. -/
theorem Wat.Module.nodup_drop_types : (r.layout.types.drop w.structs.length).Nodup := by
  obtain ⟨-, sigs, -, htypes, -⟩ := Wat.Module.resolve?_eq_some hr
  rw [Wat.Module.drop_types hr, htypes]
  exact (nodup_eraseDups sigs).map Wasm.FuncType.entry_injective

/-- Every function type is that of an imported or another function. -/
theorem Wat.Module.exists_index_of_mem_types (entry : TypeEntry)
    (h : entry ∈ r.layout.types.drop w.structs.length) :
    ∃ k ∈ r.typeIndices, r.layout.types[k]? = some entry := by
  obtain ⟨-, sigs, hsigs, htypes, -⟩ := Wat.Module.resolve?_eq_some hr
  rw [Wat.Module.drop_types hr] at h
  obtain ⟨t, ht, rfl⟩ := List.mem_map.1 h
  rw [htypes, List.mem_eraseDups] at ht
  have hindices := mapM_eq_some_iff.1 (Wat.Module.mapM_typeIndices hr hsigs)
  obtain ⟨k, hk, hfuncType⟩ := exists_left_of_mem hindices ht
  exact ⟨k, hk, Wasm.Module.types_of_funcType? hfuncType⟩

end Types

/-! ## Indices of functions -/

/-- A function is found by its name under the index that it has. -/
theorem Module.idxOf?_functionNames {m : Module} (hnames : m.functionNames.Nodup)
    {p : FunctionDef Int × Nat} (hp : p ∈ m.numberedFunctions) :
    m.functionNames.idxOf? p.1.name = some p.2 := by
  obtain ⟨hle, hp⟩ := List.mem_zipIdx_iff_le_and_getElem?_sub.1 hp
  refine idxOf?_of_getElem? hnames ?_
  rw [Module.functionNames, List.getElem?_append_right (by rwa [List.length_map]),
    List.length_map, List.getElem?_map, hp, Option.map_some]

/-- The public functions keep their order among all functions. -/
theorem Module.publicFunctions_eq (m : Module) : m.publicFunctions =
    (m.numberedFunctions.filter fun p => p.1.isPublic).map Prod.fst := by
  have hfst : m.functions = m.numberedFunctions.map Prod.fst :=
    (List.zipIdx_map_fst m.hosts.length m.functions).symm
  rw [Module.publicFunctions, hfst, List.filter_map]
  rfl

/-- The exports are the public functions with their indices. -/
theorem Module.exports_numbered {m : Module} (hm : m.WellFormed) (hnames : m.functionNames.Nodup)
    {exports : List (String × Nat)}
    (h : List.Forall₂ (fun x e => Wat.resolveExport? m.functionNames x = some e)
      (m.publicFunctions.map FunctionDef.name) exports) : exports =
      (m.numberedFunctions.filter fun p => p.1.isPublic).map fun p => (p.1.name, p.2) := by
  rw [Module.publicFunctions_eq, List.map_map, List.forall₂_map_left_iff] at h
  have heq : List.Forall₂ (fun p e => (p.1.name, p.2) = e)
      (m.numberedFunctions.filter fun p => p.1.isPublic) exports := by
    refine forall₂_imp_of_mem h fun p e hp _ he => ?_
    have hmem := List.mem_of_mem_filter hp
    have hname := (hm.wellNamed.functions p.1 (List.fst_mem_of_mem_zipIdx hmem)).name
    simp only [Function.comp_apply, Wat.resolveExport?, Wat.StringBody.decode?_of_isId hname,
      Module.idxOf?_functionNames hnames hmem, Option.bind_eq_bind, Option.bind_some] at he
    exact Option.some.inj he
  rw [← List.forall₂_map_left_iff (f := fun p : FunctionDef Int × Nat => (p.1.name, p.2)),
    List.forall₂_eq_eq_eq] at heq
  exact heq.symm

/-- The start index is that of the entry function. -/
theorem Module.start_eq_some_iff {m : Module} (hnames : m.functionNames.Nodup)
    {start : Option Nat} (h : Wat.resolveStart? m.functionNames
      (m.entry?.map FunctionDef.name) = some start) (k : Nat) :
    start = some k ↔ ∃ f, (f, k) ∈ m.numberedFunctions ∧ f.name = Module.entryName := by
  cases hentry : m.entry? with
  | none =>
    rw [hentry] at h
    cases h
    refine iff_of_false nofun ?_
    rintro ⟨f, hf, hname⟩
    have hf' := List.find?_eq_none.1 hentry f (List.fst_mem_of_mem_zipIdx hf)
    exact hf' (decide_eq_true hname)
  | some f =>
    have hname : f.name = Module.entryName := by
      have hfound := List.find?_some hentry
      exact of_decide_eq_true hfound
    obtain ⟨j, hj⟩ := List.mem_iff_getElem?.1 (List.mem_of_find?_eq_some hentry)
    have hmem : (f, m.hosts.length + j) ∈ m.numberedFunctions :=
      List.mk_add_mem_zipIdx_iff_getElem?.2 hj
    have hindex := Module.idxOf?_functionNames hnames hmem
    rw [hentry, Option.map_some, Wat.resolveStart?, hindex, Option.map_some] at h
    cases h
    constructor
    · rintro ⟨⟩
      exact ⟨f, hmem, hname⟩
    · rintro ⟨g, hg, hg'⟩
      -- a second entry function would have the same index, as it has the same name
      have hindex' := Module.idxOf?_functionNames hnames hg
      rwa [hg', ← hname, hindex] at hindex'

/-! ## Modules -/

/-- **Resolved modules** have the layout of the declarations that they were lowered from. -/
theorem Module.describedBy_layout {m : Module} (hm : m.WellFormed) {importModule : String}
    {t : Wat.Module} (h : m.lower importModule = .ok t) {r : Wasm.Module}
    (hr : t.resolve? = some r) : m.DescribedBy importModule r.layout := by
  have hfunctionNames := Module.functionNames_lower h
  obtain ⟨hdistinct, -, -, -, himports, hfuncs⟩ := Wat.Module.resolve?_eq_some hr
  obtain ⟨hstructs, hexports, hstart⟩ := Wat.Module.resolve?_outline hr
  have htake := Wat.Module.take_types hr
  have hshared := Wat.Module.nodup_drop_types hr
  have hused := Wat.Module.exists_index_of_mem_types hr
  have himport := Wat.Module.hasType_import hr
  have hfunction := Wat.Module.hasType_function hr
  rw [hfunctionNames, Wat.distinct_iff_nodup] at hdistinct
  rw [hfunctionNames] at hexports hstart hfuncs hfunction
  -- from here on the text module is spelled out, so facts about it come before
  obtain ⟨functions, hlower, rfl⟩ := Module.lower_eq_ok h
  simp only [List.length_map] at htake hshared hused
  constructor
  case structs =>
    rw [htake, List.forall₂_map_right_iff]
    refine (List.forall₂_map_left_iff.1 hstructs).imp fun s fields hs => ?_
    unfold Wat.Struct.resolve? at hs
    split at hs
    next => exact ⟨fields, rfl, mapM_eq_some_iff.1 hs⟩
    next => cases hs
  case shared => exact hshared
  case used => exact hused
  case imports =>
    refine forall₂_imp_of_mem (List.forall₂_map_left_iff.1 himports) fun d i hd _ hi => ?_
    obtain ⟨hmodule, hname⟩ := Wat.Import.names_of_resolve? hi
    have hid := Wat.StringBody.decode?_of_isId (hm.wellNamed.hosts d hd).name
    exact ⟨hmodule, (Option.some.inj (hid.symm.trans hname)).symm,
      himport _ (List.mem_map_of_mem hd) i hi⟩
  case functions =>
    refine List.forall₂_map_right_iff.2 (forall₂_comp hlower hfuncs ?_)
    intro f g g' _ hg hlower hresolve
    have htype := hfunction g hg g' hresolve
    obtain ⟨body, -, rfl⟩ := FunctionDef.lower_eq_ok hlower
    exact htype
  case names => exact hdistinct
  case exports => exact Module.exports_numbered hm hdistinct hexports
  case start => exact Module.start_eq_some_iff hdistinct hstart
  case code =>
    refine List.forall₂_map_right_iff.2 (forall₂_comp hlower hfuncs ?_)
    intro f g g' hf _ hlower hresolve
    obtain ⟨hnames, hlocals, hbody⟩ :=
      FunctionDef.emits_of_resolve? (hm.functions f hf) hlower hresolve
    exact ⟨hnames, congrArg (List.replicate · ValueType.i32) hlocals, hbody⟩

/-! ## Binaries -/

/-- The stages of a compilation to a binary. -/
theorem exists_stages {source : String} {options : Options} {binary : Bytes}
    (h : compileToBinary source options = .ok binary) :
    ∃ m t w r, buildModule source = .ok m ∧ m.lower options.importModule = .ok t ∧
      Wat.Module.read? t.text = some w ∧ w.resolve? = some r ∧ r.encode = binary := by
  obtain ⟨m, t, w, r, hm, ht, hw, hr, -, hbinary⟩ := compileToBinary_eq_ok_iff.1 h
  exact ⟨m, t, w, r, hm, ht, hw, hr, hbinary⟩

/-- **Binaries decode to their declarations**: the binary of a source decodes as a whole, and what
it decodes to are the declarations of the source exactly when the module that host functions are
imported from has a legal name, or there are none. -/
theorem compileToBinary_describes_iff {source : String} {options : Options} {binary : Bytes}
    (h : compileToBinary source options = .ok binary) :
    ∃ m d, buildModule source = .ok m ∧ Wasm.decode? binary = some d ∧
      (m.DescribedBy options.importModule d ↔
        (m.hosts ≠ [] → Wat.StringBody.IsLegal options.importModule)) := by
  obtain ⟨m, t, w, r, hm, ht, hw, hr, rfl⟩ := exists_stages h
  have hwell := wellFormed_of_buildModule hm
  refine ⟨m, r.layout, hm, Wasm.decode?_encode r, fun hd hne => ?_, fun hlegal => ?_⟩
  · -- a host function has an import whose module name is decoded from this text
    obtain ⟨host, hhost⟩ := List.exists_mem_of_ne_nil _ hne
    obtain ⟨i, -, hmodule, -⟩ := exists_right_of_mem hd.imports hhost
    exact Wat.StringBody.isSome_decode?_iff.1 (Option.isSome_iff_exists.2 ⟨_, hmodule⟩)
  · -- a legal name does not end its literal, so the text is read as it was written
    have hclosed : m.hosts ≠ [] → SExpr.IsClosedBody options.importModule.toList := by
      intro hne
      obtain ⟨s, hs⟩ := hlegal hne
      exact hs.isClosedBody
    rw [Module.read?_text_lower hwell.wellNamed hclosed ht] at hw
    cases hw
    exact Module.describedBy_layout hwell ht hr

/-- A source with declarations of all kinds. -/
def describedSource : String :=
  "struct P { x: i8, y: f64 } import host.log as fn log(v: i32); " ++
    "fn twice(v: i32) { let w = v * 2; log(w + 1); } pub fn main() { twice(21); }"

theorem describedBy_describedSource : ∃ binary m d,
    compileToBinary describedSource {} = .ok binary ∧ buildModule describedSource = .ok m ∧
      Wasm.decode? binary = some d ∧ m.DescribedBy ({} : Options).importModule d := by
  have hmodule : (buildModule describedSource).toOption.map
      (·.assembles ({} : Options).importModule) = some true := by decide +kernel
  obtain ⟨m', hm', hassembles⟩ := map_toOption_eq_some_iff.1 hmodule
  obtain ⟨binary, hbinary⟩ :=
    (exists_binary_iff_assembles hm' rfl fun _ => ⟨by decide, by decide⟩).2 hassembles
  obtain ⟨m, d, hm, hd, hiff⟩ := compileToBinary_describes_iff hbinary
  exact ⟨binary, m, d, hbinary, hm, hd,
    hiff.2 fun _ => Wat.StringBody.isLegal_of_isId (by decide)⟩

/-- A source with one host function. -/
def hostSource : String := "import log as fn f();"

/-- The name of a module that ends its own string literal. Behind it stands an import of a function
`g`, and then the beginning of another import. -/
def forgedOptions : Options := { importModule := "a\" \"g\" (func $g)) (import \"b" }

/-- **A forged import**: with `forgedOptions`, the one host function of `hostSource` comes to two
imports, of which the first is declared nowhere. -/
theorem forgedOptions_not_described : ∃ binary m d,
    compileToBinary hostSource forgedOptions = .ok binary ∧ buildModule hostSource = .ok m ∧
      Wasm.decode? binary = some d ∧ m.hosts.map HostFunction.name = ["f"] ∧
      d.imports = [⟨"a", "g", 0⟩, ⟨"b", "f", 0⟩] ∧
      ¬ m.DescribedBy forgedOptions.importModule d := by
  have himports : ((compileToBinary hostSource forgedOptions).toOption.bind Wasm.decode?).map
      (·.imports) = some [⟨"a", "g", 0⟩, ⟨"b", "f", 0⟩] := by decide +kernel
  have hhosts : (buildModule hostSource).toOption.map (·.hosts.map HostFunction.name) =
      some ["f"] := by decide +kernel
  obtain ⟨d, hd, himports⟩ := Option.map_eq_some_iff.1 himports
  obtain ⟨binary, hbinary, hd⟩ := Option.bind_eq_some_iff.1 hd
  obtain ⟨m, hm, hhosts⟩ := map_toOption_eq_some_iff.1 hhosts
  rw [toOption_eq_some_iff] at hbinary
  refine ⟨binary, m, d, hbinary, hm, hd, hhosts, himports, fun hdescribed => ?_⟩
  have hlength := hdescribed.imports.length_eq
  rw [himports, ← List.length_map HostFunction.name, hhosts] at hlength
  exact absurd hlength (by decide)

end Kelp
