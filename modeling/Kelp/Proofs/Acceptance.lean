import Kelp.Proofs.Code
import Kelp.Proofs.Printing
import Kelp.Proofs.Typing

/-!
# Well-typed sources compile

A well-typed source is compiled, with validation, as long as it stays within the limits on sizes
that the validation sets.

- `Module.WithinLimits` collects these limits.
- `Module.WellTyped.isValid_iff`: a well-typed module with all names resolved is valid exactly when
  it stays within the limits.
- `compileToBinary_wellTyped_iff`: so a well-typed source has a binary, and a loader, exactly when
  it stays within the limits. `wellTyped_refused` has sources that do not.
-/

namespace Kelp

open Wat (Instr PlainInstr)
open Wasm (Context)

/-! ## Types of functions -/

theorem mapM_ofName?_word {types : List String} (h : ∀ t ∈ types, t = wordType) :
    types.mapM Wasm.ValueType.ofName? = some (List.replicate types.length .i32) := by
  induction types with
  | nil => rfl
  | cons t types ih =>
    obtain ⟨rfl, htypes⟩ := List.forall_mem_cons.1 h
    rw [List.mapM_cons, ih htypes]
    rfl

/-- A signature over words resolves, to a type over words. -/
theorem WordSignature.signature? {params : List Binder} {returnType : String}
    (h : WordSignature params returnType) :
    Wat.signature? (params.map Binder.type) (resultType returnType) =
      some (wordFuncType params.length returnType) := by
  have hresult : Wat.resultType? (resultType returnType) = some (stackType returnType) := by
    rcases h.returnType with rfl | rfl <;> rfl
  rw [Wat.signature?, mapM_ofName?_word (List.forall_mem_map.2 h.params), hresult, List.length_map]
  rfl

/-- The types of all functions of a well-typed module. -/
def Module.wordFuncTypes (m : Module) : List Wasm.FuncType :=
  m.interfaces.map fun i => wordFuncType i.2.1 i.2.2

/-! ## Limits -/

/-- The size of the type of a function, as far as it counts for what modules import and export. -/
def signatureSize (params : List Binder) (result : Option String) : Nat :=
  2 + params.length + result.toList.length

/-- The size of the types of all host functions and public functions of a module. -/
def Module.linkageSize (m : Module) : Nat :=
  1 + (m.hosts.map fun h => signatureSize h.params h.result).sum +
    (m.publicFunctions.map fun f => signatureSize f.params f.result).sum

/-- The code of a function has no more bytes than engines take. -/
def Module.CodeFits (m : Module) (f : FunctionDef Int) : Prop :=
  ∀ is, Stmt.EmitsAll (f.scope m.functionNames) f.body is →
    (Wasm.codeBytes f.letNames.length is).length ≤ Wasm.maxCodeSize

/-- The sizes of a module are within the limits of the validation. -/
structure Module.WithinLimits (m : Module) (importModule : String) : Prop where
  fields : ∀ s ∈ m.structs, s.fields.length ≤ Wasm.maxFields
  hostParams : ∀ h ∈ m.hosts, h.params.length ≤ Wasm.maxParams
  params : ∀ f ∈ m.functions, f.params.length ≤ Wasm.maxParams
  locals : ∀ f ∈ m.functions, f.localNames.length ≤ Wasm.maxLocals
  code : ∀ f ∈ m.functions, m.CodeFits f
  hostNames : ∀ h ∈ m.hosts, h.name.utf8ByteSize ≤ Wasm.maxNameSize
  exportNames : ∀ f ∈ m.functions, f.isPublic = true → f.name.utf8ByteSize ≤ Wasm.maxNameSize
  importModule : m.hosts ≠ [] → ∀ s, Wat.StringBody.Spells importModule.toList (Bytes.ofString s) →
    s.utf8ByteSize ≤ Wasm.maxNameSize
  /-- Functions of the same type share its entry, and structs never do. -/
  types : m.structs.length + m.wordFuncTypes.eraseDups.length ≤ Wasm.maxTypes
  functions : m.hosts.length + m.functions.length ≤ Wasm.maxFunctions
  imports : m.hosts.length ≤ Wasm.maxImports
  exports : m.publicFunctions.length ≤ Wasm.maxExports
  linkage : m.linkageSize < Wasm.maxLinkageSize

/-! ## Contexts -/

/-- The type of the function with the given index. -/
theorem Module.getElem?_wordFuncTypes {m : Module} (hm : m.functionNames.Nodup)
    {f returnType : String} {params k : Nat} (hf : (f, params, returnType) ∈ m.interfaces)
    (hk : m.functionNames.idxOf? f = some k) :
    m.wordFuncTypes[k]? = some (wordFuncType params returnType) := by
  -- names and types come from one list, in which the name of `f` occurs once
  have hzip : m.functionNames.zip m.wordFuncTypes =
      m.interfaces.map fun i => (i.1, wordFuncType i.2.1 i.2.2) := by
    rw [← m.map_fst_interfaces, Module.wordFuncTypes, List.zip_map']
  have hnames : (m.functionNames.zip m.wordFuncTypes).map Prod.fst = m.functionNames := by
    rw [hzip, List.map_map, ← m.map_fst_interfaces]
    rfl
  rw [← Wat.lookup_zip hk]
  refine lookup_eq_some_of_mem (by rwa [hnames]) ?_
  rw [hzip]
  exact List.mem_map.2 ⟨_, hf, rfl⟩

/-- The context in which the body of a function is checked. -/
def Module.context (m : Module) (f : FunctionDef Int) : Context where
  locals := List.replicate f.params.length .i32 ++ List.replicate f.letNames.length .i32
  functions := m.wordFuncTypes
  result := stackType f.returnType

/-- The typing rules and the validation agree on what names stand for. -/
theorem Module.agrees_context {m : Module} (hm : m.functionNames.Nodup) (f : FunctionDef Int) :
    Agrees m f.localNames (m.context f) := by
  refine ⟨fun {x k} hk => ?_, Module.getElem?_wordFuncTypes hm⟩
  obtain ⟨hlt, -⟩ := List.idxOf?_eq_some_iff.1 hk
  rw [FunctionDef.localNames, List.length_append, List.length_map] at hlt
  rw [Module.context, List.replicate_append_replicate, List.getElem?_replicate, if_pos hlt]

/-! ## Valid parts -/

/-- The size of a type is that of its signature. -/
theorem size_wordFuncType (params : List Binder) (returnType : String) :
    (wordFuncType params.length returnType).size =
      signatureSize params (resultType returnType) := by
  rw [Wasm.FuncType.size, wordFuncType, List.length_replicate, signatureSize, stackType]
  cases resultType returnType <;> rfl

theorem totalSize_map {α : Type} (type : α → Wasm.FuncType) (as : List α) :
    Wasm.FuncType.totalSize (as.map type) = (as.map fun a => (type a).size).sum := by
  rw [Wasm.FuncType.totalSize, List.foldr_map, List.sum_eq_foldr, List.foldr_map]

theorem filterMap_eq_map_of_forall₂ {α β γ : Type} {f : α → γ} {g : β → Option γ} {as : List α}
    {bs : List β} (h : List.Forall₂ (fun a b => g b = some (f a)) as bs) :
    bs.filterMap g = as.map f := by
  induction h with
  | nil => rfl
  | cons hab _ ih => rw [List.filterMap_cons_some hab, ih, List.map_cons]

/-- Only the number of its fields can make a well-typed struct invalid. -/
theorem StructDef.WellTyped.structIsValid_iff {s : StructDef} (hs : s.WellTyped)
    {fields : List Wasm.StorageType} (h : s.lower.resolve? = some fields) :
    Wasm.structIsValid fields = true ↔ s.fields.length ≤ Wasm.maxFields := by
  have hfields :
      List.Forall₂ (fun b t => Wasm.StorageType.ofName? b.type = some t) s.fields fields := by
    unfold Wat.Struct.resolve? at h
    split at h
    next => exact mapM_eq_some_iff.1 h
    next => cases h
  have hsupported : fields.all Wasm.StorageType.isSupported = true := by
    rw [List.all_eq_true]
    intro t ht
    obtain ⟨b, hb, hbt⟩ := exists_left_of_mem hfields ht
    have htype := hs.types b hb
    simp only [List.mem_cons, List.not_mem_nil, or_false] at htype
    -- each of the four types that a field may have is supported
    rcases htype with htype | htype | htype | htype <;> rw [htype] at hbt <;> cases hbt <;> rfl
  rw [Wasm.structIsValid, hsupported, Bool.and_true, decide_eq_true_eq, hfields.length_eq]

/-- Only the number of its parameters can make the type of a function invalid. -/
theorem isValid_wordFuncType_iff {params : Nat} {returnType : String} :
    (wordFuncType params returnType).isValid = true ↔ params ≤ Wasm.maxParams := by
  have hsupported : (wordFuncType params returnType).isSupported = true := by
    rw [Wasm.FuncType.isSupported, Bool.and_eq_true]
    constructor
    · rw [List.all_eq_true]
      intro t ht
      rw [List.eq_of_mem_replicate ht]
      rfl
    · rw [wordFuncType, stackType]
      cases resultType returnType <;> rfl
  rw [Wasm.FuncType.isValid, hsupported, Bool.and_true, decide_eq_true_eq, wordFuncType,
    List.length_replicate]

/-- The names under which functions are exported are their own. -/
theorem Module.exports_valid_iff {m : Module} (hm : m.WellFormed) {importModule : String}
    {t : Wat.Module} (hlower : m.lower importModule = .ok t) {r : Wasm.Module}
    (hresolve : t.resolve? = some r) : (∀ e ∈ r.exports, Wasm.nameIsValid e.1 = true) ↔
      ∀ f ∈ m.functions, f.isPublic = true → f.name.utf8ByteSize ≤ Wasm.maxNameSize := by
  obtain ⟨-, hexports, -⟩ := Wat.Module.resolve?_outline hresolve
  obtain ⟨functions, -, rfl⟩ := Module.lower_eq_ok hlower
  rw [forall_mem_iff_of_forall₂ (List.forall₂_map_left_iff.1 hexports)
    (P := fun f => f.name.utf8ByteSize ≤ Wasm.maxNameSize)]
  · simp only [Module.publicFunctions, List.mem_filter, and_imp]
  · intro f hf e he
    have hid := (hm.wellNamed.functions f (List.mem_of_mem_filter hf)).name
    simp only [Wat.resolveExport?, Wat.StringBody.decode?_of_isId hid, Option.bind_eq_bind,
      Option.bind_some, Option.bind_eq_some_iff] at he
    obtain ⟨k, -, he⟩ := he
    cases he
    rw [Wasm.nameIsValid, decide_eq_true_eq]

/-- Host functions are imported under their own names. -/
theorem Module.imports_valid_iff {m : Module} (hm : m.WellFormed) {importModule : String}
    {t : Wat.Module} (hlower : m.lower importModule = .ok t) {r : Wasm.Module}
    (hresolve : t.resolve? = some r) :
    (∀ i ∈ r.imports, Wasm.nameIsValid i.module = true ∧ Wasm.nameIsValid i.name = true) ↔
      (∀ h ∈ m.hosts, h.name.utf8ByteSize ≤ Wasm.maxNameSize) ∧ (m.hosts ≠ [] → ∀ s,
        Wat.StringBody.Spells importModule.toList (Bytes.ofString s) →
          s.utf8ByteSize ≤ Wasm.maxNameSize) := by
  obtain ⟨-, -, -, -, himports, -⟩ := Wat.Module.resolve?_eq_some hresolve
  obtain ⟨functions, -, rfl⟩ := Module.lower_eq_ok hlower
  rw [forall_mem_iff_of_forall₂ (List.forall₂_map_left_iff.1 himports)
    (P := fun h => h.name.utf8ByteSize ≤ Wasm.maxNameSize ∧ ∀ s,
      Wat.StringBody.Spells importModule.toList (Bytes.ofString s) →
        s.utf8ByteSize ≤ Wasm.maxNameSize)]
  · constructor
    · intro h
      -- all imports carry the same module name, so any one of them tells about it
      refine ⟨fun d hd => (h d hd).1, fun hne => ?_⟩
      obtain ⟨d, hd⟩ := List.exists_mem_of_ne_nil _ hne
      exact (h d hd).2
    · exact fun h d hd => ⟨h.1 d hd, h.2 (List.ne_nil_of_mem hd)⟩
  · intro d hd i hi
    obtain ⟨hmodule, hname⟩ := Wat.Import.names_of_resolve? hi
    have hid := (hm.wellNamed.hosts d hd).name
    rw [show (d.lower importModule).name = d.name from rfl, Wat.StringBody.decode?_of_isId hid,
      Option.some.injEq] at hname
    rw [show (d.lower importModule).module = importModule from rfl] at hmodule
    simp only [← Wat.StringBody.decode?_eq_some_iff, hmodule, Option.some.injEq, forall_eq',
      Wasm.nameIsValid, decide_eq_true_eq, ← hname]
    exact and_comm

section Valid

variable {m : Module} (hm : m.WellTyped) {importModule : String} {t : Wat.Module}
  (hlower : m.lower importModule = .ok t)

include hm hlower

/-- The types of all functions, in the order of the index space. -/
theorem Module.WellTyped.signatures?_lower : t.signatures? = some m.wordFuncTypes := by
  obtain ⟨functions, hfunctions, rfl⟩ := Module.lower_eq_ok hlower
  have himports : (m.hosts.map (HostFunction.lower importModule)).mapM Wat.Import.signature? =
      some (m.hosts.map fun h => wordFuncType h.params.length h.returnType) := by
    rw [mapM_eq_some_iff, List.forall₂_map_left_iff, List.forall₂_map_right_iff, List.forall₂_same]
    exact fun h hh => (hm.hosts h hh).signature?
  have hfuncs : functions.mapM Wat.Func.signature? =
      some (m.functions.map fun f => wordFuncType f.params.length f.returnType) := by
    rw [mapM_eq_some_iff, List.forall₂_map_right_iff]
    refine (forall₂_imp_of_mem hfunctions fun f g hf _ hg => ?_).flip
    obtain ⟨body, -, rfl⟩ := FunctionDef.lower_eq_ok hg
    exact (hm.functions f hf).signature.signature?
  rw [Wat.Module.signatures?, himports, hfuncs, Module.wordFuncTypes, Module.interfaces,
    List.map_append, List.map_map, List.map_map]
  rfl

variable {r : Wasm.Module} (hresolve : t.resolve? = some r)

include hresolve

/-- The types of structs are valid if none has too many fields. -/
theorem Module.WellTyped.structs_valid_iff :
    (∀ fields ∈ r.structs, Wasm.structIsValid fields = true) ↔
    ∀ s ∈ m.structs, s.fields.length ≤ Wasm.maxFields := by
  obtain ⟨hstructs, -⟩ := Wat.Module.resolve?_outline hresolve
  obtain ⟨functions, -, rfl⟩ := Module.lower_eq_ok hlower
  exact forall_mem_iff_of_forall₂ (List.forall₂_map_left_iff.1 hstructs) fun s hs _ h =>
    (hm.structs s hs).structIsValid_iff h

/-- The types of functions are valid if none has too many parameters. -/
theorem Module.WellTyped.funcTypes_valid_iff : (∀ t ∈ r.funcTypes, t.isValid = true) ↔
    (∀ h ∈ m.hosts, h.params.length ≤ Wasm.maxParams) ∧
      ∀ f ∈ m.functions, f.params.length ≤ Wasm.maxParams := by
  obtain ⟨-, sigs, hsigs, htypes, -⟩ := Wat.Module.resolve?_eq_some hresolve
  rw [hm.signatures?_lower hlower] at hsigs
  cases hsigs
  -- Equal types are declared once, which makes no difference to what holds of all of them.
  simp only [htypes, List.mem_eraseDups, Module.wordFuncTypes, List.forall_mem_map,
    isValid_wordFuncType_iff]
  rw [Module.interfaces, List.forall_mem_append, List.forall_mem_map, List.forall_mem_map]

/-- The entry function takes and returns nothing, as a start function must. -/
theorem Module.WellTyped.start_valid : r.start.all (Wasm.startIsValid m.wordFuncTypes) = true := by
  obtain ⟨-, -, hstart⟩ := Wat.Module.resolve?_outline hresolve
  rw [Module.functionNames_lower hlower] at hstart
  obtain ⟨functions, -, rfl⟩ := Module.lower_eq_ok hlower
  cases hentry : m.entry? with
  | none =>
    rw [hentry] at hstart
    have hnone : r.start = none := (Option.some.inj hstart).symm
    rw [hnone]
    rfl
  | some f =>
    rw [hentry] at hstart
    obtain ⟨k, hk, hstart⟩ := Option.map_eq_some_iff.1 hstart
    have hmem : f ∈ m.functions := List.mem_of_find?_eq_some hentry
    have hname : f.name = Module.entryName := by simpa using List.find?_some hentry
    obtain ⟨hparams, hunit⟩ := hm.entry f hmem hname
    have hinterface : (f.name, f.params.length, f.returnType) ∈ m.interfaces :=
      List.mem_append_right _ (List.mem_map.2 ⟨f, hmem, rfl⟩)
    have htype := Module.getElem?_wordFuncTypes hm.functionNames hinterface hk
    rw [hparams, hunit] at htype
    rw [← hstart, Option.all_some, Wasm.startIsValid, htype]
    rfl

/-- The body of a function passes the check, so that only its size counts. -/
theorem Module.WellTyped.func_valid_iff (hwell : m.WellFormed) {f : FunctionDef Int}
    (hf : f ∈ m.functions) {g : Wat.Func} (hg : g ∈ t.functions) (hfg : f.lower = .ok g)
    {g' : Wasm.Func}
    (hg' : g.resolve? (fun t => r.structs.length + r.funcTypes.idxOf t) t.functionNames = some g') :
    g'.isValid r m.wordFuncTypes = true ↔
      f.localNames.length ≤ Wasm.maxLocals ∧ m.CodeFits f := by
  have htyped := hm.functions f hf
  rw [Module.functionNames_lower hlower] at hg'
  obtain ⟨-, -, hemits⟩ := FunctionDef.emits_of_resolve? (hwell.functions f hf) hfg hg'
  obtain ⟨type, body, htype, hbody, rfl⟩ := Wat.Func.resolve?_eq_some hg'
  have hfound := Wat.Module.funcType?_of_resolve? hresolve hg htype
  obtain ⟨is, his, rfl⟩ := FunctionDef.lower_eq_ok hfg
  have hword : type = wordFuncType f.params.length f.returnType :=
    Option.some.inj (htype.symm.trans htyped.signature.signature?)
  subst hword
  have hvalid : Wasm.bodyIsValid (m.context f) body = true :=
    htyped.bodyIsValid (Module.agrees_context hm.functionNames f) rfl (mapM_eq_ok_iff.1 his) hbody
  have hlength : (wordFuncType f.params.length f.returnType).params.length + f.letNames.length =
      f.localNames.length := by
    rw [wordFuncType, List.length_replicate, FunctionDef.localNames, List.length_append,
      List.length_map]
  -- There is no other code of the function than the body that was assembled.
  have hcode : m.CodeFits f ↔
      (Wasm.codeBytes f.letNames.length body).length ≤ Wasm.maxCodeSize := by
    refine ⟨fun h => h body hemits, fun h is his => ?_⟩
    rwa [his.unique ⟨htyped.names, hm.functionNames⟩ hemits]
  rw [Wasm.Func.isValid, hfound, hcode]
  -- The context of the validation is the one that the typing rules agree with.
  show (decide (_ + f.letNames.length ≤ _) && decide (_ ≤ _) &&
    Wasm.bodyIsValid (m.context f) body) = true ↔ _
  rw [hvalid, Bool.and_true, Bool.and_eq_true, decide_eq_true_eq, decide_eq_true_eq, hlength]

/-- Functions are valid if none has too many locals or too much code. -/
theorem Module.WellTyped.functions_valid_iff (hwell : m.WellFormed) :
    (∀ g ∈ r.functions, g.isValid r m.wordFuncTypes = true) ↔
      (∀ f ∈ m.functions, f.localNames.length ≤ Wasm.maxLocals) ∧
        ∀ f ∈ m.functions, m.CodeFits f := by
  obtain ⟨-, -, -, -, -, hresolved⟩ := Wat.Module.resolve?_eq_some hresolve
  have hlowered :
      List.Forall₂ (fun f g => FunctionDef.lower f = .ok g) m.functions t.functions := by
    obtain ⟨functions, hfunctions, rfl⟩ := Module.lower_eq_ok hlower
    exact hfunctions
  rw [← forall₂_and]
  refine forall_mem_iff_of_forall₂ (forall₂_comp hlowered hresolved ?_) fun _ _ _ h => h
  exact fun f g g' hf hg hfg hg' => hm.func_valid_iff hlower hresolve hwell hf hg hfg hg'

/-- Imports stand for host functions and exports for public functions, with the same types. -/
theorem Module.WellTyped.linkageSize_eq : r.linkageSize m.wordFuncTypes = m.linkageSize := by
  obtain ⟨-, -, -, -, himports, -⟩ := Wat.Module.resolve?_eq_some hresolve
  obtain ⟨-, hexports, -⟩ := Wat.Module.resolve?_outline hresolve
  rw [Module.functionNames_lower hlower] at hexports
  obtain ⟨functions, -, rfl⟩ := Module.lower_eq_ok hlower
  -- imports come first in the index space
  have hhosts : m.wordFuncTypes.take r.imports.length =
      m.hosts.map fun h => wordFuncType h.params.length h.returnType := by
    rw [← himports.length_eq, List.length_map, Module.wordFuncTypes, Module.interfaces,
      List.map_append, List.map_map]
    exact List.take_left' (List.length_map _)
  have hpublic : (r.exports.filterMap fun e => m.wordFuncTypes[e.2]?) =
      m.publicFunctions.map fun f => wordFuncType f.params.length f.returnType := by
    refine filterMap_eq_map_of_forall₂ ?_
    refine forall₂_imp_of_mem (List.forall₂_map_left_iff.1 hexports) fun f e hf _ he => ?_
    simp only [Wat.resolveExport?, Option.bind_eq_bind, Option.bind_eq_some_iff] at he
    obtain ⟨_, -, k, hk, he⟩ := he
    cases he
    refine Module.getElem?_wordFuncTypes hm.functionNames (List.mem_append_right _ ?_) hk
    exact List.mem_map.2 ⟨f, List.mem_of_mem_filter hf, rfl⟩
  simp only [Wasm.Module.linkageSize, hhosts, hpublic, totalSize_map, size_wordFuncType]
  rfl

/-- The counts that are limited for a module as a whole are those of its declarations. -/
theorem Module.WellTyped.sizes_valid_iff : r.sizesAreValid m.wordFuncTypes = true ↔
    m.structs.length + m.wordFuncTypes.eraseDups.length ≤ Wasm.maxTypes ∧
      m.hosts.length + m.functions.length ≤ Wasm.maxFunctions ∧
      m.hosts.length ≤ Wasm.maxImports ∧ m.publicFunctions.length ≤ Wasm.maxExports ∧
      m.linkageSize < Wasm.maxLinkageSize := by
  have hlinkage := hm.linkageSize_eq hlower hresolve
  obtain ⟨-, sigs, hsigs, htypes, himports, -⟩ := Wat.Module.resolve?_eq_some hresolve
  obtain ⟨hstructs, hexports, -⟩ := Wat.Module.resolve?_outline hresolve
  rw [hm.signatures?_lower hlower] at hsigs
  cases hsigs
  have hfunctions : m.wordFuncTypes.length = m.hosts.length + m.functions.length := by
    rw [Module.wordFuncTypes, List.length_map, Module.interfaces, List.length_append,
      List.length_map, List.length_map]
  obtain ⟨functions, -, rfl⟩ := Module.lower_eq_ok hlower
  simp only [Wasm.Module.sizesAreValid, Bool.and_eq_true, decide_eq_true_eq, and_assoc, htypes,
    hfunctions, hlinkage, ← hstructs.length_eq, ← himports.length_eq, ← hexports.length_eq,
    List.length_map]

/-- **A well-typed module** whose names are resolved is valid exactly when it stays within the
limits. -/
theorem Module.WellTyped.isValid_iff (hwell : m.WellFormed) :
    r.isValid = true ↔ m.WithinLimits importModule := by
  rw [Wasm.Module.isValid, Wat.Module.mapM_typeIndices hresolve (hm.signatures?_lower hlower)]
  simp only [Bool.and_eq_true, List.all_eq_true, hm.sizes_valid_iff hlower hresolve,
    hm.structs_valid_iff hlower hresolve, hm.funcTypes_valid_iff hlower hresolve,
    Module.imports_valid_iff hwell hlower hresolve, Module.exports_valid_iff hwell hlower hresolve,
    hm.start_valid hlower hresolve, hm.functions_valid_iff hlower hresolve hwell]
  constructor
  · rintro ⟨⟨⟨⟨⟨⟨⟨htypes, hfunctions, himports, hexports, hlinkage⟩, hfields⟩, hhostParams,
      hparams⟩, hhostNames, himport⟩, hexportNames⟩, -⟩, hlocals, hcode⟩
    exact ⟨hfields, hhostParams, hparams, hlocals, hcode, hhostNames, hexportNames, himport, htypes,
      hfunctions, himports, hexports, hlinkage⟩
  · intro h
    exact ⟨⟨⟨⟨⟨⟨⟨h.types, h.functions, h.imports, h.exports, h.linkage⟩, h.fields⟩, h.hostParams,
      h.params⟩, h.hostNames, h.importModule⟩, h.exportNames⟩, trivial⟩, h.locals, h.code⟩

end Valid

/-! ## Compilation -/

/-- A well-typed source has a binary exactly when it stays within the limits. -/
theorem exists_binary_iff {source : String} {p : Program Int} {options : Options}
    (hparse : Program.parse source = .ok p) (hm : (Module.ofProgram p).WellTyped)
    (hvalidate : options.validate = true)
    (himport : (Module.ofProgram p).hosts ≠ [] → Wat.StringBody.IsLegal options.importModule) :
    (∃ binary, compileToBinary source options = .ok binary) ↔
      (Module.ofProgram p).WithinLimits options.importModule := by
  have hwell := Module.wellFormed_ofProgram (Program.wellFormed_of_parse hparse)
  obtain ⟨t, hlower⟩ := hm.exists_lower hwell options.importModule
  have hclosed : (Module.ofProgram p).hosts ≠ [] →
      SExpr.IsClosedBody options.importModule.toList := by
    intro hne
    obtain ⟨s, hs⟩ := himport hne
    exact hs.isClosedBody
  -- well-typed sources resolve, so the validation has the last word
  have hresolves := (Module.resolves_lower_iff hwell hlower).2 (hm.resolvable himport)
  obtain ⟨r, hr⟩ := Option.isSome_iff_exists.1 (Wat.Module.isSome_resolve?_iff.2 hresolves)
  rw [exists_binary_iff_assembles (buildModule_eq_ok_iff.2 ⟨p, hparse, rfl⟩) hvalidate hclosed,
    ← hm.isValid_iff hlower hr hwell, Module.assembles, hlower, Except.toOption, Option.bind_some,
    hr, Option.any_some]

/-- A well-typed source with host functions has no binary if the name of their module is illegal. -/
theorem not_exists_binary_of_not_isLegal {source : String} {p : Program Int} {options : Options}
    (hparse : Program.parse source = .ok p) (hm : (Module.ofProgram p).WellTyped)
    (hne : (Module.ofProgram p).hosts ≠ [])
    (hquote : SExpr.hasBareQuote options.importModule.toList = false)
    (hillegal : ¬ Wat.StringBody.IsLegal options.importModule) :
    ¬ ∃ binary, compileToBinary source options = .ok binary := by
  have hwell := Module.wellFormed_ofProgram (Program.wellFormed_of_parse hparse)
  obtain ⟨t, hlower⟩ := hm.exists_lower hwell options.importModule
  -- the name is one string literal, which the assembler cannot decode
  have hnone : (Wat.Module.read? t.text).bind Wat.Module.resolve? = none := by
    rw [← Option.not_isSome_iff_eq_none, Module.isSome_resolve?_text_iff hwell hquote hlower]
    exact fun hr => hillegal (hr.importModule hne)
  rw [compileToBinary_of_lower hparse hlower, Wat.assemble, hnone]
  rintro ⟨binary, h⟩
  cases h

/-- **Well-typed sources** compile to a binary and to a loader exactly when they stay within the
limits on sizes, if host functions are imported from a module with a legal name. -/
theorem compileToBinary_wellTyped_iff {source : String} {p : Program Int} {options : Options}
    (hparse : Program.parse source = .ok p) (hm : (Module.ofProgram p).WellTyped)
    (hvalidate : options.validate = true)
    (himport : (Module.ofProgram p).hosts ≠ [] → Wat.StringBody.IsLegal options.importModule) :
    ((∃ binary, compileToBinary source options = .ok binary) ↔
      (Module.ofProgram p).WithinLimits options.importModule) ∧
    ((∃ text, compileToLoader source options = .ok text) ↔
      (Module.ofProgram p).WithinLimits options.importModule) := by
  have hbinary := exists_binary_iff hparse hm hvalidate himport
  exact ⟨hbinary, exists_loader_iff.trans hbinary⟩

/-- A source whose function uses a variable ahead of its `let` statement, which stands behind the
`return`. -/
def typedSource : String :=
  "import h.log as fn log(v: i32); fn f(a: i32) -> i32 { log(b); return f(a + 1); let b = 2; }"

/-- The host function of `typedSource`. -/
def typedHost : HostFunction := ⟨"h.log", "log", [⟨"v", "i32"⟩], unitType⟩

/-- The function of `typedSource`. -/
def typedFunction : FunctionDef Int :=
  ⟨false, "f", [⟨"a", "i32"⟩], "i32",
    [.eval (.call (.var "log") [[.var "b"]]),
      .ret (.call (.var "f") [[.sum [.var "a", .const 1]]]), .bind "b" (.const 2)]⟩

theorem parse_typedSource :
    Program.parse typedSource = .ok [.host typedHost, .function typedFunction] := by
  rfl

theorem wellTyped_typedSource :
    (Module.ofProgram [.host typedHost, .function typedFunction]).WellTyped := by
  have hb : "b" ∈ typedFunction.localNames := by decide
  have ha : "a" ∈ typedFunction.localNames := by decide
  refine ⟨List.nodup_nil, by decide, nofun, List.forall_mem_singleton.2 ?_,
    List.forall_mem_singleton.2 ?_, List.forall_mem_singleton.2 fun h => absurd h (by decide)⟩
  · exact ⟨List.forall_mem_singleton.2 rfl, .inr rfl⟩
  · refine ⟨by decide, ⟨List.forall_mem_singleton.2 rfl, .inl rfl⟩, ?_,
      fun _ => ⟨_, List.mem_cons_of_mem _ List.mem_cons_self⟩⟩
    refine List.forall_mem_cons.2 ⟨.eval ?_, List.forall_mem_cons.2 ⟨.ret rfl ?_,
      List.forall_mem_singleton.2 (.bind (.const ⟨by decide, by decide⟩))⟩⟩
    · exact .call (by decide) (List.forall_mem_singleton.2 (.var hb))
    · refine .call (by decide) (List.forall_mem_singleton.2 (.sum ?_))
      have hone : InWord 1 := ⟨by decide, by decide⟩
      exact List.forall_mem_cons.2 ⟨.var ha, List.forall_mem_singleton.2 (.const hone)⟩

/-- What the body of `typedFunction` comes to. -/
def typedCode : List Wasm.Instr :=
  [.localGet 1, .call 0, .localGet 0, .const 1, .add, .call 1, .ret, .const 2, .localSet 1]

theorem codeFits_typedFunction :
    (Module.ofProgram [.host typedHost, .function typedFunction]).CodeFits typedFunction := by
  have hassembled : (typedFunction.lower.toOption.bind
      (Wat.Func.resolve? (fun _ => 0) ["log", "f"])).map Wasm.Func.body = some typedCode := by
    decide +kernel
  obtain ⟨g', hg', hbody⟩ := Option.map_eq_some_iff.1 hassembled
  obtain ⟨g, hg, hresolve⟩ := Option.bind_eq_some_iff.1 hg'
  have hwell : typedFunction.WellFormed :=
    (Module.wellFormed_ofProgram (Program.wellFormed_of_parse parse_typedSource)).functions _
      List.mem_cons_self
  obtain ⟨hnames, -, hemits⟩ :=
    FunctionDef.emits_of_resolve? hwell (toOption_eq_some_iff.1 hg) hresolve
  -- all code of the function is the code that was assembled
  intro is his
  rw [his.unique ⟨hnames, by decide⟩ hemits, hbody]
  decide

/-- `typedSource` compiles. -/
theorem typedSource_compiles : (∃ binary, compileToBinary typedSource {} = .ok binary) ∧
    ∃ text, compileToLoader typedSource {} = .ok text := by
  have hiff := @compileToBinary_wellTyped_iff typedSource _ {} parse_typedSource
    wellTyped_typedSource rfl fun _ => Wat.StringBody.isLegal_of_isId (by decide)
  have hlimits : (Module.ofProgram [.host typedHost, .function typedFunction]).WithinLimits
      ({} : Options).importModule := by
    constructor
    case fields => exact nofun
    case hostParams => exact List.forall_mem_singleton.2 (by decide)
    case params => exact List.forall_mem_singleton.2 (by decide)
    case locals => exact List.forall_mem_singleton.2 (by decide)
    case code => exact List.forall_mem_singleton.2 codeFits_typedFunction
    case hostNames => exact List.forall_mem_singleton.2 (by decide)
    case exportNames => exact List.forall_mem_singleton.2 nofun
    case importModule =>
      intro _ s hs
      rw [← Wat.StringBody.decode?_eq_some_iff, Wat.StringBody.decode?_of_isId (by decide)] at hs
      cases hs
      decide
    all_goals decide
  exact ⟨hiff.1.2 hlimits, hiff.2.2 hlimits⟩

/-! ## Wide functions -/

/-- The name of a parameter. -/
def paramName (i : Nat) : String := String.ofList ('a' :: Nat.toDigits 10 i)

/-- A program with one function of the given number of parameters. -/
def wideProgram (n : Nat) : Program Int :=
  [.function ⟨false, "f", (List.range n).map fun i => ⟨paramName i, wordType⟩, unitType, []⟩]

/-- Parameters can be written in a source under these names. -/
theorem isName_paramName (i : Nat) : IsName (paramName i) := by
  rw [IsName, paramName, String.toList_ofList]
  refine ⟨rfl, List.forall_mem_cons.2 ⟨by decide, fun c hc => ?_⟩, fun k hk => ?_⟩
  · rw [Grammar.isWordChar, Char.isAlphanum, Decimal.isDigit_toDigits hc, Bool.or_true,
      Bool.true_or]
  · -- The only keyword that starts with this letter goes on with one that is no digit.
    cases k with
    | kwAs =>
      have hs : 's' ∈ Nat.toDigits 10 i := (List.cons.inj hk).2 ▸ List.mem_cons_self
      exact absurd (Decimal.isDigit_toDigits hs) (by decide)
    | _ => exact absurd (List.cons.inj hk).1 (by decide)

theorem paramName_injective : Function.Injective paramName := by
  intro i j h
  rw [paramName, paramName, String.ofList_inj, List.cons.injEq] at h
  rw [← Decimal.natValue_toDigits i, h.2, Decimal.natValue_toDigits]

/-- The text of the program is parsed back to it. -/
theorem parse_wideProgram (n : Nat) :
    Program.parse (wideProgram n).print = .ok (wideProgram n) := by
  have hf : IsName "f" := ⟨rfl, List.all_eq_true.mp rfl, fun k => by cases k <;> decide⟩
  have hword : IsName wordType := ⟨rfl, List.all_eq_true.mp rfl, fun k => by cases k <;> decide⟩
  refine Program.parse_print_of_wellFormed
    (List.forall_mem_singleton.2 ⟨hf, ?_, Grammar.isName_unitType, nofun⟩)
  exact List.forall_mem_map.2 fun i _ => ⟨isName_paramName i, hword⟩

/-- The program is well-typed, whatever the number of its parameters. -/
theorem wellTyped_wideProgram (n : Nat) : (Module.ofProgram (wideProgram n)).WellTyped := by
  have hentry : "f" ≠ Module.entryName := by decide
  have hunit : unitType ≠ wordType := by decide
  refine ⟨List.nodup_nil, List.nodup_singleton _, nofun, nofun, List.forall_mem_singleton.2 ?_,
    List.forall_mem_singleton.2 fun h => absurd h hentry⟩
  refine ⟨?_, ⟨List.forall_mem_map.2 fun _ _ => rfl, .inr rfl⟩, nofun, fun h => absurd h hunit⟩
  rw [FunctionDef.localNames, List.map_map]
  show (((List.range n).map paramName) ++ []).Nodup
  rw [List.append_nil]
  exact List.nodup_range.map paramName_injective

/-- With more parameters than are allowed, it is refused all the same. -/
theorem not_exists_binary_wideProgram {n : Nat} (hn : Wasm.maxParams < n) :
    ¬ ∃ binary, compileToBinary (wideProgram n).print {} = .ok binary := by
  rw [exists_binary_iff (parse_wideProgram n) (wellTyped_wideProgram n) rfl fun h => absurd rfl h]
  intro hlimits
  have hparams := hlimits.params _ List.mem_cons_self
  rw [List.length_map, List.length_range] at hparams
  omega

/-- **Well-typed programs that are refused**: a function with one parameter more than the validation
takes, and host functions from a module whose name ends with an open escape. -/
theorem wellTyped_refused :
    ((Module.ofProgram (wideProgram 1001)).WellTyped ∧
      Program.parse (wideProgram 1001).print = .ok (wideProgram 1001) ∧
      ¬ ∃ binary, compileToBinary (wideProgram 1001).print {} = .ok binary) ∧
    ((Module.ofProgram [.host typedHost, .function typedFunction]).WellTyped ∧
      Program.parse typedSource = .ok [.host typedHost, .function typedFunction] ∧
      ¬ ∃ binary, compileToBinary typedSource { importModule := "\\" } = .ok binary) := by
  refine ⟨⟨wellTyped_wideProgram 1001, parse_wideProgram 1001,
    not_exists_binary_wideProgram (by decide)⟩, wellTyped_typedSource, parse_typedSource, ?_⟩
  refine not_exists_binary_of_not_isLegal parse_typedSource wellTyped_typedSource nofun
    (by decide) ?_
  rw [← Wat.StringBody.isSome_decode?_iff]
  decide

end Kelp
