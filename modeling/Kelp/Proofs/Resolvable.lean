import Kelp.Proofs.EntryPoints
import Kelp.Proofs.Faults
import Kelp.Proofs.Wat.Resolvable

/-!
# Sources that assemble

Which sources the assembler accepts, said of the declarations themselves.

- `Module.Resolvable`: in every name space each name is declared once, all types are known, every
  variable is a parameter or a `let` of its function and every callee a function or a host function,
  no field is accessed, constants fit in 32 bits, and the module that host functions are imported
  from has a legal name.
- `Expr.resolves_flatten_iff`: the instructions of an expression resolve exactly when its nodes do.
- `compileToBinary_resolvable_iff`: a source that is lowered assembles exactly when it is
  resolvable. With validation, the others are the ones refused as malformed.
-/

namespace Kelp

open Wat (Instr PlainInstr)
open Wasm (IsValueTypeName IsFieldTypeName)

/-! ## Definitions -/

/-- The names of the parameters and `let` statements of a function. -/
def FunctionDef.localNames (f : FunctionDef Int) : List String :=
  f.params.map Binder.name ++ f.letNames

/-- The names of all functions that can be called, those of the host first. -/
def Module.functionNames (m : Module) : List String :=
  m.hosts.map HostFunction.name ++ m.functions.map FunctionDef.name

/-- The fields of a struct have different names and known types. -/
structure StructDef.Resolvable (s : StructDef) : Prop where
  names : (s.fields.map Binder.name).Nodup
  types : ∀ b ∈ s.fields, IsFieldTypeName b.type

/-- The types of a host function are known. -/
structure HostFunction.Resolvable (h : HostFunction) : Prop where
  params : ∀ b ∈ h.params, IsValueTypeName b.type
  result : h.returnType ≠ unitType → IsValueTypeName h.returnType

/-- A function that refers to nothing but its own parameters and `let` statements, wherever these
stand, and to the given functions. -/
structure FunctionDef.Resolvable (functions : List String) (f : FunctionDef Int) : Prop where
  names : f.localNames.Nodup
  params : ∀ b ∈ f.params, IsValueTypeName b.type
  result : f.returnType ≠ unitType → IsValueTypeName f.returnType
  locals : ∀ x, .var x ∈ f.nodes → x ∈ f.localNames
  callees : ∀ g lists, .call (.var g) lists ∈ f.nodes → g ∈ functions
  fields : ∀ receiver accessors, .field receiver accessors ∉ f.nodes
  constants : ∀ n, .const n ∈ f.nodes → InWord n

/-- A module all of whose names and types are known. -/
structure Module.Resolvable (m : Module) (importModule : String) : Prop where
  structNames : (m.structs.map StructDef.name).Nodup
  functionNames : m.functionNames.Nodup
  structs : ∀ s ∈ m.structs, s.Resolvable
  hosts : ∀ h ∈ m.hosts, h.Resolvable
  functions : ∀ f ∈ m.functions, f.Resolvable m.functionNames
  importModule : m.hosts ≠ [] → Wat.StringBody.IsLegal importModule

/-! ## Instructions of expressions -/

/-- What a node of an expression refers to by itself is known. -/
def Expr.Resolves (locals functions : List String) : Expr Int → Prop
  | .field _ accessors => accessors = []
  | .call (.var f) _ => f ∈ functions
  | .var x => x ∈ locals
  | .const n => InWord n
  | _ => True

section Flatten

variable {locals functions : List String}

/-- Accesses come after the object, in the order in which they are written. -/
theorem Wat.Instr.flatten_foldl_structGet (names : List String) (object : Instr) :
    (names.foldl (fun object field => Instr.structGet field object) object).flatten =
      object.flatten ++ names.map .structGet := by
  induction names generalizing object with
  | nil => simp
  | cons x names ih => simp [ih, Instr.flatten]

mutual

/-- The instructions of an expression resolve exactly when its nodes do. -/
theorem Expr.resolves_flatten_iff : ∀ {e : Expr Int} {i : Instr}, e.lower = .ok i →
    ((∀ p ∈ i.flatten, p.Resolves locals functions) ↔ ∀ n ∈ e.nodes, n.Resolves locals functions)
  | .sum [], _, h => by simp [Expr.lower] at h
  | .sum (e :: es), i, h => by
    obtain ⟨a, ha, h⟩ := Expr.lower_sum_eq_ok.1 h
    rw [Expr.resolves_flatten_chain_iff h, Expr.resolves_flatten_iff ha]
    simp only [Expr.nodes, Expr.nodesAll, Expr.Resolves, List.forall_mem_cons,
      List.forall_mem_append, true_and]
  | .product [], _, h => by simp [Expr.lower] at h
  | .product (e :: es), i, h => by
    obtain ⟨a, ha, h⟩ := Expr.lower_product_eq_ok.1 h
    rw [Expr.resolves_flatten_chain_iff h, Expr.resolves_flatten_iff ha]
    simp only [Expr.nodes, Expr.nodesAll, Expr.Resolves, List.forall_mem_cons,
      List.forall_mem_append, true_and]
  | .field receiver accessors, i, h => by
    obtain ⟨object, hobject, rfl⟩ := Expr.lower_field_eq_ok.1 h
    rw [Wat.Instr.flatten_foldl_structGet, List.forall_mem_append, Expr.nodes, List.forall_mem_cons,
      Expr.resolves_flatten_iff hobject, and_comm]
    refine and_congr_left fun _ => ?_
    -- no access resolves, so there must be none
    cases accessors <;> simp [Expr.Resolves, PlainInstr.Resolves]
  | .call callee lists, i, h => by
    obtain ⟨f, arguments, rfl, rfl⟩ := Expr.lower_call_shape h
    obtain ⟨is, his, rfl⟩ := Expr.lower_call_eq_ok.1 h
    rw [Instr.flatten, List.forall_mem_append, Expr.resolves_flattenAll_iff his, Expr.nodes,
      List.forall_mem_cons, and_comm]
    simp [Expr.Resolves, PlainInstr.Resolves]
  | .var x, i, h => by
    cases h
    simp [Instr.flatten, Expr.nodes, Expr.Resolves, PlainInstr.Resolves]
  | .const n, i, h => by
    cases h
    simp [Instr.flatten, Expr.nodes, Expr.Resolves, PlainInstr.Resolves]

/-- The same for the further operands of a chain and what was combined before them. -/
theorem Expr.resolves_flatten_chain_iff {op : Wat.BinaryOp} : ∀ {es : List (Expr Int)}
    {left i : Instr}, Expr.lowerChain op left es = .ok i →
      ((∀ p ∈ i.flatten, p.Resolves locals functions) ↔
        (∀ p ∈ left.flatten, p.Resolves locals functions) ∧
          ∀ n ∈ Expr.nodesAll es, n.Resolves locals functions)
  | [], left, i, h => by
    cases h
    simp [Expr.nodesAll]
  | e :: es, left, i, h => by
    obtain ⟨a, ha, h⟩ := Expr.lowerChain_cons_eq_ok.1 h
    rw [Expr.resolves_flatten_chain_iff h, Instr.flatten, Expr.nodesAll, List.forall_mem_append,
      List.forall_mem_append, List.forall_mem_append, Expr.resolves_flatten_iff ha]
    simp [PlainInstr.Resolves, and_assoc]

/-- The same for arguments. -/
theorem Expr.resolves_flattenAll_iff : ∀ {es : List (Expr Int)} {is : List Instr},
    Expr.lowerAll es = .ok is →
      ((∀ p ∈ Instr.flattenAll is, p.Resolves locals functions) ↔
        ∀ n ∈ Expr.nodesAll es, n.Resolves locals functions)
  | [], is, h => by
    cases h
    simp [Instr.flattenAll, Expr.nodesAll]
  | e :: es, is, h => by
    obtain ⟨i, js, hi, hjs, rfl⟩ := Expr.lowerAll_cons_eq_ok.1 h
    rw [Instr.flattenAll, Expr.nodesAll, List.forall_mem_append, List.forall_mem_append,
      Expr.resolves_flatten_iff hi, Expr.resolves_flattenAll_iff hjs]

end

/-- A statement also refers to the variable that it binds. -/
theorem Stmt.resolves_flatten_iff {s : Stmt Int} {i : Instr} (h : s.lower = .ok i) :
    (∀ p ∈ i.flatten, p.Resolves locals functions) ↔
      (∀ x ∈ s.bound?, x ∈ locals) ∧ ∀ n ∈ s.value.nodes, n.Resolves locals functions := by
  obtain ⟨x, e, a, rfl, ha, rfl⟩ | ⟨e, a, rfl, ha, rfl⟩ | ⟨e, rfl, ha⟩ := Stmt.lower_eq_ok h
  · rw [Instr.flatten, List.forall_mem_append, Expr.resolves_flatten_iff ha, and_comm]
    simp [PlainInstr.Resolves, Stmt.bound?, Stmt.value]
  · rw [Instr.flatten, List.forall_mem_append, Expr.resolves_flatten_iff ha]
    simp [PlainInstr.Resolves, Stmt.bound?, Stmt.value]
  · rw [Expr.resolves_flatten_iff ha]
    simp [Stmt.bound?, Stmt.value]

/-- The variables that statements bind are locals, so only their nodes count. -/
theorem Stmt.resolves_flattenAll_iff {ss : List (Stmt Int)} {is : List Instr}
    (h : List.Forall₂ (fun s i => Stmt.lower s = .ok i) ss is)
    (hbound : ∀ x ∈ ss.filterMap Stmt.bound?, x ∈ locals) :
    (∀ p ∈ Instr.flattenAll is, p.Resolves locals functions) ↔
      ∀ n ∈ ss.flatMap fun s => s.value.nodes, n.Resolves locals functions := by
  induction h with
  | nil => simp [Instr.flattenAll]
  | @cons s i ss is hi _ ih =>
    have hs : ∀ x ∈ s.bound?, x ∈ locals := by
      intro x hx
      exact hbound x (List.mem_filterMap.2 ⟨s, List.mem_cons_self, hx⟩)
    have hss : ∀ x ∈ ss.filterMap Stmt.bound?, x ∈ locals := by
      intro x hx
      obtain ⟨s', hs', hx⟩ := List.mem_filterMap.1 hx
      exact hbound x (List.mem_filterMap.2 ⟨s', List.mem_cons_of_mem _ hs', hx⟩)
    rw [Instr.flattenAll, List.flatMap_cons, List.forall_mem_append, List.forall_mem_append,
      Stmt.resolves_flatten_iff hi, ih hss]
    rw [and_iff_right hs]

end Flatten

/-! ## Nodes -/

mutual

/-- The nodes of a well-formed expression are well-formed. -/
theorem Expr.WellFormed.wellFormed_of_mem_nodes : ∀ {e : Expr Int}, e.WellFormed →
    ∀ n ∈ e.nodes, n.WellFormed
  | .sum operands, h => by
    rw [Expr.nodes]
    exact List.forall_mem_cons.2 ⟨h, Expr.AllWellFormed.wellFormed_of_mem_nodes h.2⟩
  | .product operands, h => by
    rw [Expr.nodes]
    exact List.forall_mem_cons.2 ⟨h, Expr.AllWellFormed.wellFormed_of_mem_nodes h.2⟩
  | .field receiver accessors, h => by
    rw [Expr.nodes]
    exact List.forall_mem_cons.2 ⟨h, Expr.WellFormed.wellFormed_of_mem_nodes h.1⟩
  | .call callee [], h => List.forall_mem_singleton.2 h
  | .call callee [arguments], h => by
    rw [Expr.nodes]
    exact List.forall_mem_cons.2 ⟨h, Expr.AllWellFormed.wellFormed_of_mem_nodes h.2.2.1⟩
  | .call callee (_ :: _ :: _), h => List.forall_mem_singleton.2 h
  | .var x, h => List.forall_mem_singleton.2 h
  | .const n, h => List.forall_mem_singleton.2 h

theorem Expr.AllWellFormed.wellFormed_of_mem_nodes : ∀ {es : List (Expr Int)},
    Expr.AllWellFormed es → ∀ n ∈ Expr.nodesAll es, n.WellFormed
  | [], _ => nofun
  | e :: es, h => by
    rw [Expr.nodesAll]
    exact List.forall_mem_append.2 ⟨Expr.WellFormed.wellFormed_of_mem_nodes h.1,
      Expr.AllWellFormed.wellFormed_of_mem_nodes h.2⟩

end

/-- The nodes of a well-formed function are well-formed. -/
theorem FunctionDef.WellFormed.wellFormed_of_mem_nodes {f : FunctionDef Int} (hf : f.WellFormed) :
    ∀ n ∈ f.nodes, n.WellFormed := by
  intro n hn
  obtain ⟨s, hs, hn⟩ := List.mem_flatMap.1 hn
  have hvalue : s.value.WellFormed := by
    have hs' := hf.body s hs
    cases s with
    | bind x e => exact hs'.2
    | ret e => exact hs'
    | eval e => exact hs'.2
  exact hvalue.wellFormed_of_mem_nodes n hn

/-! ## Declarations -/

/-- What is asked of a result is asked of every return type but `unit`. -/
theorem forall_resultType_iff {P : String → Prop} {returnType : String} :
    (∀ t ∈ resultType returnType, P t) ↔ (returnType ≠ unitType → P returnType) := by
  by_cases h : returnType = unitType <;> simp [resultType, h]

/-- **Functions** resolve exactly when their declarations do. -/
theorem FunctionDef.resolves_lower_iff {functions : List String} {f : FunctionDef Int}
    {g : Wat.Func} (hf : f.WellFormed) (h : f.lower = .ok g) :
    g.Resolves functions ↔ f.Resolvable functions := by
  obtain ⟨body, hbody, rfl⟩ := FunctionDef.lower_eq_ok h
  have hnodes : (∀ p ∈ Instr.flattenAll body, p.Resolves f.localNames functions) ↔
      ∀ n ∈ f.nodes, n.Resolves f.localNames functions :=
    Stmt.resolves_flattenAll_iff (mapM_eq_ok_iff.1 hbody) fun x hx => List.mem_append_right _ hx
  constructor
  · intro hg
    have hresolves := hnodes.1 hg.body
    refine ⟨hg.names, hg.params, forall_resultType_iff.1 hg.result, ?_, ?_, ?_, ?_⟩
    · exact fun x hx => hresolves _ hx
    · exact fun g lists hg => hresolves _ hg
    · -- An access without accessors would resolve, but no source has one.
      intro receiver accessors hfield
      exact (hf.wellFormed_of_mem_nodes _ hfield).2.1 (hresolves _ hfield)
    · exact fun n hn => hresolves _ hn
  · intro hf'
    refine ⟨hf'.names, hf'.params, forall_resultType_iff.2 hf'.result, hnodes.2 ?_⟩
    intro n hn
    match n, hn with
    | .sum _, _ => trivial
    | .product _, _ => trivial
    | .field receiver accessors, hn => exact absurd hn (hf'.fields receiver accessors)
    | .call (.var g) lists, hn => exact hf'.callees g lists hn
    -- Other callees are not lowered, and nothing is asked of them.
    | .call (.sum _) _, _ => trivial
    | .call (.product _) _, _ => trivial
    | .call (.field _ _) _, _ => trivial
    | .call (.call _ _) _, _ => trivial
    | .call (.const _) _, _ => trivial
    | .var x, hn => exact hf'.locals x hn
    | .const n, hn => exact hf'.constants n hn

/-- Functions are numbered in the order of their declarations, those of the host first. -/
theorem Module.functionNames_lower {m : Module} {importModule : String} {t : Wat.Module}
    (h : m.lower importModule = .ok t) : t.functionNames = m.functionNames := by
  obtain ⟨functions, hfunctions, rfl⟩ := Module.lower_eq_ok h
  have hnames : functions.map Wat.Func.name = m.functions.map FunctionDef.name := by
    refine Wat.map_eq_map_of_forall₂ hfunctions (List.forall₂_eq_eq_eq ▸ rfl) ?_
    rintro f g _ hg rfl
    obtain ⟨body, -, rfl⟩ := FunctionDef.lower_eq_ok hg
    rfl
  rw [Wat.Module.functionNames, Module.functionNames, hnames, List.map_map]
  rfl

/-- Host functions resolve exactly when their declarations do and they come from a module with a
legal name. -/
theorem HostFunction.resolves_lower_iff {h : HostFunction} (hname : Wat.IsId h.name)
    {importModule : String} : (h.lower importModule).Resolves ↔
      h.Resolvable ∧ Wat.StringBody.IsLegal importModule := by
  have hlegal : Wat.StringBody.IsLegal h.name := Wat.StringBody.isLegal_of_isId hname
  constructor
  · intro hi
    exact ⟨⟨List.forall_mem_map.1 hi.params, forall_resultType_iff.1 hi.result⟩, hi.module⟩
  · rintro ⟨hh, himport⟩
    exact ⟨List.forall_mem_map.2 hh.params, forall_resultType_iff.2 hh.result, himport, hlegal⟩

/-- **Modules** resolve exactly when their declarations do. -/
theorem Module.resolves_lower_iff {m : Module} (hm : m.WellFormed) {importModule : String}
    {t : Wat.Module} (h : m.lower importModule = .ok t) :
    t.Resolves ↔ m.Resolvable importModule := by
  have hnames := Module.functionNames_lower h
  obtain ⟨functions, hfunctions, rfl⟩ := Module.lower_eq_ok h
  have hhost : ∀ d ∈ m.hosts, (d.lower importModule).Resolves ↔
      d.Resolvable ∧ Wat.StringBody.IsLegal importModule :=
    fun d hd => HostFunction.resolves_lower_iff (hm.wellNamed.hosts d hd).name
  have hfunction : ∀ f ∈ m.functions, Wat.StringBody.IsLegal f.name ∧ f.name ∈ m.functionNames := by
    intro f hf
    exact ⟨Wat.StringBody.isLegal_of_isId (hm.wellNamed.functions f hf).name,
      List.mem_append_right _ (List.mem_map.2 ⟨f, hf, rfl⟩)⟩
  have hstructNames : (m.structs.map StructDef.lower).map Wat.Struct.name =
      m.structs.map StructDef.name := List.map_map
  constructor
  · intro ht
    have himports := List.forall_mem_map.1 ht.imports
    refine ⟨hstructNames ▸ ht.structNames, hnames ▸ ht.functionNames, ?_, ?_, ?_, ?_⟩
    · intro s hs
      have hs' := ht.structs _ (List.mem_map_of_mem hs)
      exact ⟨hs'.names, hs'.types⟩
    · exact fun d hd => ((hhost d hd).1 (himports d hd)).1
    · intro f hf
      obtain ⟨g, hg, hlower⟩ := exists_right_of_mem hfunctions hf
      rw [← FunctionDef.resolves_lower_iff (hm.functions f hf) hlower, ← hnames]
      exact ht.functions g hg
    · intro hne
      obtain ⟨d, hd⟩ := List.exists_mem_of_ne_nil _ hne
      exact ((hhost d hd).1 (himports d hd)).2
  · intro hr
    refine ⟨hstructNames ▸ hr.structNames, hnames ▸ hr.functionNames, ?_, ?_, ?_, ?_, ?_⟩
    · refine List.forall_mem_map.2 fun s hs => ?_
      exact ⟨(hr.structs s hs).names, (hr.structs s hs).types⟩
    · refine List.forall_mem_map.2 fun d hd => (hhost d hd).2 ⟨hr.hosts d hd, ?_⟩
      exact hr.importModule (List.ne_nil_of_mem hd)
    · intro g hg
      obtain ⟨f, hf, hlower⟩ := exists_left_of_mem hfunctions hg
      rw [FunctionDef.resolves_lower_iff (hm.functions f hf) hlower, hnames]
      exact hr.functions f hf
    · rw [hnames]
      exact List.forall_mem_map.2 fun f hf => hfunction f (List.mem_of_mem_filter hf)
    · intro x hx
      obtain ⟨f, hf, rfl⟩ := Option.map_eq_some_iff.1 hx
      rw [hnames]
      exact (hfunction f (List.mem_of_find?_eq_some hf)).2

/-! ## Compilation -/

/-- The text of a lowered module denotes a module exactly when its declarations resolve. An import
module whose name would escape its closing quote leaves nothing to be read, and is not legal. -/
theorem Module.isSome_resolve?_text_iff {m : Module} (hm : m.WellFormed) {importModule : String}
    (hquote : SExpr.hasBareQuote importModule.toList = false) {t : Wat.Module}
    (h : m.lower importModule = .ok t) :
    ((Wat.Module.read? t.text).bind Wat.Module.resolve?).isSome = true ↔
      m.Resolvable importModule := by
  have hnamed := Module.wellNamed_lower hm.wellNamed h
  have himports : t.imports = m.hosts.map (HostFunction.lower importModule) := by
    obtain ⟨functions, -, rfl⟩ := Module.lower_eq_ok h
    rfl
  have hmodule : ∀ i ∈ t.imports, i.module = importModule := by
    rw [himports]
    exact List.forall_mem_map.2 fun d _ => rfl
  -- an open escape takes in the closing quote, so the text is read in another way, or as written
  by_cases hopen : m.hosts ≠ [] ∧ SExpr.hasOpenEscape importModule.toList = true
  · have hread : Wat.Module.read? t.text = none := by
      refine Wat.Module.read?_text_of_openEscape hnamed ?_ fun i hi => ?_
      · rw [himports]
        exact fun hnil => hopen.1 (List.map_eq_nil_iff.1 hnil)
      · rw [hmodule i hi]
        exact ⟨hquote, hopen.2⟩
    rw [hread]
    refine ⟨nofun, fun hr => ?_⟩
    obtain ⟨s, hs⟩ := hr.importModule hopen.1
    rw [hs.isClosedBody.noOpenEscape] at hopen
    exact nomatch hopen.2
  · have hread : Wat.Module.read? t.text = some t := by
      refine Module.read?_text_lower hm.wellNamed (fun hne => ⟨hquote, ?_⟩) h
      exact Bool.eq_false_iff.2 fun hescape => hopen ⟨hne, hescape⟩
    rw [hread, Option.bind_some, Wat.Module.isSome_resolve?_iff, Module.resolves_lower_iff hm h]

/-- Compilation of a source that is lowered, as far as the assembler goes. -/
theorem compileToBinary_of_lower {source : String} {p : Program Int} {options : Options}
    {t : Wat.Module} (hparse : Program.parse source = .ok p)
    (hlower : (Module.ofProgram p).lower options.importModule = .ok t) :
    compileToBinary source options = match Wat.assemble options.validate t.text with
      | .ok binary => .ok binary
      | .error error => .error ⟨some .assemble, .toolchain (.assembly error)⟩ := by
  rw [compileToBinary_of_text (buildModule_eq_ok_iff.2 ⟨p, hparse, rfl⟩)
    (emitText_eq_ok_iff.2 ⟨t, hlower, rfl⟩), builtinToolchain]
  cases Wat.assemble options.validate t.text <;> rfl

/-- **Sources that assemble**: of the sources that are lowered, the resolvable ones are assembled
without validation, and the others are refused as malformed with or without it. -/
theorem compileToBinary_resolvable_iff {source : String} {p : Program Int} {options : Options}
    {t : Wat.Module} (hparse : Program.parse source = .ok p)
    (hlower : (Module.ofProgram p).lower options.importModule = .ok t)
    (hquote : SExpr.hasBareQuote options.importModule.toList = false) :
    ((∃ binary, compileToBinary source { options with validate := false } = .ok binary) ↔
      (Module.ofProgram p).Resolvable options.importModule) ∧
    (compileToBinary source { options with validate := true } =
        .error ⟨some .assemble, .toolchain (.assembly .malformed)⟩ ↔
      ¬ (Module.ofProgram p).Resolvable options.importModule) := by
  have hwell := Module.wellFormed_ofProgram (Program.wellFormed_of_parse hparse)
  rw [← Module.isSome_resolve?_text_iff hwell hquote hlower]
  have hcompile := fun validate : Bool =>
    @compileToBinary_of_lower source p { options with validate } t hparse hlower
  rw [hcompile false, hcompile true, Wat.assemble, Wat.assemble]
  cases (Wat.Module.read? t.text).bind Wat.Module.resolve? with
  | none => simp
  | some r => cases hvalid : r.isValid <;> simp [hvalid]

/-- A source whose function uses a variable ahead of its `let` statement. -/
def knownSource : String :=
  "import host.log as fn log(v: i32); fn f(a: i32) { log(b * 2 + 1); let b = a; }"

/-- The host function of `knownSource`. -/
def knownHost : HostFunction := ⟨"host.log", "log", [⟨"v", "i32"⟩], unitType⟩

/-- The function of `knownSource`. -/
def knownFunction : FunctionDef Int :=
  ⟨false, "f", [⟨"a", "i32"⟩], unitType,
    [.eval (.call (.var "log") [[.sum [.product [.var "b", .const 2], .const 1]]]),
      .bind "b" (.var "a")]⟩

theorem parse_knownSource :
    Program.parse knownSource = .ok [.host knownHost, .function knownFunction] := by
  rfl

/-- A source with an unknown variable among the arguments of an argument. -/
def unknownSource : String :=
  "fn f(a: i32) -> i32 { return f(a + f(b)); }"

/-- The function of `unknownSource`. -/
def unknownFunction : FunctionDef Int :=
  ⟨false, "f", [⟨"a", "i32"⟩], "i32",
    [.ret (.call (.var "f") [[.sum [.var "a", .call (.var "f") [[.var "b"]]]]])]⟩

theorem parse_unknownSource : Program.parse unknownSource = .ok [.function unknownFunction] := by
  rfl

theorem compileToBinary_knownSource :
    (∃ binary, compileToBinary knownSource { validate := false } = .ok binary) ∧
      compileToBinary unknownSource {} =
        .error ⟨some .assemble, .toolchain (.assembly .malformed)⟩ := by
  have hquote : SExpr.hasBareQuote ({} : Options).importModule.toList = false := by decide
  constructor
  · refine (compileToBinary_resolvable_iff parse_knownSource rfl hquote).1.2 ?_
    have hi32 : IsValueTypeName "i32" := ⟨.i32, rfl⟩
    refine ⟨List.nodup_nil, by decide, nofun, List.forall_mem_singleton.2 ?_,
      List.forall_mem_singleton.2 ?_, fun _ => Wat.StringBody.isLegal_of_isId (by decide)⟩
    · exact ⟨List.forall_mem_singleton.2 hi32, fun h => absurd rfl h⟩
    · have hnodes : knownFunction.nodes = [.call (.var "log") [[.sum [.product [.var "b", .const 2],
          .const 1]]], .sum [.product [.var "b", .const 2], .const 1],
          .product [.var "b", .const 2], .var "b", .const 2, .const 1, .var "a"] := rfl
      have hlocals : "a" ∈ knownFunction.localNames ∧ "b" ∈ knownFunction.localNames := by decide
      have hlog :
          "log" ∈ (Module.ofProgram [.host knownHost, .function knownFunction]).functionNames := by
        decide
      refine ⟨by decide, List.forall_mem_singleton.2 hi32, fun h => absurd rfl h, ?_, ?_, ?_, ?_⟩
      · simpa [hnodes] using hlocals.symm
      · simpa [hnodes] using hlog
      · simp [hnodes]
      · simp [hnodes, InWord]
  · refine (compileToBinary_resolvable_iff parse_unknownSource rfl hquote).2.2 fun h => ?_
    have hf := h.functions unknownFunction List.mem_cons_self
    have hb : "b" ∈ unknownFunction.localNames := hf.locals "b" (by
      simp [unknownFunction, FunctionDef.nodes, Expr.nodes, Expr.nodesAll, Stmt.value])
    exact absurd hb (by decide)

end Kelp
