import Kelp.Compile
import Kelp.Proofs.Naming
import Kelp.Proofs.Wat.ReadBack
import Kelp.Proofs.Wat.Resolution
import Kelp.Proofs.WellFormed

/-!
# Emitted modules

What the assembler reads when a source text compiles.

- `Module.WellFormed.wellNamed`: the names and types of a module that is built from a source are
  made of word characters, since identifiers are.
- `Module.read?_text_lower`: the assembler reads the lowered module back from its text, unless the
  name that host functions are imported from ends its own string literal.
- `Assembly` holds the stages from a source text to a valid module.
- `Assembly.forall₂_lower`: the functions that the assembler reads are the lowered ones.
  `Assembly.arity_host` and `Assembly.arity_function`: they take as many operands as their
  declarations say, and have a result if their declarations do.
-/

namespace Kelp

open Wat (Instr IsId)

/-! ## Names -/

/-- A name of a source can stand behind a `$` in the text. -/
theorem IsName.isId {s : String} (h : IsName s) : IsId s := ⟨h.ne_nil, h.word⟩

/-- So can those of a binder. -/
theorem Binder.WellFormed.wellNamed {b : Binder} (h : b.WellFormed) : Wat.Binder.WellNamed b :=
  ⟨h.name.isId, h.type.isId⟩

mutual

/-- So can those of an expression, and of the expressions in it. -/
theorem Expr.WellFormed.wellNamed : ∀ {e : Expr Int}, e.WellFormed → e.WellNamed
  | .sum _, h => Expr.AllWellFormed.wellNamed h.2
  | .product _, h => Expr.AllWellFormed.wellNamed h.2
  | .field _ _, h => ⟨Expr.WellFormed.wellNamed h.1, fun x hx => (h.2.2 x hx).isId⟩
  | .call _ _, h => ⟨Expr.WellFormed.wellNamed h.1, Expr.ListsWellFormed.wellNamed h.2.2⟩
  | .var _, h => IsName.isId h
  | .const _, _ => trivial

theorem Expr.AllWellFormed.wellNamed : ∀ {es : List (Expr Int)}, Expr.AllWellFormed es →
    Expr.AllWellNamed es
  | [], _ => trivial
  | _ :: _, h => ⟨Expr.WellFormed.wellNamed h.1, Expr.AllWellFormed.wellNamed h.2⟩

theorem Expr.ListsWellFormed.wellNamed : ∀ {ess : List (List (Expr Int))},
    Expr.ListsWellFormed ess → Expr.ListsWellNamed ess
  | [], _ => trivial
  | _ :: _, h => ⟨Expr.AllWellFormed.wellNamed h.1, Expr.ListsWellFormed.wellNamed h.2⟩

end

/-- So can those of a statement. -/
theorem Stmt.WellFormed.wellNamed {s : Stmt Int} (h : s.WellFormed) : s.WellNamed := by
  cases s with
  | bind x e => exact ⟨h.1.isId, h.2.wellNamed⟩
  | ret e => exact Expr.WellFormed.wellNamed h
  | eval e => exact h.2.wellNamed

/-! ## Modules of sources -/

/-- The declarations of a module are well-formed. -/
structure Module.WellFormed (m : Module) : Prop where
  structs : ∀ d ∈ m.structs, d.WellFormed
  functions : ∀ d ∈ m.functions, d.WellFormed
  hosts : ∀ d ∈ m.hosts, d.WellFormed

theorem Decl.eq_of_struct? {d : Decl Int} {s : StructDef} (h : d.struct? = some s) :
    d = .struct s := by
  cases d <;> cases h
  rfl

theorem Decl.eq_of_function? {d : Decl Int} {f : FunctionDef Int} (h : d.function? = some f) :
    d = .function f := by
  cases d <;> cases h
  rfl

theorem Decl.eq_of_host? {d : Decl Int} {h : HostFunction} (hd : d.host? = some h) :
    d = .host h := by
  cases d <;> cases hd
  rfl

/-- Sorting declarations by kind keeps them well-formed: it adds and changes none. -/
theorem Module.wellFormed_ofProgram {p : Program Int} (h : p.WellFormed) :
    (Module.ofProgram p).WellFormed := by
  constructor
  · intro s hs
    obtain ⟨d, hd, hs⟩ := List.mem_filterMap.1 hs
    rw [Decl.eq_of_struct? hs] at hd
    exact h _ hd
  · intro f hf
    obtain ⟨d, hd, hf⟩ := List.mem_filterMap.1 hf
    rw [Decl.eq_of_function? hf] at hd
    exact h _ hd
  · intro host hhost
    obtain ⟨d, hd, hhost⟩ := List.mem_filterMap.1 hhost
    rw [Decl.eq_of_host? hhost] at hd
    exact h _ hd

/-- **Names of a module** that is built from a source are made of word characters. -/
theorem Module.WellFormed.wellNamed {m : Module} (h : m.WellFormed) : m.WellNamed := by
  constructor
  · intro s hs
    have hwell := h.structs s hs
    exact ⟨hwell.name.isId, fun b hb => (hwell.fields b hb).wellNamed⟩
  · intro f hf
    have hwell := h.functions f hf
    exact ⟨hwell.name.isId, fun b hb => (hwell.params b hb).wellNamed, hwell.returnType.isId,
      fun s hs => (hwell.body s hs).wellNamed⟩
  · intro d hd
    have hwell := h.hosts d hd
    exact ⟨hwell.name.isId, fun b hb => (hwell.params b hb).type.isId, hwell.returnType.isId⟩

/-- Reading the text of a lowered module yields the module, if the name of the module that host
functions are imported from is closed. -/
theorem Module.read?_text_lower {m : Module} (hm : m.WellNamed) {importModule : String}
    (himport : m.hosts ≠ [] → SExpr.IsClosedBody importModule.toList) {t : Wat.Module}
    (h : m.lower importModule = .ok t) : Wat.Module.read? t.text = some t := by
  have hwell := Module.wellNamed_lower hm h
  obtain ⟨functions, -, rfl⟩ := Module.lower_eq_ok h
  refine Wat.Module.read?_text_of_closed hwell fun i hi => ?_
  obtain ⟨d, hd, rfl⟩ := List.mem_map.1 hi
  -- without host functions the name is written nowhere
  exact himport (List.ne_nil_of_mem hd)

/-! ## Assembly -/

/-- A module is built whenever the source is parsed. -/
theorem buildModule_eq_ok_iff {source : String} {m : Module} :
    buildModule source = .ok m ↔ ∃ p, Program.parse source = .ok p ∧ Module.ofProgram p = m := by
  unfold buildModule
  cases Program.parse source with
  | error e => exact iff_of_false nofun nofun
  | ok p => simp only [Except.ok.injEq, exists_eq_left']

/-- What is built from a source is well-formed. -/
theorem wellFormed_of_buildModule {source : String} {m : Module}
    (h : buildModule source = .ok m) : m.WellFormed := by
  obtain ⟨p, hp, rfl⟩ := buildModule_eq_ok_iff.1 h
  exact Module.wellFormed_ofProgram (Program.wellFormed_of_parse hp)

/-- A text is emitted whenever the module is lowered. -/
theorem emitText_eq_ok_iff {m : Module} {options : Options} {text : String} :
    emitText m options = .ok text ↔
      ∃ t, m.lower options.importModule = .ok t ∧ t.text = text := by
  unfold emitText
  cases m.lower options.importModule with
  | error e => exact iff_of_false nofun nofun
  | ok t => simp only [Except.ok.injEq, exists_eq_left']

/-- The stages from a source text to a valid module: the declarations of the source, the text that
they are emitted as, the module that the assembler reads from that text, and the module with all
names resolved. -/
structure Assembly (source : String) (options : Options) where
  declarations : Module
  text : String
  module : Wat.Module
  resolved : Wasm.Module
  build : buildModule source = .ok declarations
  emit : emitText declarations options = .ok text
  read : Wat.Module.read? text = some module
  resolve : module.resolve? = some resolved
  valid : resolved.isValid = true

namespace Assembly

variable {source : String} {options : Options} (a : Assembly source options)

theorem wellFormed : a.declarations.WellFormed := wellFormed_of_buildModule a.build

/-- What the assembler reads is the lowered module, up to imports. -/
theorem exists_lower : ∃ t imports, a.declarations.lower options.importModule = .ok t ∧
    a.module = { t with imports } ∧ ∀ i ∈ t.imports, ∃ module, { i with module } ∈ imports := by
  obtain ⟨t, ht, htext⟩ := emitText_eq_ok_iff.1 a.emit
  -- a quote in the name that hosts are imported from may add imports, but takes none away
  obtain ⟨imports, hmodule, himports⟩ := Wat.Module.read?_text
    (Module.wellNamed_lower a.wellFormed.wellNamed ht) (htext ▸ a.read)
  refine ⟨t, imports, ht, hmodule, fun i hi => ?_⟩
  obtain ⟨module, -, hmem⟩ := himports i hi
  exact ⟨module, hmem⟩

/-- The functions that the assembler reads are the lowered ones. -/
theorem forall₂_lower : List.Forall₂ (fun f g => FunctionDef.lower f = .ok g)
    a.declarations.functions a.module.functions := by
  obtain ⟨t, imports, ht, hmodule, -⟩ := a.exists_lower
  obtain ⟨functions, hfunctions, rfl⟩ := Module.lower_eq_ok ht
  rw [hmodule]
  exact hfunctions

/-- No two functions share a name, imported ones included. -/
theorem distinct_functionNames : Wat.distinct a.module.functionNames = true :=
  (Wat.Module.resolve?_eq_some a.resolve).1

/-- A host function takes the operands that its declaration says. -/
theorem arity_host {h : HostFunction} (hh : h ∈ a.declarations.hosts) :
    a.module.arity h.name = some ⟨h.params.length, h.result.isSome⟩ := by
  obtain ⟨t, imports, ht, hmodule, himports⟩ := a.exists_lower
  obtain ⟨functions, -, rfl⟩ := Module.lower_eq_ok ht
  obtain ⟨module, hmem⟩ := himports _ (List.mem_map.2 ⟨h, hh, rfl⟩)
  have hmem' : { h.lower options.importModule with module } ∈ a.module.imports := by
    rw [hmodule]
    exact hmem
  rw [show h.name = ({ h.lower options.importModule with module } : Wat.Import).name from rfl,
    Wat.Module.arity_import a.distinct_functionNames hmem', Wat.Import.arity]
  -- the module that it is imported from has no part in the arity
  show some (Wat.Arity.mk (h.params.map Binder.type).length h.result.isSome) = _
  rw [List.length_map]

/-- A function takes the operands that its declaration says. -/
theorem arity_function {f : FunctionDef Int} (hf : f ∈ a.declarations.functions) :
    a.module.arity f.name = some ⟨f.params.length, f.result.isSome⟩ := by
  obtain ⟨g, hg, hlower⟩ := exists_right_of_mem a.forall₂_lower hf
  have harity := Wat.Module.arity_function a.distinct_functionNames hg
  obtain ⟨body, -, rfl⟩ := FunctionDef.lower_eq_ok hlower
  exact harity

end Assembly

end Kelp
