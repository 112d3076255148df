import Kelp.Proofs.Decoding
import Kelp.Proofs.Script.Scopes
import Kelp.Proofs.Script.Wrappers

/-!
# Names in loaders

A loader puts names of the source next to names of its own. Parameters of host functions stand in
the scope in which the path of the host function is resolved, and public functions are bound where
the loader declares its constants and finds the host's objects. Only reserved words are renamed, so
other names can meet.

- `compileToLoader_forwards_iff`: a wrapper calls its host function with the values that it is
  called with exactly when the parameters have different names and none is the start of the path.
  With `capturingSource` a parameter takes the place of the host's object.
- `compileToLoader_clashFree_iff`: the names at the top level of an ES module do not clash exactly
  when no public function is called like a constant of the loader, an object that it uses, or the
  start of a path. With `clashingSource` the loader declares a name twice.
-/

namespace Kelp

open Script

/-! ## Wrappers -/

/-- **Wrappers forward**: a loader has a wrapper for each host function, in order, with as many
parameters and none that is a reserved word. Two of them are equal only if two have the same name,
and one hides the start of the path only if it has the same name. The wrapper calls what the path
stands for outside of it, with the values that it is called with, exactly when neither is the case
and the path starts with a name that is not special to functions. -/
theorem compileToLoader_forwards_iff {source : String} {options : Options} {m : Module}
    {loader : String} (hm : buildModule source = .ok m)
    (h : compileToLoader source options = .ok loader) :
    ∃ wrappers, Loader.wrappers? loader = some wrappers ∧
      List.Forall₂ (fun (host : HostFunction) (w : String × Forwarder) =>
        w.1 = host.name ∧ w.2.params.length = host.params.length ∧
        (∀ x ∈ w.2.params, x ∉ unbindable) ∧
        (w.2.params.Nodup ↔ (host.params.map Binder.name).Nodup) ∧
        (root host.path ∈ w.2.params ↔
          ∃ p ∈ host.params, p.name = root host.path ∧ isReserved p.name = false) ∧
        (w.2.Forwards options.format host.path ↔ host.Forwardable options.format))
        m.hosts wrappers := by
  obtain ⟨binary, -, rfl⟩ := exists_binary_of_loader hm h
  have hwell := wellFormed_of_buildModule hm
  refine ⟨_, Loader.wrappers?_text binary hwell _ _, ?_⟩
  -- the wrappers of a loader are read back as what the host functions were turned into
  rw [forwarders, List.forall₂_map_right_iff, List.forall₂_same]
  intro host hhost
  have hh := hwell.hosts host hhost
  exact ⟨rfl, List.length_map _, fun _ => HostFunction.notMem_unbindable_of_mem_params,
    HostFunction.nodup_params_iff hh, HostFunction.root_mem_params_iff hh,
    HostFunction.forwards_iff hh options.format⟩

/-- Options for ES modules. -/
def moduleOptions : Options := { format := .esModule }

/-- A source with two host functions. A parameter has a name that scripts reserve, and one is called
like the last name in a path. -/
def forwardingSource : String :=
  "import console.log as fn log(class: i32, log: i32); " ++
    "import Math.max as fn max(a: i32, b: i32) -> i32;"

theorem forwardingSource_forwards : ∃ m loader wrappers, buildModule forwardingSource = .ok m ∧
    compileToLoader forwardingSource moduleOptions = .ok loader ∧
    Loader.wrappers? loader = some wrappers ∧
    List.Forall₂ (fun path (w : String × Forwarder) => w.2.Forwards .esModule path)
      ["console.log", "Math.max"] wrappers := by
  have hmodule : (buildModule forwardingSource).toOption.map (fun m =>
      (m.hosts.map HostFunction.path, decide (∀ h ∈ m.hosts, h.Forwardable .esModule),
        m.assembles moduleOptions.importModule)) =
      some (["console.log", "Math.max"], true, true) := by decide +kernel
  obtain ⟨m, hm, hmodule⟩ := map_toOption_eq_some_iff.1 hmodule
  rw [Prod.mk.injEq, Prod.mk.injEq, decide_eq_true_eq] at hmodule
  obtain ⟨hpaths, hforwardable, hassembles⟩ := hmodule
  obtain ⟨loader, hloader⟩ :=
    exists_loader_of_assembles hm rfl ⟨by decide, by decide⟩ hassembles
  obtain ⟨wrappers, hwrappers, hforwards⟩ := compileToLoader_forwards_iff hm hloader
  refine ⟨m, loader, wrappers, hm, hloader, hwrappers, ?_⟩
  rw [← hpaths, List.forall₂_map_left_iff]
  refine forall₂_imp_of_mem hforwards fun host w hhost _ hw => ?_
  exact hw.2.2.2.2.2.2 (hforwardable host hhost)

/-- A source in which the parameter of a host function is called like the start of its path. -/
def capturingSource : String := "import console.log as fn log(console: i32);"

/-- **A captured path**: with `capturingSource`, the wrapper takes its argument for the object that
has the function. -/
theorem capturingSource_captures : ∃ m loader w, buildModule capturingSource = .ok m ∧
    compileToLoader capturingSource {} = .ok loader ∧
    Loader.wrappers? loader = some [("log", w)] ∧ w.params = ["console"] ∧
    w.callee = "console.log" ∧ w.Legal .commonJs ∧ ¬ w.Forwards .commonJs "console.log" := by
  have hmodule : (buildModule capturingSource).toOption.map (fun m =>
      (m.hosts, m.assembles ({} : Options).importModule)) =
      some ([⟨"console.log", "log", [⟨"console", "i32"⟩], unitType⟩], true) := by decide +kernel
  obtain ⟨m, hm, hmodule⟩ := map_toOption_eq_some_iff.1 hmodule
  rw [Prod.mk.injEq] at hmodule
  obtain ⟨hhosts, hassembles⟩ := hmodule
  obtain ⟨loader, hloader⟩ :=
    exists_loader_of_assembles hm rfl ⟨by decide, by decide⟩ hassembles
  have hwell := wellFormed_of_buildModule hm
  obtain ⟨binary, -, rfl⟩ := exists_binary_of_loader hm hloader
  have hwrappers := Loader.wrappers?_text binary hwell "env" .commonJs
  have hhost := hwell.hosts
  rw [hhosts, List.forall_mem_singleton] at hhost
  rw [hhosts] at hwrappers
  refine ⟨m, _, _, hm, hloader, hwrappers, by decide, rfl, ?_, ?_⟩
  · exact ⟨by decide, by decide, by decide, by decide⟩
  · exact mt (HostFunction.forwards_iff hhost .commonJs).1 (by decide)

/-! ## Names at the top level -/

/-- The name that a statement declares. -/
def Script.Statement.declares? : Statement → Option String
  | .constant name _ => some name
  | .exportConstant name _ => some name
  | _ => none

/-- The constants that a loader has for itself. -/
def Loader.ownNames : List String := ["wasmBase64", "wasmBuffer", "mod", "importObject", "instance"]

/-- The objects of the host that every loader uses. -/
def Loader.globals : List String := ["Buffer", "WebAssembly"]

/-- The names that a loader declares at its top level, in order. -/
def Loader.declared? (loader : String) : Option (List String) :=
  (statements? loader).map fun ss => ss.filterMap Statement.declares?

/-- Every name at the top level is declared once, and what is exported hides neither an object that
loaders use nor one at the start of the path of a wrapper. -/
@[mk_iff]
structure Loader.ClashFree (declared : List String) (exports : List Export)
    (wrappers : List (String × Forwarder)) : Prop where
  distinct : declared.Nodup
  globals : ∀ e ∈ exports, e.binding ∉ Loader.globals
  hosts : ∀ e ∈ exports, ∀ w ∈ wrappers, e.binding ≠ root w.2.callee

/-- No public function is called like a constant of loaders, an object that they use, or the start
of a path, except where it is bound under another name. -/
@[mk_iff]
structure Module.ClashFree (m : Module) : Prop where
  own : ∀ f ∈ m.namedFunctions, f.name ∉ Loader.ownNames
  globals : ∀ f ∈ m.namedFunctions, f.name ∉ Loader.globals
  hosts : ∀ f ∈ m.namedFunctions, ∀ h ∈ m.hosts, f.name = root h.path → isReserved f.name = true

instance (m : Module) : Decidable m.ClashFree := decidable_of_iff' _ m.clashFree_iff

/-! ### Declared names -/

/-- An export declares its binding, also where it is exported under a name that cannot be bound. -/
theorem filterMap_declares?_exportStatements {name : String} (h : name ≠ "default") :
    (Loader.exportStatements name).filterMap Statement.declares? = [binding name] := by
  rw [Loader.exportStatements, Loader.defaultName, if_neg h]
  cases hreserved : isReserved name with
  | false =>
    rw [binding_of_not_isReserved hreserved]
    rfl
  | true => rfl

/-- The exports declare their bindings, in order. -/
theorem filterMap_declares?_republish (m : Module) :
    (Loader.republish m .esModule).filterMap Statement.declares? =
      (m.namedFunctions.map FunctionDef.published).map Export.binding := by
  have hnamed : ∀ f ∈ m.namedFunctions, f.name ≠ "default" := fun f hf =>
    of_decide_eq_true (List.mem_filter.1 hf).2
  rw [republish_eq]
  -- by induction on the functions, of which none is called `default`
  generalize m.namedFunctions = fs at hnamed ⊢
  induction fs with
  | nil => rfl
  | cons f fs ih =>
    rw [List.forall_mem_cons] at hnamed
    rw [List.flatMap_cons, List.append_assoc, List.filterMap_append, ih hnamed.2,
      filterMap_declares?_exportStatements hnamed.1]
    rfl

/-- A loader declares its own constants, and then the bindings of its exports. -/
theorem Loader.declared?_text (binary : Bytes) {m : Module} (hm : m.WellFormed)
    (importModule : String) : declared? (text binary m importModule .esModule) =
      some (ownNames ++ (m.namedFunctions.map FunctionDef.published).map Export.binding) := by
  rw [declared?, statements?_text binary hm, Option.map_some, statements, List.filterMap_append,
    filterMap_declares?_republish]
  rfl

/-! ### Clashes -/

/-- The functions of an accepted source have different names, whatever is imported besides them. -/
theorem nodup_functionNames_of_resolve? {m : Module} (hm : m.WellFormed) {importModule : String}
    {t w : Wat.Module} {r : Wasm.Module} (ht : m.lower importModule = .ok t)
    (hw : Wat.Module.read? t.text = some w) (hr : w.resolve? = some r) :
    (m.functions.map FunctionDef.name).Nodup := by
  -- a quote in the name of the module may add imports, but the functions are read as written
  obtain ⟨imports, rfl, -⟩ := Wat.Module.read?_text (Module.wellNamed_lower hm.wellNamed ht) hw
  have hnames := Module.functionNames_lower ht
  obtain ⟨functions, -, rfl⟩ := Module.lower_eq_ok ht
  have hfunctions : functions.map Wat.Func.name = m.functions.map FunctionDef.name := by
    rw [Wat.Module.functionNames, Module.functionNames, List.map_map] at hnames
    exact List.append_cancel_left hnames
  have hdistinct := (Wat.Module.resolve?_eq_some hr).1
  rw [Wat.distinct_iff_nodup, Wat.Module.functionNames] at hdistinct
  rw [← hfunctions]
  exact (List.nodup_append.1 hdistinct).2.1

section Clashes

variable {m : Module} (hm : m.WellFormed)

/-- A binding meets a name that is no reserved word exactly when it was made from this name. -/
theorem forall_binding_notMem_iff {fs : List (FunctionDef Int)} {names : List String}
    (hnames : ∀ x ∈ names, '$' ∉ x.toList ∧ isReserved x = false) :
    (∀ e ∈ fs.map FunctionDef.published, e.binding ∉ names) ↔ ∀ f ∈ fs, f.name ∉ names := by
  rw [List.forall_mem_map]
  refine forall₂_congr fun f _ => not_congr ⟨fun hmem => ?_, fun hmem => ?_⟩
  · have hname := ((binding_eq_iff (hnames _ hmem).1).1 (rfl : binding f.name = _)).1
    rw [hname]
    exact hmem
  · show binding f.name ∈ names
    rwa [binding_of_not_isReserved (hnames _ hmem).2]

include hm

/-- A binding hides the start of a path exactly when it was made from the same name without renaming
it. -/
theorem forall_binding_ne_root_iff :
    (∀ e ∈ m.namedFunctions.map FunctionDef.published, ∀ w ∈ forwarders m.hosts,
      e.binding ≠ root w.2.callee) ↔
    ∀ f ∈ m.namedFunctions, ∀ h ∈ m.hosts, f.name = root h.path → isReserved f.name = true := by
  simp only [forwarders, List.forall_mem_map]
  refine forall₂_congr fun f _ => forall₂_congr fun h hh => ?_
  show binding f.name ≠ root h.path ↔ _
  rw [Ne, binding_eq_iff (dollar_notMem (isName_root (hm.hosts h hh).path)), not_and,
    Bool.not_eq_false]

/-- **Clashes**: the names in the loader of a module clash exactly when names of the module do. -/
theorem Loader.clashFree_forwarders_iff (hnames : (m.functions.map FunctionDef.name).Nodup) :
    Loader.ClashFree
        (Loader.ownNames ++ (m.namedFunctions.map FunctionDef.published).map Export.binding)
        (m.namedFunctions.map FunctionDef.published) (forwarders m.hosts) ↔
      m.ClashFree := by
  have hown : ∀ x ∈ Loader.ownNames, '$' ∉ x.toList ∧ isReserved x = false := by decide
  have hglobals : ∀ x ∈ Loader.globals, '$' ∉ x.toList ∧ isReserved x = false := by decide
  have hbindings := Module.nodup_bindings hnames fun f hf => (hm.functions f hf).name
  have hdistinct : (Loader.ownNames ++
      (m.namedFunctions.map FunctionDef.published).map Export.binding).Nodup ↔
      ∀ f ∈ m.namedFunctions, f.name ∉ Loader.ownNames := by
    -- the bindings differ from each other already, so they can only meet the loader's own names
    rw [← forall_binding_notMem_iff hown, List.nodup_append', List.disjoint_right,
      List.forall_mem_map]
    exact ⟨fun h => h.2.2, fun h => ⟨by decide, hbindings, h⟩⟩
  rw [Loader.clashFree_iff, Module.clashFree_iff, hdistinct, forall_binding_notMem_iff hglobals,
    forall_binding_ne_root_iff hm]

end Clashes

/-- **Names do not clash**: an ES module declares its own constants and a binding for each public
function, apart from one called `default`. All these are different from each other and hide nothing
that the loader uses exactly when no such function is called like one of the constants, `Buffer`,
`WebAssembly` or, without being a reserved word, the start of a path. -/
theorem compileToLoader_clashFree_iff {source : String} {options : Options} {m : Module}
    {loader : String} (hm : buildModule source = .ok m) (hformat : options.format = .esModule)
    (h : compileToLoader source options = .ok loader) :
    ∃ declared exports wrappers, Loader.declared? loader = some declared ∧
      Loader.exports? loader = some exports ∧ Loader.wrappers? loader = some wrappers ∧
      declared = Loader.ownNames ++ exports.map Export.binding ∧
      exports.map Export.name = m.namedFunctions.map FunctionDef.name ∧
      wrappers.map (·.2.callee) = m.hosts.map HostFunction.path ∧
      (Loader.ClashFree declared exports wrappers ↔ m.ClashFree) := by
  obtain ⟨binary, hbinary, rfl⟩ := exists_binary_of_loader hm h
  obtain ⟨m', t, w, r, hm', ht, hw, hr, rfl⟩ := exists_stages hbinary
  cases hm.symm.trans hm'
  have hwell := wellFormed_of_buildModule hm
  -- the assembler has refused functions with the same name
  have hnames := nodup_functionNames_of_resolve? hwell ht hw hr
  rw [hformat]
  refine ⟨_, _, _, Loader.declared?_text _ hwell _,
    Loader.exports?_text _ _ fun f hf => Loader.isName_of_mem_publicFunctions hwell hf,
    Loader.wrappers?_text _ hwell _ _, rfl, ?_, ?_, Loader.clashFree_forwarders_iff hwell hnames⟩
  · rw [List.map_map]
    rfl
  · rw [forwarders, List.map_map]
    rfl

/-- A source with a host function and public functions, one of which has a reserved name. -/
def separateSource : String :=
  "import console.log as fn log(x: i32); pub fn new() { log(1); } " ++
    "pub fn add(a: i32) -> i32 { return a; }"

theorem separateSource_clashFree : ∃ loader declared exports wrappers,
    compileToLoader separateSource moduleOptions = .ok loader ∧
      Loader.declared? loader = some declared ∧ Loader.exports? loader = some exports ∧
      Loader.wrappers? loader = some wrappers ∧ exports.map Export.name = ["new", "add"] ∧
      wrappers.map (·.2.callee) = ["console.log"] ∧
      Loader.ClashFree declared exports wrappers := by
  have hmodule : (buildModule separateSource).toOption.map (fun m =>
      (m.namedFunctions.map FunctionDef.name, m.hosts.map HostFunction.path,
        decide m.ClashFree, m.assembles moduleOptions.importModule)) =
      some (["new", "add"], ["console.log"], true, true) := by decide +kernel
  obtain ⟨m, hm, hmodule⟩ := map_toOption_eq_some_iff.1 hmodule
  rw [Prod.mk.injEq, Prod.mk.injEq, Prod.mk.injEq, decide_eq_true_eq] at hmodule
  obtain ⟨hfunctions, hhosts, hclash, hassembles⟩ := hmodule
  obtain ⟨loader, hloader⟩ :=
    exists_loader_of_assembles hm rfl ⟨by decide, by decide⟩ hassembles
  obtain ⟨declared, exports, wrappers, hdeclared, hexports, hwrappers, -, hnames, hpaths, hiff⟩ :=
    compileToLoader_clashFree_iff hm rfl hloader
  exact ⟨loader, declared, exports, wrappers, hloader, hdeclared, hexports, hwrappers,
    hnames.trans hfunctions, hpaths.trans hhosts, hiff.2 hclash⟩

/-- A source with a function that is called like a constant of loaders. -/
def clashingSource : String := "pub fn instance() { }"

/-- **A name that is declared twice**: the loader of `clashingSource` is no script. -/
theorem clashingSource_clashes : ∃ loader declared,
    compileToLoader clashingSource moduleOptions = .ok loader ∧
      Loader.declared? loader = some declared ∧
      declared = ["wasmBase64", "wasmBuffer", "mod", "importObject", "instance", "instance"] ∧
      ¬ declared.Nodup := by
  have hmodule : (buildModule clashingSource).toOption.map (fun m =>
      (m.namedFunctions.map FunctionDef.name, m.assembles moduleOptions.importModule)) =
      some (["instance"], true) := by decide +kernel
  obtain ⟨m, hm, hmodule⟩ := map_toOption_eq_some_iff.1 hmodule
  rw [Prod.mk.injEq] at hmodule
  obtain ⟨hnamed, hassembles⟩ := hmodule
  obtain ⟨loader, hloader⟩ :=
    exists_loader_of_assembles hm rfl ⟨by decide, by decide⟩ hassembles
  obtain ⟨binary, -, rfl⟩ := exists_binary_of_loader hm hloader
  have hdeclared := Loader.declared?_text binary (wellFormed_of_buildModule hm)
    moduleOptions.importModule
  rw [map_binding_published, hnamed] at hdeclared
  exact ⟨_, _, hloader, hdeclared, by decide, by decide⟩

end Kelp
