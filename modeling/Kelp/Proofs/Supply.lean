import Kelp.Proofs.Decoding
import Kelp.Proofs.Script.Loading

/-!
# Loaders supply what binaries import

A binary asks for functions under two names each, of a module and of the function itself. The loader
that carries it has an object with these functions. Both come from the same declarations, but the
name of the module is written in two ways: between quotes as it is for the binary, and with escapes
for the object.

- `ImportObject.Supplies` says that an object has a function for each import of a binary, and that
  it forwards to the host function which the import was made for.
- `exists_import_of_host`: a binary imports every host function, from a module whose name is spelled
  by the given one or by an end of it.
- `compileToLoader_supplies_iff`: the object of a loader supplies the binary in it exactly when the
  name of the module has neither quotes nor backslashes.
- `escapedOptions` has a name with an escape. The binary asks for a module that the loader does not
  supply.
-/

namespace Kelp

open Script

/-! ## Looking up functions -/

namespace ImportObject

/-- The function that an object has under the names of a module and of a function. The last one of
several properties with the same name counts. -/
def get? (object : ImportObject) (module name : String) : Option Forwarder :=
  if object.module = module then object.functions.reverse.lookup name else none

/-- Each import finds a function in the object: the one for the host function of the same name. -/
def Supplies (object : ImportObject) (hosts : List HostFunction) (imports : List Wasm.Import) :
    Prop :=
  ∀ i ∈ imports, ∃ h ∈ hosts, h.name = i.name ∧ object.get? i.module i.name = some h.forwarder

/-- An object has functions for one module only. -/
theorem module_of_get? {object : ImportObject} {module name : String} {f : Forwarder}
    (h : object.get? module name = some f) : object.module = module := by
  unfold get? at h
  split at h
  next heq => exact heq
  next => cases h

end ImportObject

/-- A host function is found under its own name. -/
theorem get?_forwarders {hosts : List HostFunction} (hnames : (hosts.map HostFunction.name).Nodup)
    {h : HostFunction} (hh : h ∈ hosts) (module : String) :
    (ImportObject.mk module (forwarders hosts)).get? module h.name = some h.forwarder := by
  have hkeys : ((forwarders hosts).reverse.map Prod.fst).Nodup := by
    rw [List.map_reverse, List.nodup_reverse, forwarders, List.map_map]
    exact hnames
  rw [ImportObject.get?, if_pos rfl]
  exact lookup_eq_some_of_mem hkeys (List.mem_reverse.2 (List.mem_map_of_mem hh))

/-! ## Imports -/

section Imports

variable {m : Module} (hm : m.WellFormed) {importModule : String} {t w : Wat.Module}
  {r : Wasm.Module} (ht : m.lower importModule = .ok t) (hw : Wat.Module.read? t.text = some w)
  (hr : w.resolve? = some r)

include hm ht hw hr

/-- **Imported host functions**: each host function is imported under its name. The name of the
module stands at the end of the given one, since a quote in it ends what came before. -/
theorem exists_import_of_host {h : HostFunction} (hh : h ∈ m.hosts) :
    ∃ i ∈ r.layout.imports, i.name = h.name ∧ ∃ module : String,
      module.toList <:+ importModule.toList ∧
      Wat.StringBody.decode? module = some i.module := by
  obtain ⟨imports, rfl, himports⟩ :=
    Wat.Module.read?_text (Module.wellNamed_lower hm.wellNamed ht) hw
  obtain ⟨functions, -, rfl⟩ := Module.lower_eq_ok ht
  obtain ⟨module, hsuffix, hmem⟩ := himports _ (List.mem_map_of_mem hh)
  obtain ⟨-, -, -, -, hresolve, -⟩ := Wat.Module.resolve?_eq_some hr
  obtain ⟨i, hi, hi'⟩ := exists_right_of_mem hresolve hmem
  obtain ⟨hmodule, hname⟩ := Wat.Import.names_of_resolve? hi'
  have hid := Wat.StringBody.decode?_of_isId (hm.wellNamed.hosts h hh).name
  exact ⟨i, hi, (Option.some.inj (hid.symm.trans hname)).symm, module, hsuffix, hmodule⟩

section Plain

variable (hplain : SExpr.IsPlainBody importModule.toList)

include hplain

/-- With such a name, the binary is that of the declarations. -/
theorem describedBy_of_isPlainBody : m.DescribedBy importModule r.layout := by
  rw [Module.read?_text_lower hm.wellNamed (fun _ => hplain.isClosedBody) ht] at hw
  cases hw
  exact Module.describedBy_layout hm ht hr

/-- A name without quotes and backslashes is the same in the binary and in the loader. -/
theorem supplies_of_isPlainBody :
    (ImportObject.mk importModule (forwarders m.hosts)).Supplies m.hosts r.layout.imports := by
  have hd := describedBy_of_isPlainBody hm ht hw hr hplain
  intro i hi
  obtain ⟨h, hh, hmodule, hname, -⟩ := exists_left_of_mem hd.imports hi
  rw [Wat.StringBody.decode?_of_isPlainBody hplain hmodule, hname]
  exact ⟨h, hh, rfl, get?_forwarders (List.nodup_append.1 hd.names).1 hh importModule⟩

/-- The one name that the loader cannot write is refused by the assembler before. -/
theorem zeroBeforeDigit_of_isPlainBody (hhosts : m.hosts ≠ []) :
    zeroBeforeDigit importModule.toList = false := by
  have hd := describedBy_of_isPlainBody hm ht hw hr hplain
  obtain ⟨h, hh⟩ := List.exists_mem_of_ne_nil _ hhosts
  obtain ⟨i, -, hmodule, -⟩ := exists_right_of_mem hd.imports hh
  have hspells := Wat.StringBody.decode?_eq_some_iff.1 hmodule
  exact zeroBeforeDigit_of_notMem fun hzero =>
    absurd (hspells.forall_isPlain hplain _ hzero) (by decide)

end Plain

end Imports

/-! ## Loaders -/

/-- **Loaders supply their binaries**: a loader holds the binary of its source, which imports every
host function. The import object in it supplies these imports exactly when the name of the module
that they come from has neither quotes nor backslashes. -/
theorem compileToLoader_supplies_iff {source : String} {options : Options} {m : Module}
    {loader : String} (hm : buildModule source = .ok m) (hhosts : m.hosts ≠ [])
    (h : compileToLoader source options = .ok loader) :
    ∃ binary d, compileToBinary source options = .ok binary ∧
      Loader.binary? loader = some binary ∧ Wasm.decode? binary = some d ∧
      (∀ host ∈ m.hosts, ∃ i ∈ d.imports, i.name = host.name) ∧
      ((∃ object, Loader.importObject? loader = some object ∧
          object.Supplies m.hosts d.imports) ↔
        SExpr.IsPlainBody options.importModule.toList) := by
  obtain ⟨binary, hbinary, rfl⟩ := exists_binary_of_loader hm h
  obtain ⟨m', t, w, r, hm', ht, hw, hr, rfl⟩ := exists_stages hbinary
  cases hm.symm.trans hm'
  have hwell := wellFormed_of_buildModule hm
  have hobject := Loader.importObject?_text r.encode m options.importModule options.format
    hwell.hosts
  refine ⟨r.encode, r.layout, hbinary, Loader.binary?_text _ _ _ _, Wasm.decode?_encode r,
    fun host hhost => ?_, fun ⟨object, hsome, hsupplies⟩ => ?_, fun hplain => ?_⟩
  · obtain ⟨i, hi, hname, -⟩ := exists_import_of_host hwell ht hw hr hhost
    exact ⟨i, hi, hname⟩
  · -- some import is supplied, so what an end of the name spells is the whole name
    rw [hobject] at hsome
    split at hsome
    next => cases hsome
    next =>
      cases hsome
      obtain ⟨host, hhost⟩ := List.exists_mem_of_ne_nil _ hhosts
      obtain ⟨i, hi, -, module, hsuffix, hmodule⟩ := exists_import_of_host hwell ht hw hr hhost
      obtain ⟨_, -, -, hget⟩ := hsupplies i hi
      rw [← ImportObject.module_of_get? hget] at hmodule
      exact Wat.StringBody.isPlainBody_of_isSuffix hsuffix hmodule
  · refine ⟨_, ?_, supplies_of_isPlainBody hwell ht hw hr hplain⟩
    rw [hobject, zeroBeforeDigit_of_isPlainBody hwell ht hw hr hplain hhosts]
    rfl

/-- A source with two host functions. A parameter has a name that scripts reserve. -/
def loggingSource : String :=
  "import console.log as fn log(class: i32); import tick as fn tick();"

/-- A module name that is no identifier. -/
def spacedOptions : Options := { importModule := "host api" }

theorem loggingSource_supplied : ∃ m loader binary d object,
    buildModule loggingSource = .ok m ∧ m.hosts.map HostFunction.name = ["log", "tick"] ∧
      compileToLoader loggingSource spacedOptions = .ok loader ∧
      Loader.binary? loader = some binary ∧ Wasm.decode? binary = some d ∧
      Loader.importObject? loader = some object ∧ object.Supplies m.hosts d.imports := by
  have hmodule : (buildModule loggingSource).toOption.map (fun m =>
      (m.hosts.map HostFunction.name, m.assembles spacedOptions.importModule)) =
      some (["log", "tick"], true) := by decide +kernel
  obtain ⟨m, hm, hmodule⟩ := map_toOption_eq_some_iff.1 hmodule
  rw [Prod.mk.injEq] at hmodule
  obtain ⟨hnames, hassembles⟩ := hmodule
  obtain ⟨loader, hloader⟩ :=
    exists_loader_of_assembles hm rfl ⟨by decide, by decide⟩ hassembles
  have hhosts : m.hosts ≠ [] := by
    intro hnil
    rw [hnil] at hnames
    cases hnames
  obtain ⟨binary, d, -, hbinary, hd, -, hiff⟩ := compileToLoader_supplies_iff hm hhosts hloader
  obtain ⟨object, hobject, hsupplies⟩ := hiff.2 (by simp [SExpr.IsPlainBody, spacedOptions])
  exact ⟨m, loader, binary, d, object, hm, hnames, hloader, hbinary, hd, hobject, hsupplies⟩

/-- A module name that is written with an escape: a backslash and a letter. -/
def escapedOptions : Options := { importModule := "a\\nb" }

/-- **An import that is not supplied**: with `escapedOptions`, the binary imports from a module that
has a line break in its name, and the loader supplies one that has a backslash in it. -/
theorem escapedOptions_not_supplied : ∃ m loader binary d object,
    buildModule hostSource = .ok m ∧ compileToLoader hostSource escapedOptions = .ok loader ∧
      Loader.binary? loader = some binary ∧ Wasm.decode? binary = some d ∧
      d.imports = [⟨"a\nb", "f", 0⟩] ∧
      Loader.importObject? loader = some object ∧ object.module = "a\\nb" ∧
      ¬ object.Supplies m.hosts d.imports := by
  have himports : ((compileToBinary hostSource escapedOptions).toOption.bind Wasm.decode?).map
      (·.imports) = some [⟨"a\nb", "f", 0⟩] := by decide +kernel
  obtain ⟨d, hd, himports⟩ := Option.map_eq_some_iff.1 himports
  obtain ⟨binary, hbinary, hd⟩ := Option.bind_eq_some_iff.1 hd
  rw [toOption_eq_some_iff] at hbinary
  obtain ⟨m, -, -, -, hm, -⟩ := exists_stages hbinary
  have hloader := compileToLoader_of_binary hm hbinary
  have hobject := Loader.importObject?_text binary m escapedOptions.importModule
    escapedOptions.format (wellFormed_of_buildModule hm).hosts
  refine ⟨m, _, binary, d, _, hm, hloader, Loader.binary?_text _ _ _ _, hd, himports, hobject,
    rfl, fun hsupplies => ?_⟩
  rw [himports] at hsupplies
  obtain ⟨_, -, -, hget⟩ := hsupplies _ (List.mem_singleton_self _)
  have hmodule : "a\\nb" = "a\nb" := ImportObject.module_of_get? hget
  exact absurd hmodule (by decide)

end Kelp
