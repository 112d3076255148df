import Kelp.Proofs.Script.Bindings
import Kelp.Proofs.Script.Statements

/-!
# What loaders export

The exports of an ES module, read from the statements behind the instance of the module that it
carries.

- `Loader.exports?` reads them. An export is one statement, or two where the name that is exported
  cannot be bound. The last statement has to be the default export.
- `exports?_text`: a loader exports the public functions in order, apart from one called `default`.
- `republishes_publicFunctions`: each of them under its own name, through a binding of its own.
-/

namespace Kelp

open Reader Script

/-! ## Reading exports -/

/-- A binding that a script exports under a name. It holds a property of what the instance
exports. -/
structure Export where
  binding : String
  name : String
  property : String
deriving DecidableEq, Repr, Inhabited

namespace Script

/-- The property of the instance's exports that an expression stands for. -/
def exported? (value : String) : Option String :=
  exactly (do
    fixed "instance.exports."
    word isIdentChar) value.toList

/-- The exports that statements make, up to the default export of everything at their end. -/
def exportsOf? : List Statement → Option (List Export)
  | [.exportDefault value] => if value = "instance.exports" then some [] else none
  | .exportConstant binding value :: rest => do
    return ⟨binding, binding, ← exported? value⟩ :: (← exportsOf? rest)
  | .constant binding value :: .exportAs binding' name :: rest =>
    if binding' = binding then do
      return ⟨binding, name, ← exported? value⟩ :: (← exportsOf? rest)
    else none
  | _ => none

/-- How the line starts that declares the instance of the module. -/
def instanceStart : String := "const instance = "

end Script

/-- The lines of a loader behind the one that declares the instance of the module. -/
def Loader.exportLines? (loader : String) : Option (List (List Char)) :=
  (lines? loader.toList).bind (behind? instanceStart.toList)

/-- The exports of a loader. -/
def Loader.exports? (loader : String) : Option (List Export) := do
  let statements ← (← Loader.exportLines? loader).mapM Statement.ofLine?
  exportsOf? statements

/-! ## Statements of exports -/

/-- The export of a public function. -/
def FunctionDef.published (f : FunctionDef Int) : Export where
  binding := binding f.name
  name := f.name
  property := f.name

/-- The public functions that are exported under their own names. -/
def Module.namedFunctions (m : Module) : List (FunctionDef Int) :=
  m.publicFunctions.filter fun f => f.name ≠ "default"

namespace Script

/-- A property of the exports is read by its name, which is a name of the program. -/
theorem exported?_append {name : String} (h : IsName name) :
    exported? (Loader.exports ++ "." ++ name) = some name := by
  have hname := isBinding_of_isName h
  have htext : (Loader.exports ++ "." ++ name).toList =
      "instance.exports.".toList ++ (name.toList ++ []) := by
    simp [Loader.exports]
  have hread : word isIdentChar (name.toList ++ []) = some (name, []) :=
    word_append hname.1 hname.2 (by simp)
  rw [exported?, htext, exactly, (reads_fixed "instance.exports.").bind_apply, hread]
  rfl

/-- The statements of one export are read first. -/
theorem exportsOf?_exportStatements {name : String} (h : IsName name) (hdefault : name ≠ "default")
    {rest : List Statement} {exports : List Export} (hrest : exportsOf? rest = some exports) :
    exportsOf? (Loader.exportStatements name ++ rest) =
      some (⟨binding name, name, name⟩ :: exports) := by
  have hvalue := exported?_append h
  rw [Loader.exportStatements, Loader.defaultName, if_neg hdefault]
  cases hreserved : isReserved name with
  | false =>
    -- a name that is not reserved is declared and exported at once
    rw [if_neg Bool.false_ne_true, List.singleton_append, exportsOf?, hvalue, hrest,
      binding_of_not_isReserved hreserved]
    rfl
  | true =>
    rw [if_pos rfl, List.cons_append, List.singleton_append, exportsOf?, if_pos rfl, hvalue, hrest]
    rfl

/-- A function called `default` adds no statement. -/
theorem republish_eq (m : Module) : Loader.republish m .esModule =
    m.namedFunctions.flatMap (fun f => Loader.exportStatements f.name) ++
      [.exportDefault Loader.exports] := by
  rw [Loader.republish, Module.namedFunctions]
  congr 1
  induction m.publicFunctions with
  | nil => rfl
  | cons f fs ih =>
    rw [List.flatMap_cons, ih]
    by_cases hdefault : f.name = "default"
    · rw [Loader.exportStatements, Loader.defaultName, if_pos hdefault, List.nil_append,
        List.filter_cons_of_neg (by simpa using hdefault)]
    · rw [List.filter_cons_of_pos (by simpa using hdefault), List.flatMap_cons]

/-- The statements of all exports, read in order. -/
theorem exportsOf?_republish {m : Module} (h : ∀ f ∈ m.publicFunctions, IsName f.name) :
    exportsOf? (Loader.republish m .esModule) =
      some (m.namedFunctions.map FunctionDef.published) := by
  have hnamed : ∀ f ∈ m.namedFunctions, IsName f.name ∧ f.name ≠ "default" := by
    intro f hf
    obtain ⟨hf, hdefault⟩ := List.mem_filter.1 hf
    exact ⟨h f hf, of_decide_eq_true hdefault⟩
  rw [republish_eq]
  generalize m.namedFunctions = fs at hnamed ⊢
  induction fs with
  | nil => rfl
  | cons f fs ih =>
    obtain ⟨⟨hname, hdefault⟩, hnamed⟩ := List.forall_mem_cons.1 hnamed
    rw [List.flatMap_cons, List.append_assoc,
      exportsOf?_exportStatements hname hdefault (ih hnamed)]
    rfl

/-- Every statement of the exports stands on one line, and none declares the instance anew. -/
theorem readable_of_mem_exportStatements {name : String} (h : IsName name) {s : Statement}
    (hs : s ∈ Loader.exportStatements name) : s.Readable ∧ ¬ instanceStart.toList <+: s.body := by
  have hbinding := isBinding_binding h
  have hname := isBinding_of_isName h
  have hvalue : '\n' ∉ (Loader.exports ++ "." ++ name).toList := by
    simp [Loader.exports, hname.newline_notMem]
  rw [Loader.exportStatements] at hs
  split at hs
  next => cases hs
  next =>
    split at hs
    next hreserved =>
      rcases List.mem_pair.1 hs with rfl | rfl
      · refine ⟨⟨hbinding, hvalue⟩, ?_⟩
        -- a binding with a dollar sign in front is not the instance
        simp [binding_of_isReserved hreserved, instanceStart, Statement.body, partsText]
      · refine ⟨⟨hbinding, hname⟩, ?_⟩
        simp [instanceStart, Statement.body, partsText]
    next =>
      rw [List.mem_singleton] at hs
      subst hs
      refine ⟨⟨hname, hvalue⟩, ?_⟩
      simp [instanceStart, Statement.body, partsText]

/-- So does the default export at the end. -/
theorem readable_of_mem_republish {m : Module} (h : ∀ f ∈ m.publicFunctions, IsName f.name)
    {s : Statement} (hs : s ∈ Loader.republish m .esModule) :
    s.Readable ∧ ¬ instanceStart.toList <+: s.body := by
  rw [Loader.republish, List.mem_append, List.mem_flatMap, List.mem_singleton] at hs
  rcases hs with ⟨f, hf, hs⟩ | rfl
  · exact readable_of_mem_exportStatements (h f hf) hs
  · refine ⟨?_, ?_⟩
    · show '\n' ∉ Loader.exports.toList
      simp [Loader.exports]
    · simp [instanceStart, Statement.body, valueText]

/-- The last statement is the only one of its kind. -/
theorem defaultLine_notMem {m : Module} (h : ∀ f ∈ m.publicFunctions, IsName f.name) :
    "export default instance.exports;".toList ∉
      (m.publicFunctions.flatMap fun f => Loader.exportStatements f.name).map Statement.body := by
  intro hmem
  obtain ⟨s, hs, hbody⟩ := List.mem_map.1 hmem
  obtain ⟨f, hf, hs⟩ := List.mem_flatMap.1 hs
  have hdefault : (Statement.exportDefault Loader.exports).Readable :=
    (readable_of_mem_republish h (List.mem_append_right _ (List.mem_singleton_self _))).1
  have heq : s = .exportDefault Loader.exports :=
    (readable_of_mem_exportStatements (h f hf) hs).1.eq_of_body hdefault hbody
  rw [heq, Loader.exportStatements] at hs
  grind

/-- The statement that declares the instance of the module. -/
def instanceStatement : Statement :=
  .constant "instance" "new WebAssembly.Instance(mod, importObject)"

theorem readable_instanceStatement : instanceStatement.Readable :=
  ⟨⟨by decide, List.all_eq_true.mp rfl⟩, by decide⟩

theorem instanceStart_prefix : instanceStart.toList <+: instanceStatement.body :=
  ⟨_, rfl⟩

end Script

namespace Loader

variable (binary : Bytes) {m : Module} (importModule : String)
  (h : ∀ f ∈ m.publicFunctions, IsName f.name)

include h

/-- What stands behind the instance, whatever the host functions are. -/
theorem exportLines?_text : exportLines? (text binary m importModule .esModule) =
    some ((republish m .esModule).map Statement.body) := by
  have hlines : ∀ s ∈ republish m .esModule, s.Readable ∧ ¬ instanceStart.toList <+: s.body :=
    fun s hs => readable_of_mem_republish h hs
  have hreadable : ∀ s ∈ instanceStatement :: republish m .esModule, s.Readable :=
    List.forall_mem_cons.2 ⟨readable_instanceStatement, fun s hs => (hlines s hs).1⟩
  obtain ⟨front, hfront⟩ :=
    exists_lines?_scriptText (instantiate binary m importModule).dropLast hreadable
  have htext : text binary m importModule .esModule =
      scriptText ((instantiate binary m importModule).dropLast ++
        instanceStatement :: republish m .esModule) := rfl
  rw [exportLines?, htext, hfront, Option.bind_some, List.map_cons]
  refine behind?_append front instanceStart_prefix ?_
  exact List.forall_mem_map.2 fun s hs => (hlines s hs).2

/-- **Exports**: a loader exports the public functions in order. -/
theorem exports?_text : exports? (text binary m importModule .esModule) =
    some (m.namedFunctions.map FunctionDef.published) := by
  have hreadable : ∀ s ∈ republish m .esModule, s.Readable := fun s hs =>
    (readable_of_mem_republish h hs).1
  rw [exports?, exportLines?_text binary importModule h]
  show ((republish m .esModule).map Statement.body |>.mapM Statement.ofLine?).bind exportsOf? = _
  rw [mapM_ofLine?_body hreadable]
  exact exportsOf?_republish h

end Loader

/-! ## The public interface -/

/-- The exported functions, picked from all functions at once. -/
theorem Module.namedFunctions_eq (m : Module) : m.namedFunctions =
    m.functions.filter fun f => f.isPublic && f.name ≠ "default" := by
  rw [Module.namedFunctions, Module.publicFunctions, List.filter_filter]
  congr 1
  funext f
  exact Bool.and_comm _ _

theorem Module.mem_functions_of_mem_namedFunctions {m : Module} {f : FunctionDef Int}
    (hf : f ∈ m.namedFunctions) : f ∈ m.functions :=
  List.mem_of_mem_filter (List.mem_of_mem_filter hf)

/-- The bindings of the exports are those of the names. -/
theorem map_binding_published (fs : List (FunctionDef Int)) :
    (fs.map FunctionDef.published).map Export.binding = (fs.map FunctionDef.name).map binding := by
  rw [List.map_map, List.map_map]
  rfl

/-- Functions of different names have different bindings. -/
theorem Module.nodup_bindings {m : Module} (hnames : (m.functions.map FunctionDef.name).Nodup)
    (hids : ∀ f ∈ m.functions, IsName f.name) :
    ((m.namedFunctions.map FunctionDef.published).map Export.binding).Nodup := by
  rw [map_binding_published, nodup_map_binding_iff]
  · rw [Module.namedFunctions_eq]
    exact hnames.sublist (List.filter_sublist.map _)
  · exact List.forall_mem_map.2 fun f hf => hids f (Module.mem_functions_of_mem_namedFunctions hf)

/-- **Loaders republish the public interface**: behind the instance, an ES module exports exactly
the public functions, in order and apart from one called `default`. Each is exported under its own
name and through an identifier of its own that scripts do not reserve, and holds what the instance
exports under this name. No private function is exported. The last line, and no other one of these,
is the default export. -/
theorem Loader.republishes_publicFunctions (binary : Bytes) {m : Module} (importModule : String)
    (hnames : (m.functions.map FunctionDef.name).Nodup)
    (hids : ∀ f ∈ m.functions, IsName f.name) :
    ∃ exports, Loader.exports? (Loader.text binary m importModule .esModule) = some exports ∧
      exports.map Export.name =
        (m.functions.filter fun f => f.isPublic && f.name ≠ "default").map FunctionDef.name ∧
      (∀ e ∈ exports, e.property = e.name ∧ isIdent e.binding.toList = true ∧
        e.binding ∉ reservedWords) ∧
      (exports.map Export.binding).Nodup ∧
      (∀ f ∈ m.functions, f.isPublic = false → ∀ e ∈ exports, e.property ≠ f.name) ∧
      ∃ ls, Loader.exportLines? (Loader.text binary m importModule .esModule) =
          some (ls ++ ["export default instance.exports;".toList]) ∧
        "export default instance.exports;".toList ∉ ls := by
  have hpublic : ∀ f ∈ m.publicFunctions, IsName f.name := fun f hf =>
    hids f (List.mem_of_mem_filter hf)
  have hnamed : ∀ f ∈ m.namedFunctions, f ∈ m.functions := fun f hf =>
    Module.mem_functions_of_mem_namedFunctions hf
  refine ⟨_, Loader.exports?_text binary importModule hpublic, ?_, ?_,
    Module.nodup_bindings hnames hids, ?_, ?_⟩
  · rw [List.map_map, Module.namedFunctions_eq]
    rfl
  · refine List.forall_mem_map.2 fun f hf => ⟨rfl, isIdent_binding (hids f (hnamed f hf)), ?_⟩
    rw [← isReserved_iff]
    exact Bool.eq_false_iff.1 (isReserved_binding f.name)
  · -- names are distinct, so a function of the same name would be the same, and public
    intro f hf hprivate e he
    obtain ⟨g, hg, rfl⟩ := List.mem_map.1 he
    intro hname
    have heq : g = f := List.inj_on_of_nodup_map hnames (hnamed g hg) hf hname
    have hgpublic := (List.mem_filter.1 (List.mem_of_mem_filter hg)).2
    rw [heq, hprivate] at hgpublic
    cases hgpublic
  · refine ⟨_, (Loader.exportLines?_text binary importModule hpublic).trans ?_,
      defaultLine_notMem hpublic⟩
    rw [Loader.republish, List.map_append]
    rfl

/-- A module with functions of all kinds of names, and with a host function whose path looks like
the statement that declares the instance. -/
def mixedModule : Module where
  structs := []
  functions := [⟨true, "new", [], unitType, []⟩, ⟨false, "helper", [], unitType, []⟩,
    ⟨true, "default", [], unitType, []⟩, ⟨true, "add", [], unitType, []⟩]
  hosts := [⟨"log\nconst instance = log", "log", [], unitType⟩]

theorem mixedModule_republished : ∃ exports,
    Loader.exports? (Loader.text [] mixedModule "env" .esModule) = some exports ∧
      exports.map Export.name = ["new", "add"] ∧ ∀ e ∈ exports, e.property ≠ "helper" := by
  have hids : ∀ f ∈ mixedModule.functions, IsName f.name := by
    have hname : ∀ name ∈ ["new", "helper", "default", "add"], IsName name := by
      simp only [List.forall_mem_cons]
      refine ⟨?_, ?_, ?_, ?_, List.forall_mem_nil _⟩ <;>
        exact ⟨rfl, List.all_eq_true.mp rfl, fun k => by cases k <;> decide⟩
    exact List.forall_mem_map.1 hname
  obtain ⟨exports, hexports, hnames, -, -, hprivate, -⟩ :=
    Loader.republishes_publicFunctions [] "env" (by decide) hids
  refine ⟨exports, hexports, hnames, ?_⟩
  exact hprivate ⟨false, "helper", [], unitType, []⟩ (by simp [mixedModule]) rfl

end Kelp
