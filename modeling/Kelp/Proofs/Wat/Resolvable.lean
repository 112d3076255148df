import Kelp.Proofs.Meaning
import Kelp.Proofs.Wat.Resolution
import Kelp.Proofs.Wat.StringBody

/-!
# Modules that resolve

Which text modules have all of their names resolved.

- `PlainInstr.Resolves` says of one instruction that its name is known or its constant fits.
- `Module.Resolves` collects the conditions on a module: no name is declared twice in one name
  space, all types are known, all strings are legal, and all instructions resolve.
- `Module.isSome_resolve?_iff`: these are exactly the modules that `Module.resolve?` accepts.
-/

namespace Kelp

/-! ## Types -/

/-- A type name that stands for a type of values. -/
def Wasm.IsValueTypeName (t : String) : Prop := ∃ v : Wasm.ValueType, v.name = t

/-- A type name that stands for a type of struct fields. -/
def Wasm.IsFieldTypeName (t : String) : Prop := Wasm.IsValueTypeName t ∨ t = "i8" ∨ t = "i16"

open Wasm (IsValueTypeName IsFieldTypeName)

theorem Wasm.ValueType.mem_all (v : Wasm.ValueType) : v ∈ Wasm.ValueType.all := by
  cases v <;> decide

/-- A type of values is found by its name. -/
theorem Wasm.ValueType.isSome_ofName?_iff {t : String} :
    (Wasm.ValueType.ofName? t).isSome = true ↔ IsValueTypeName t := by
  rw [Wasm.ValueType.ofName?, List.find?_isSome]
  constructor
  · rintro ⟨v, -, hv⟩
    exact ⟨v, of_decide_eq_true hv⟩
  · rintro ⟨v, hv⟩
    exact ⟨v, v.mem_all, decide_eq_true hv⟩

/-- So is a type of fields, with the packed ones. -/
theorem Wasm.StorageType.isSome_ofName?_iff {t : String} :
    (Wasm.StorageType.ofName? t).isSome = true ↔ IsFieldTypeName t := by
  rw [Wasm.StorageType.ofName?, IsFieldTypeName, ← Wasm.ValueType.isSome_ofName?_iff]
  split
  next h => simp [h]
  next h =>
    split
    next h' => simp [h']
    next h' => simp [h, h']

namespace Wat

theorem isSome_resultType?_iff {result : Option String} :
    (resultType? result).isSome = true ↔ ∀ t ∈ result, IsValueTypeName t := by
  cases result with
  | none => simp [resultType?]
  | some t => simp [resultType?, Wasm.ValueType.isSome_ofName?_iff]

/-- A function type is found if the types of its parameters and its result are. -/
theorem isSome_signature?_iff {params : List String} {result : Option String} :
    (signature? params result).isSome = true ↔
      (∀ t ∈ params, IsValueTypeName t) ∧ ∀ t ∈ result, IsValueTypeName t := by
  have hparams : (params.mapM Wasm.ValueType.ofName?).isSome = true ↔
      ∀ t ∈ params, IsValueTypeName t := by
    simp only [isSome_mapM_iff, Wasm.ValueType.isSome_ofName?_iff]
  rw [← hparams, ← isSome_resultType?_iff, signature?]
  cases params.mapM Wasm.ValueType.ofName? <;> cases resultType? result <;> simp

/-! ## Instructions -/

/-- The name of an instruction is known, or its constant fits in 32 bits. Field accesses never
resolve. -/
def PlainInstr.Resolves (locals functions : List String) : PlainInstr → Prop
  | .const n => InWord n
  | .localGet x => x ∈ locals
  | .localSet x => x ∈ locals
  | .structGet _ => False
  | .binary _ => True
  | .call f => f ∈ functions
  | .ret => True

/-- A constant is a word if it fits in 32 bits. -/
theorem isSome_word?_iff {n : Int} : (word? n).isSome = true ↔ InWord n := by
  constructor
  · intro h
    obtain ⟨x, hx⟩ := Option.isSome_iff_exists.1 h
    exact inWord_of_word? hx
  · intro h
    rw [word?_of_inWord h]
    rfl

/-- The condition on one instruction is the right one. -/
theorem PlainInstr.isSome_resolve?_iff {locals functions : List String} {p : PlainInstr} :
    (p.resolve? locals functions).isSome = true ↔ p.Resolves locals functions := by
  cases p with
  | const n => rw [resolve?, Option.isSome_map, isSome_word?_iff, Resolves]
  | localGet x => rw [resolve?, Option.isSome_map, List.isSome_idxOf?, Resolves]
  | localSet x => rw [resolve?, Option.isSome_map, List.isSome_idxOf?, Resolves]
  | structGet f => simp [resolve?, Resolves]
  | binary op => cases op <;> simp [resolve?, Resolves]
  | call f => rw [resolve?, Option.isSome_map, List.isSome_idxOf?, Resolves]
  | ret => simp [resolve?, Resolves]

/-! ## Declarations -/

/-- The fields of a struct have different names and known types. -/
structure Struct.Resolves (s : Struct) : Prop where
  names : (s.fields.map Binder.name).Nodup
  types : ∀ b ∈ s.fields, IsFieldTypeName b.type

/-- The types of an imported function are known, and its strings are legal. -/
structure Import.Resolves (i : Import) : Prop where
  params : ∀ t ∈ i.params, IsValueTypeName t
  result : ∀ t ∈ i.result, IsValueTypeName t
  module : StringBody.IsLegal i.module
  name : StringBody.IsLegal i.name

/-- The parameters and locals of a function have different names, its types are known, and its
instructions resolve. -/
structure Func.Resolves (functions : List String) (f : Func) : Prop where
  names : f.localNames.Nodup
  params : ∀ b ∈ f.params, IsValueTypeName b.type
  result : ∀ t ∈ f.result, IsValueTypeName t
  body : ∀ p ∈ Instr.flattenAll f.body, p.Resolves f.localNames functions

/-- All names of a module are declared once in their name space, and all that it refers to is
known. -/
structure Module.Resolves (m : Module) : Prop where
  structNames : (m.structs.map Struct.name).Nodup
  functionNames : m.functionNames.Nodup
  structs : ∀ s ∈ m.structs, s.Resolves
  imports : ∀ i ∈ m.imports, i.Resolves
  functions : ∀ f ∈ m.functions, f.Resolves m.functionNames
  exports : ∀ x ∈ m.exports, StringBody.IsLegal x ∧ x ∈ m.functionNames
  start : ∀ x ∈ m.start, x ∈ m.functionNames

theorem Struct.isSome_resolve?_iff {s : Struct} : s.resolve?.isSome = true ↔ s.Resolves := by
  rw [Struct.resolve?]
  split
  next h =>
    simp only [isSome_mapM_iff, Wasm.StorageType.isSome_ofName?_iff]
    exact ⟨fun htypes => ⟨distinct_iff_nodup.1 h, htypes⟩, fun h => h.types⟩
  next h => exact ⟨nofun, fun hs => absurd (distinct_iff_nodup.2 hs.names) h⟩

/-- An import resolves wherever its type is put. -/
theorem Import.isSome_resolve?_iff {typeIndex : Wasm.FuncType → Nat} {i : Import} :
    (i.resolve? typeIndex).isSome = true ↔ i.Resolves := by
  have hparts : (i.resolve? typeIndex).isSome = true ↔ i.signature?.isSome = true ∧
      (StringBody.decode? i.module).isSome = true ∧ (StringBody.decode? i.name).isSome = true := by
    rw [Import.resolve?]
    cases i.signature? <;> cases StringBody.decode? i.module <;>
      cases StringBody.decode? i.name <;> simp
  rw [hparts, Import.signature?, isSome_signature?_iff, StringBody.isSome_decode?_iff,
    StringBody.isSome_decode?_iff]
  exact ⟨fun h => ⟨h.1.1, h.1.2, h.2.1, h.2.2⟩, fun h => ⟨⟨h.params, h.result⟩, h.module, h.name⟩⟩

/-- So does a function, whose instructions are resolved one by one. -/
theorem Func.isSome_resolve?_iff {typeIndex : Wasm.FuncType → Nat} {functions : List String}
    {f : Func} : (f.resolve? typeIndex functions).isSome = true ↔ f.Resolves functions := by
  have hsignature : f.signature?.isSome = true ↔
      (∀ b ∈ f.params, IsValueTypeName b.type) ∧ ∀ t ∈ f.result, IsValueTypeName t := by
    rw [Func.signature?, isSome_signature?_iff, List.forall_mem_map]
  have hbody : ((Instr.flattenAll f.body).mapM
      (PlainInstr.resolve? f.localNames functions)).isSome = true ↔
      ∀ p ∈ Instr.flattenAll f.body, p.Resolves f.localNames functions := by
    simp only [isSome_mapM_iff, PlainInstr.isSome_resolve?_iff]
  have hparts : f.Resolves functions ↔ distinct f.localNames = true ∧ f.signature?.isSome = true ∧
      ((Instr.flattenAll f.body).mapM
        (PlainInstr.resolve? f.localNames functions)).isSome = true := by
    rw [distinct_iff_nodup, hsignature, hbody]
    exact ⟨fun h => ⟨h.names, ⟨h.params, h.result⟩, h.body⟩,
      fun h => ⟨h.1, h.2.1.1, h.2.1.2, h.2.2⟩⟩
  rw [hparts, Func.resolve?]
  cases distinct f.localNames <;> cases f.signature? <;>
    cases (Instr.flattenAll f.body).mapM (PlainInstr.resolve? f.localNames functions) <;> simp

theorem isSome_resolveExport?_iff {functions : List String} {name : String} :
    (resolveExport? functions name).isSome = true ↔
      StringBody.IsLegal name ∧ name ∈ functions := by
  rw [← StringBody.isSome_decode?_iff, ← List.isSome_idxOf?, resolveExport?]
  cases StringBody.decode? name <;> cases functions.idxOf? name <;> simp

theorem isSome_resolveStart?_iff {functions : List String} {start : Option String} :
    (resolveStart? functions start).isSome = true ↔ ∀ x ∈ start, x ∈ functions := by
  cases start with
  | none => simp [resolveStart?]
  | some x => rw [resolveStart?, Option.isSome_map, List.isSome_idxOf?]; simp

/-! ## Modules -/

/-- The types of all functions are found if each one is. -/
theorem Module.isSome_signatures?_iff {m : Module} : m.signatures?.isSome = true ↔
    (∀ i ∈ m.imports, i.signature?.isSome = true) ∧
      ∀ f ∈ m.functions, f.signature?.isSome = true := by
  rw [← isSome_mapM_iff, ← isSome_mapM_iff, Module.signatures?]
  cases m.imports.mapM Import.signature? <;> cases m.functions.mapM Func.signature? <;> simp

/-- **Modules that resolve** are those in which every name is declared once and all that is referred
to is known. -/
theorem Module.isSome_resolve?_iff {m : Module} : m.resolve?.isSome = true ↔ m.Resolves := by
  constructor
  · intro h
    obtain ⟨r, h⟩ := Option.isSome_iff_exists.1 h
    unfold Module.resolve? at h
    split at h
    next hdistinct =>
      rw [Bool.and_eq_true, distinct_iff_nodup, distinct_iff_nodup] at hdistinct
      simp only [Option.bind_eq_bind, Option.bind_eq_some_iff] at h
      obtain ⟨structs, hstructs, sigs, -, imports, himports, functions, hfunctions, exports,
        hexports, start, hstart, -⟩ := h
      exact {
        structNames := hdistinct.1
        functionNames := hdistinct.2
        structs := (exists_mapM_eq_some_iff Struct.isSome_resolve?_iff).1 ⟨_, hstructs⟩
        imports := (exists_mapM_eq_some_iff Import.isSome_resolve?_iff).1 ⟨_, himports⟩
        functions := (exists_mapM_eq_some_iff Func.isSome_resolve?_iff).1 ⟨_, hfunctions⟩
        exports := (exists_mapM_eq_some_iff isSome_resolveExport?_iff).1 ⟨_, hexports⟩
        start := isSome_resolveStart?_iff.1 (Option.isSome_of_eq_some hstart) }
    next => cases h
  · intro h
    have hdistinct : (distinct (m.structs.map Struct.name) && distinct m.functionNames) = true := by
      rw [Bool.and_eq_true, distinct_iff_nodup, distinct_iff_nodup]
      exact ⟨h.structNames, h.functionNames⟩
    have hsigs : m.signatures?.isSome = true := by
      refine Module.isSome_signatures?_iff.2 ⟨fun i hi => ?_, fun f hf => ?_⟩
      · exact isSome_signature?_iff.2 ⟨(h.imports i hi).params, (h.imports i hi).result⟩
      · have hf' := h.functions f hf
        exact isSome_signature?_iff.2 ⟨List.forall_mem_map.2 hf'.params, hf'.result⟩
    obtain ⟨structs, hstructs⟩ := (exists_mapM_eq_some_iff Struct.isSome_resolve?_iff).2 h.structs
    obtain ⟨sigs, hsigs⟩ := Option.isSome_iff_exists.1 hsigs
    -- structs come before functions in the numbering of types
    let typeIndex (t : Wasm.FuncType) : Nat := structs.length + sigs.eraseDups.idxOf t
    obtain ⟨imports, himports⟩ :=
      (exists_mapM_eq_some_iff (@Import.isSome_resolve?_iff typeIndex)).2 h.imports
    obtain ⟨functions, hfunctions⟩ :=
      (exists_mapM_eq_some_iff (@Func.isSome_resolve?_iff typeIndex _)).2 h.functions
    obtain ⟨exports, hexports⟩ := (exists_mapM_eq_some_iff isSome_resolveExport?_iff).2 h.exports
    obtain ⟨start, hstart⟩ := Option.isSome_iff_exists.1 (isSome_resolveStart?_iff.2 h.start)
    rw [Module.resolve?, if_pos hdistinct, hstructs, hsigs, hexports, hstart]
    simp only [Option.bind_eq_bind, Option.bind_some]
    rw [himports, Option.bind_some, hfunctions]
    rfl

end Wat

end Kelp
