import Kelp.Proofs.Lowering
import Kelp.Proofs.Wat.Clauses

/-!
# Names of declarations

`Module.WellNamed` says that the names and types of a module are made of word characters, as far as
the text of the module carries them: the paths of host functions and the names of their parameters
may be any text. `Module.wellNamed_lower`: the lowered module is then well-named too.
-/

namespace Kelp

open Wat (Instr IsId)

/-! ## Definitions -/

mutual

/-- The names in an expression are made of word characters. -/
def Expr.WellNamed : Expr Int → Prop
  | .sum operands => Expr.AllWellNamed operands
  | .product operands => Expr.AllWellNamed operands
  | .field receiver accessors => receiver.WellNamed ∧ ∀ x ∈ accessors, IsId x
  | .call callee arguments => callee.WellNamed ∧ Expr.ListsWellNamed arguments
  | .var name => IsId name
  | .const _ => True

/-- The names in several expressions are made of word characters. -/
def Expr.AllWellNamed : List (Expr Int) → Prop
  | [] => True
  | e :: es => e.WellNamed ∧ Expr.AllWellNamed es

/-- The names in several argument lists are made of word characters. -/
def Expr.ListsWellNamed : List (List (Expr Int)) → Prop
  | [] => True
  | es :: ess => Expr.AllWellNamed es ∧ Expr.ListsWellNamed ess

end

/-- The names in a statement are made of word characters. -/
def Stmt.WellNamed : Stmt Int → Prop
  | .bind name value => IsId name ∧ value.WellNamed
  | .ret value => value.WellNamed
  | .eval value => value.WellNamed

/-- The names and types of a struct are made of word characters. -/
structure StructDef.WellNamed (d : StructDef) : Prop where
  name : IsId d.name
  fields : ∀ b ∈ d.fields, Wat.Binder.WellNamed b

/-- The names and types of a function are made of word characters. -/
structure FunctionDef.WellNamed (d : FunctionDef Int) : Prop where
  name : IsId d.name
  params : ∀ b ∈ d.params, Wat.Binder.WellNamed b
  returnType : IsId d.returnType
  body : ∀ s ∈ d.body, s.WellNamed

/-- The name and the types of a host function are made of word characters. -/
structure HostFunction.WellNamed (d : HostFunction) : Prop where
  name : IsId d.name
  params : ∀ b ∈ d.params, IsId b.type
  returnType : IsId d.returnType

/-- The names and types of a module are made of word characters. -/
structure Module.WellNamed (m : Module) : Prop where
  structs : ∀ d ∈ m.structs, d.WellNamed
  functions : ∀ d ∈ m.functions, d.WellNamed
  hosts : ∀ d ∈ m.hosts, d.WellNamed

/-! ## Lowered names -/

/-- A result is written with the name of the return type. -/
theorem isId_of_mem_resultType {returnType t : String} (h : IsId returnType)
    (ht : t ∈ resultType returnType) : IsId t := by
  unfold resultType at ht
  split at ht
  · cases ht
  · cases ht
    exact h

/-- Accesses of fields with such names. -/
theorem Instr.wellNamed_foldl_structGet {names : List String} (h : ∀ x ∈ names, IsId x)
    {i : Instr} (hi : i.WellNamed) :
    (names.foldl (fun object field => Instr.structGet field object) i).WellNamed := by
  induction names generalizing i with
  | nil => exact hi
  | cons x names ih =>
    rw [List.forall_mem_cons] at h
    exact ih h.2 ⟨h.1, hi⟩

mutual

/-- The instruction of a well-named expression is well-named. -/
theorem Expr.wellNamed_lower : ∀ {e : Expr Int} {i : Instr}, e.WellNamed → e.lower = .ok i →
    i.WellNamed
  | .sum [], _, _, hi => by simp [Expr.lower] at hi
  | .sum (e :: es), i, he, hi => by
    obtain ⟨a, ha, hi⟩ := Expr.lower_sum_eq_ok.1 hi
    have hes : Expr.AllWellNamed (e :: es) := he
    exact Expr.wellNamed_lowerChain hes.2 (Expr.wellNamed_lower hes.1 ha) hi
  | .product [], _, _, hi => by simp [Expr.lower] at hi
  | .product (e :: es), i, he, hi => by
    obtain ⟨a, ha, hi⟩ := Expr.lower_product_eq_ok.1 hi
    have hes : Expr.AllWellNamed (e :: es) := he
    exact Expr.wellNamed_lowerChain hes.2 (Expr.wellNamed_lower hes.1 ha) hi
  | .field receiver accessors, i, he, hi => by
    obtain ⟨object, hobject, rfl⟩ := Expr.lower_field_eq_ok.1 hi
    exact Instr.wellNamed_foldl_structGet he.2 (Expr.wellNamed_lower he.1 hobject)
  | .call callee lists, i, he, hi => by
    obtain ⟨f, arguments, rfl, rfl⟩ := Expr.lower_call_shape hi
    obtain ⟨is, his, rfl⟩ := Expr.lower_call_eq_ok.1 hi
    obtain ⟨hf, hlists⟩ := he
    exact ⟨hf, Expr.wellNamed_lowerAll hlists.1 his⟩
  | .var x, i, he, hi => by
    rw [Expr.lower, pure_eq_ok_iff] at hi
    subst hi
    exact he
  | .const n, i, _, hi => by
    rw [Expr.lower, pure_eq_ok_iff] at hi
    subst hi
    trivial

/-- Further operands keep what was combined before well-named. -/
theorem Expr.wellNamed_lowerChain {op : Wat.BinaryOp} : ∀ {es : List (Expr Int)} {left i : Instr},
    Expr.AllWellNamed es → left.WellNamed → Expr.lowerChain op left es = .ok i → i.WellNamed
  | [], left, i, _, hleft, hi => by
    rw [Expr.lowerChain, pure_eq_ok_iff] at hi
    subst hi
    exact hleft
  | e :: es, left, i, hes, hleft, hi => by
    obtain ⟨a, ha, hi⟩ := Expr.lowerChain_cons_eq_ok.1 hi
    have hbinary : (Instr.binary op left a).WellNamed := ⟨hleft, Expr.wellNamed_lower hes.1 ha⟩
    exact Expr.wellNamed_lowerChain hes.2 hbinary hi

/-- So are the instructions of arguments. -/
theorem Expr.wellNamed_lowerAll : ∀ {es : List (Expr Int)} {is : List Instr},
    Expr.AllWellNamed es → Expr.lowerAll es = .ok is → Instr.AllWellNamed is
  | [], is, _, his => by
    rw [Expr.lowerAll, pure_eq_ok_iff] at his
    subst his
    trivial
  | e :: es, is, hes, his => by
    obtain ⟨i, js, hi, hjs, rfl⟩ := Expr.lowerAll_cons_eq_ok.1 his
    exact ⟨Expr.wellNamed_lower hes.1 hi, Expr.wellNamed_lowerAll hes.2 hjs⟩

end

/-- The instruction of a well-named statement is well-named. -/
theorem Stmt.wellNamed_lower {s : Stmt Int} {i : Instr} (hs : s.WellNamed) (hi : s.lower = .ok i) :
    i.WellNamed := by
  obtain ⟨x, e, a, rfl, ha, rfl⟩ | ⟨e, a, rfl, ha, rfl⟩ | ⟨e, rfl, ha⟩ := Stmt.lower_eq_ok hi
  · exact ⟨hs.1, Expr.wellNamed_lower hs.2 ha⟩
  · have hnamed : a.WellNamed := Expr.wellNamed_lower hs ha
    exact hnamed
  · exact Expr.wellNamed_lower hs ha

theorem Stmt.allWellNamed_of_lower {ss : List (Stmt Int)} {is : List Instr}
    (h : List.Forall₂ (fun s i => Stmt.lower s = .ok i) ss is) (hss : ∀ s ∈ ss, s.WellNamed) :
    Instr.AllWellNamed is := by
  induction h with
  | nil => trivial
  | cons hi _ ih =>
    rw [List.forall_mem_cons] at hss
    exact ⟨Stmt.wellNamed_lower hss.1 hi, ih hss.2⟩

/-- A well-named function is lowered to a well-named one. -/
theorem FunctionDef.wellNamed_lower {f : FunctionDef Int} {g : Wat.Func} (hf : f.WellNamed)
    (hg : f.lower = .ok g) : g.WellNamed := by
  obtain ⟨body, hbody, rfl⟩ := FunctionDef.lower_eq_ok hg
  refine ⟨hf.name, hf.params, ?_, ?_, ?_⟩
  · exact fun t ht => isId_of_mem_resultType hf.returnType ht
  · intro x hx
    -- locals are the names of `let` statements, which are among the names of the body
    obtain ⟨s, hs, hbound⟩ := List.mem_filterMap.1 hx
    cases s with
    | bind name e =>
      cases hbound
      exact (hf.body _ hs).1
    | ret e => cases hbound
    | eval e => cases hbound
  · exact Stmt.allWellNamed_of_lower (mapM_eq_ok_iff.1 hbody) hf.body

/-- The parts of a lowered module. -/
theorem Module.lower_eq_ok {m : Module} {importModule : String} {t : Wat.Module}
    (h : m.lower importModule = .ok t) :
    ∃ functions, List.Forall₂ (fun f g => FunctionDef.lower f = .ok g) m.functions functions ∧
      t = {
        structs := m.structs.map StructDef.lower
        imports := m.hosts.map (HostFunction.lower importModule)
        functions
        exports := m.publicFunctions.map FunctionDef.name
        start := m.entry?.map FunctionDef.name } := by
  obtain ⟨functions, hfunctions, h⟩ := bind_eq_ok_iff.1 h
  cases h
  exact ⟨functions, mapM_eq_ok_iff.1 hfunctions, rfl⟩

/-- **Names of a lowered module** are made of word characters. -/
theorem Module.wellNamed_lower {m : Module} (hm : m.WellNamed) {importModule : String}
    {t : Wat.Module} (h : m.lower importModule = .ok t) : t.WellNamed := by
  obtain ⟨functions, hfunctions, rfl⟩ := Module.lower_eq_ok h
  have hname : ∀ f ∈ m.functions, IsId f.name := fun f hf => (hm.functions f hf).name
  constructor
  · intro s hs
    obtain ⟨d, hd, rfl⟩ := List.mem_map.1 hs
    exact ⟨(hm.structs d hd).name, (hm.structs d hd).fields⟩
  · intro i hi
    obtain ⟨d, hd, rfl⟩ := List.mem_map.1 hi
    have hwell := hm.hosts d hd
    refine ⟨hwell.name, ?_, fun t ht => isId_of_mem_resultType hwell.returnType ht⟩
    intro t ht
    obtain ⟨b, hb, rfl⟩ := List.mem_map.1 ht
    exact hwell.params b hb
  · intro g hg
    obtain ⟨f, hf, hlower⟩ := exists_left_of_mem hfunctions hg
    exact FunctionDef.wellNamed_lower (hm.functions f hf) hlower
  · intro x hx
    obtain ⟨f, hf, rfl⟩ := List.mem_map.1 hx
    exact hname f (List.mem_of_mem_filter hf)
  · intro x hx
    obtain ⟨f, hf, rfl⟩ := Option.map_eq_some_iff.1 hx
    exact hname f (List.mem_of_find?_eq_some hf)

end Kelp
