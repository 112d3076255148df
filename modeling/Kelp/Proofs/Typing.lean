import Kelp.Proofs.Resolvable

/-!
# Typing

A type system of 32-bit integers for sources. Its only other type is the one of calls that have no
value.

- `Expr.HasType`, `Stmt.WellTyped` and `FunctionDef.WellTyped` are the typing rules, and
  `Module.WellTyped` adds the conditions on declarations. A variable has a type in all of its
  function, also ahead of its `let` statement, and statements behind a `return` are typed like
  others.
- `Module.WellTyped.exists_lower` and `Module.WellTyped.resolvable`: well-typed modules are lowered,
  and all of their names are known.
- `Expr.HasType.checked`: the instructions of an expression pass the check of function bodies, and
  leave what its type says. `FunctionDef.WellTyped.bodyIsValid`: so the body of a function does.
-/

namespace Kelp

open Wat (Instr PlainInstr)
open Wasm (IsValueTypeName IsFieldTypeName TypeStack Context)

/-! ## Rules -/

/-- The functions that can be called, those of the host first: their names, the numbers of their
parameters, and their return types. -/
def Module.interfaces (m : Module) : List (String × Nat × String) :=
  m.hosts.map (fun h => (h.name, h.params.length, h.returnType)) ++
    m.functions.map fun f => (f.name, f.params.length, f.returnType)

/-- The type of an expression, where `locals` are the variables of its function: `wordType`, or
`unitType` for a call without a value. -/
inductive Expr.HasType (m : Module) (locals : List String) : Expr Int → String → Prop
  | var {x : String} (hx : x ∈ locals) : Expr.HasType m locals (.var x) wordType
  | const {n : Int} (hn : InWord n) : Expr.HasType m locals (.const n) wordType
  | sum {operands : List (Expr Int)}
      (h : ∀ e ∈ operands, Expr.HasType m locals e wordType) :
      Expr.HasType m locals (.sum operands) wordType
  | product {operands : List (Expr Int)}
      (h : ∀ e ∈ operands, Expr.HasType m locals e wordType) :
      Expr.HasType m locals (.product operands) wordType
  | call {f returnType : String} {arguments : List (Expr Int)}
      (hf : (f, arguments.length, returnType) ∈ m.interfaces)
      (h : ∀ e ∈ arguments, Expr.HasType m locals e wordType) :
      Expr.HasType m locals (.call (.var f) [arguments]) returnType

/-- A well-typed statement of the given function. -/
inductive Stmt.WellTyped (m : Module) (f : FunctionDef Int) : Stmt Int → Prop
  | bind {x : String} {e : Expr Int} (h : e.HasType m f.localNames wordType) :
      Stmt.WellTyped m f (.bind x e)
  | ret {e : Expr Int} (hresult : f.returnType = wordType)
      (h : e.HasType m f.localNames wordType) : Stmt.WellTyped m f (.ret e)
  | eval {e : Expr Int} (h : e.HasType m f.localNames unitType) : Stmt.WellTyped m f (.eval e)

/-- Parameters and results are 32-bit integers, or there is no result. -/
structure WordSignature (params : List Binder) (returnType : String) : Prop where
  params : ∀ b ∈ params, b.type = wordType
  returnType : returnType = wordType ∨ returnType = unitType

/-- A well-typed function. One with a result returns. -/
structure FunctionDef.WellTyped (m : Module) (f : FunctionDef Int) : Prop where
  names : f.localNames.Nodup
  signature : WordSignature f.params f.returnType
  body : ∀ s ∈ f.body, s.WellTyped m f
  returns : f.returnType = wordType → ∃ e, .ret e ∈ f.body

/-- A struct of numbers. -/
structure StructDef.WellTyped (s : StructDef) : Prop where
  names : (s.fields.map Binder.name).Nodup
  types : ∀ b ∈ s.fields, b.type ∈ ["i32", "i64", "f32", "f64"]

/-- A well-typed module. The entry function takes and gives nothing. -/
structure Module.WellTyped (m : Module) : Prop where
  structNames : (m.structs.map StructDef.name).Nodup
  functionNames : m.functionNames.Nodup
  structs : ∀ s ∈ m.structs, s.WellTyped
  hosts : ∀ h ∈ m.hosts, WordSignature h.params h.returnType
  functions : ∀ f ∈ m.functions, f.WellTyped m
  entry : ∀ f ∈ m.functions, f.name = Module.entryName → f.params = [] ∧ f.returnType = unitType

theorem Module.map_fst_interfaces (m : Module) : m.interfaces.map Prod.fst = m.functionNames := by
  rw [Module.interfaces, List.map_append, List.map_map, List.map_map]
  rfl

/-! ## Nodes -/

/-- The nodes of several expressions are those of each one. -/
theorem Expr.mem_nodesAll {n : Expr Int} {es : List (Expr Int)} :
    n ∈ Expr.nodesAll es ↔ ∃ e ∈ es, n ∈ e.nodes := by
  induction es with
  | nil => simp [Expr.nodesAll]
  | cons e es ih => simp [Expr.nodesAll, ih]

/-- All nodes of a well-typed expression are well-typed. -/
theorem Expr.HasType.of_mem_nodes {m : Module} {locals : List String} {e : Expr Int} {t : String}
    (h : e.HasType m locals t) {n : Expr Int} (hn : n ∈ e.nodes) : ∃ t, n.HasType m locals t := by
  induction h with
  | var hx =>
    rw [Expr.nodes, List.mem_singleton] at hn
    subst hn
    exact ⟨_, .var hx⟩
  | const hc =>
    rw [Expr.nodes, List.mem_singleton] at hn
    subst hn
    exact ⟨_, .const hc⟩
  | sum h ih =>
    rcases List.mem_cons.1 (by rwa [Expr.nodes] at hn) with rfl | hn
    · exact ⟨_, .sum h⟩
    · obtain ⟨e, he, hn⟩ := Expr.mem_nodesAll.1 hn
      exact ih e he hn
  | product h ih =>
    rcases List.mem_cons.1 (by rwa [Expr.nodes] at hn) with rfl | hn
    · exact ⟨_, .product h⟩
    · obtain ⟨e, he, hn⟩ := Expr.mem_nodesAll.1 hn
      exact ih e he hn
  | call hf h ih =>
    -- The callee is not a node of its own, so that only the arguments remain.
    rcases List.mem_cons.1 (by rwa [Expr.nodes] at hn) with rfl | hn
    · exact ⟨_, .call hf h⟩
    · obtain ⟨e, he, hn⟩ := Expr.mem_nodesAll.1 hn
      exact ih e he hn

/-- The expression of a well-typed statement has a type. -/
theorem Stmt.WellTyped.exists_hasType {m : Module} {f : FunctionDef Int} {s : Stmt Int}
    (h : s.WellTyped m f) : ∃ t, s.value.HasType m f.localNames t := by
  cases h with
  | bind h => exact ⟨_, h⟩
  | ret _ h => exact ⟨_, h⟩
  | eval h => exact ⟨_, h⟩

section Function

variable {m : Module} {f : FunctionDef Int} (hf : f.WellTyped m)

include hf

/-- All nodes of a well-typed function have types. -/
theorem FunctionDef.WellTyped.of_mem_nodes {n : Expr Int} (hn : n ∈ f.nodes) :
    ∃ t, n.HasType m f.localNames t := by
  obtain ⟨s, hs, hn⟩ := List.mem_flatMap.1 hn
  obtain ⟨t, ht⟩ := (hf.body s hs).exists_hasType
  exact ht.of_mem_nodes hn

/-- A well-typed function has a good shape. Chains have operands since the source has them. -/
theorem FunctionDef.WellTyped.wellShaped (hwell : f.WellFormed) : f.WellShaped := by
  refine ⟨(List.nodup_append.1 hf.names).2.1, fun n hn => ?_⟩
  obtain ⟨t, ht⟩ := hf.of_mem_nodes hn
  have hn' := hwell.wellFormed_of_mem_nodes n hn
  cases ht with
  | var => trivial
  | const => trivial
  | sum =>
    rintro rfl
    exact absurd hn'.1 (by decide)
  | product =>
    rintro rfl
    exact absurd hn'.1 (by decide)
  | call => exact ⟨⟨_, rfl⟩, rfl⟩

/-- A well-typed function names nothing that is not there. Field accesses have no type, so there are
none. -/
theorem FunctionDef.WellTyped.resolvable : f.Resolvable m.functionNames := by
  have hword : IsValueTypeName wordType := ⟨.i32, rfl⟩
  refine ⟨hf.names, fun b hb => hf.signature.params b hb ▸ hword, fun hunit => ?_, ?_, ?_, ?_, ?_⟩
  · exact (hf.signature.returnType.resolve_right hunit) ▸ hword
  · intro x hx
    obtain ⟨t, ⟨⟩⟩ := hf.of_mem_nodes hx
    assumption
  · intro g lists hg
    obtain ⟨t, ht⟩ := hf.of_mem_nodes hg
    cases ht with
    | call hg => exact m.map_fst_interfaces ▸ List.mem_map_of_mem hg
  · intro receiver accessors hfield
    obtain ⟨t, ⟨⟩⟩ := hf.of_mem_nodes hfield
  · intro n hn
    obtain ⟨t, ⟨⟩⟩ := hf.of_mem_nodes hn
    assumption

end Function

section Module

variable {m : Module} (hm : m.WellTyped)

include hm

/-- **Well-typed modules are lowered.** -/
theorem Module.WellTyped.exists_lower (hwell : m.WellFormed) (importModule : String) :
    ∃ t, m.lower importModule = .ok t :=
  Module.exists_lower_iff.2 fun f hf => (hm.functions f hf).wellShaped (hwell.functions f hf)

/-- **All names of a well-typed module are known.** -/
theorem Module.WellTyped.resolvable {importModule : String}
    (himport : m.hosts ≠ [] → Wat.StringBody.IsLegal importModule) : m.Resolvable importModule := by
  have hword : IsValueTypeName wordType := ⟨.i32, rfl⟩
  refine ⟨hm.structNames, hm.functionNames, fun s hs => ⟨(hm.structs s hs).names, fun b hb => ?_⟩,
    fun h hh => ?_, fun f hf => (hm.functions f hf).resolvable, himport⟩
  · have htype := (hm.structs s hs).types b hb
    simp only [List.mem_cons, List.not_mem_nil, or_false] at htype
    refine Or.inl ?_
    rcases htype with htype | htype | htype | htype
    · exact ⟨.i32, htype.symm⟩
    · exact ⟨.i64, htype.symm⟩
    · exact ⟨.f32, htype.symm⟩
    · exact ⟨.f64, htype.symm⟩
  · have hsignature := hm.hosts h hh
    exact ⟨fun b hb => hsignature.params b hb ▸ hword,
      fun hunit => (hsignature.returnType.resolve_right hunit) ▸ hword⟩

end Module

/-! ## Checked instructions -/

/-- The value that a call or an expression of the given type leaves. -/
def stackType (t : String) : Option Wasm.ValueType := (resultType t).map fun _ => .i32

/-- The type of a function on 32-bit integers. -/
def wordFuncType (params : Nat) (returnType : String) : Wasm.FuncType :=
  ⟨List.replicate params .i32, stackType returnType⟩

/-- The instructions, with names resolved, take one type stack to another. -/
def Checked (Γ : Context) (locals functions : List String) (ps : List PlainInstr)
    (s s' : TypeStack) : Prop :=
  ∃ body, ps.mapM (PlainInstr.resolve? locals functions) = some body ∧
    body.foldlM (Wasm.Instr.check Γ) s = some s'

/-- The context gives all variables and all functions the types of 32-bit integers. -/
structure Agrees (m : Module) (locals : List String) (Γ : Context) : Prop where
  locals : ∀ {x k}, locals.idxOf? x = some k → Γ.locals[k]? = some .i32
  functions : ∀ {f params returnType k}, (f, params, returnType) ∈ m.interfaces →
    m.functionNames.idxOf? f = some k → Γ.functions[k]? = some (wordFuncType params returnType)

section Checked

variable {Γ : Context} {locals functions : List String} {s s₁ s₂ : TypeStack}

theorem checked_nil : Checked Γ locals functions [] s s := ⟨[], rfl, rfl⟩

/-- What two sequences do to the stack, they do one after the other. -/
theorem Checked.append {ps qs : List PlainInstr} (hps : Checked Γ locals functions ps s s₁)
    (hqs : Checked Γ locals functions qs s₁ s₂) : Checked Γ locals functions (ps ++ qs) s s₂ := by
  obtain ⟨is, his, hs₁⟩ := hps
  obtain ⟨js, hjs, hs₂⟩ := hqs
  refine ⟨is ++ js, ?_, ?_⟩
  · rw [List.mapM_append, his, hjs]
    rfl
  · rw [List.foldlM_append, hs₁]
    exact hs₂

/-- A sequence of one instruction does what its instruction does. -/
theorem checked_singleton {p : PlainInstr} {i : Wasm.Instr}
    (hp : p.resolve? locals functions = some i) (hi : i.check Γ s = some s₁) :
    Checked Γ locals functions [p] s s₁ := by
  refine ⟨[i], ?_, ?_⟩
  · rw [List.mapM_cons, hp]
    rfl
  · rw [List.foldlM_cons, hi]
    rfl

/-- Words on top of the stack are taken off again. -/
theorem popAll?_replicate (n : Nat) (s : TypeStack) :
    TypeStack.popAll? ⟨List.replicate n .i32 ++ s.operands, s.unreachable⟩ (List.replicate n .i32) =
      some s := by
  rw [TypeStack.popAll?, List.reverse_replicate]
  induction n with
  | zero => rfl
  | succ n ih =>
    rw [List.replicate_succ, List.foldlM_cons]
    exact ih

theorem checked_binary (op : Wat.BinaryOp) (s : TypeStack) :
    Checked Γ locals functions [.binary op] ((s.push .i32).push .i32) (s.push .i32) := by
  cases op <;> exact checked_singleton rfl rfl

/-- A chain leaves one word, if its operands and what was combined before do. -/
theorem Expr.checked_lowerChain {op : Wat.BinaryOp} {es : List (Expr Int)}
    (hes : ∀ e ∈ es, ∀ {i}, e.lower = .ok i →
      ∀ s, Checked Γ locals functions i.flatten s (s.push .i32))
    {left i : Instr} (hleft : ∀ s, Checked Γ locals functions left.flatten s (s.push .i32))
    (hi : Expr.lowerChain op left es = .ok i) (s : TypeStack) :
    Checked Γ locals functions i.flatten s (s.push .i32) := by
  induction es generalizing left with
  | nil =>
    cases hi
    exact hleft s
  | cons e es ih =>
    obtain ⟨a, ha, hi⟩ := Expr.lowerChain_cons_eq_ok.1 hi
    obtain ⟨he, hes⟩ := List.forall_mem_cons.1 hes
    refine ih hes (fun s => ?_) hi
    exact ((hleft s).append (he ha (s.push .i32))).append (checked_binary op s)

/-- Arguments leave one word each. -/
theorem Expr.checked_lowerAll {es : List (Expr Int)}
    (hes : ∀ e ∈ es, ∀ {i}, e.lower = .ok i →
      ∀ s, Checked Γ locals functions i.flatten s (s.push .i32))
    {is : List Instr} (his : Expr.lowerAll es = .ok is) (s : TypeStack) :
    Checked Γ locals functions (Instr.flattenAll is) s
      ⟨List.replicate es.length .i32 ++ s.operands, s.unreachable⟩ := by
  induction es generalizing is s with
  | nil =>
    cases his
    exact checked_nil
  | cons e es ih =>
    obtain ⟨i, js, hi, hjs, rfl⟩ := Expr.lowerAll_cons_eq_ok.1 his
    obtain ⟨he, hes⟩ := List.forall_mem_cons.1 hes
    -- The rest runs above the first word, which is the deepest of all.
    have hrest := ih hes hjs (s.push .i32)
    have hstack : List.replicate es.length Wasm.ValueType.i32 ++ (s.push .i32).operands =
        List.replicate (e :: es).length .i32 ++ s.operands := by
      rw [TypeStack.push, List.length_cons, List.replicate_succ', List.append_assoc]
      rfl
    rw [hstack] at hrest
    exact (he hi s).append hrest

end Checked

/-! ## Checked functions -/

section Agrees

variable {m : Module} {locals : List String} {Γ : Context} (hΓ : Agrees m locals Γ)

include hΓ

/-- Reading a variable leaves a word. -/
theorem Agrees.checked_localGet {x : String} (hx : x ∈ locals) (s : TypeStack) :
    Checked Γ locals m.functionNames [.localGet x] s (s.push .i32) := by
  obtain ⟨k, hk⟩ := Option.isSome_iff_exists.1 (List.isSome_idxOf?.2 hx)
  refine checked_singleton (by rw [PlainInstr.resolve?, hk]; rfl) ?_
  rw [Wasm.Instr.check, hΓ.locals hk]
  rfl

/-- Writing a variable takes a word. -/
theorem Agrees.checked_localSet {x : String} (hx : x ∈ locals) (s : TypeStack) :
    Checked Γ locals m.functionNames [.localSet x] (s.push .i32) s := by
  obtain ⟨k, hk⟩ := Option.isSome_iff_exists.1 (List.isSome_idxOf?.2 hx)
  refine checked_singleton (by rw [PlainInstr.resolve?, hk]; rfl) ?_
  rw [Wasm.Instr.check, hΓ.locals hk]
  rfl

/-- A call takes a word for each parameter, and leaves its result. -/
theorem Agrees.checked_call {f returnType : String} {params : Nat}
    (hf : (f, params, returnType) ∈ m.interfaces) (s : TypeStack) :
    Checked Γ locals m.functionNames [.call f]
      ⟨List.replicate params .i32 ++ s.operands, s.unreachable⟩
      (s.pushResult (stackType returnType)) := by
  have hmem : f ∈ m.functionNames := m.map_fst_interfaces ▸ List.mem_map_of_mem hf
  obtain ⟨k, hk⟩ := Option.isSome_iff_exists.1 (List.isSome_idxOf?.2 hmem)
  refine checked_singleton (by rw [PlainInstr.resolve?, hk]; rfl) ?_
  rw [Wasm.Instr.check, hΓ.functions hf hk]
  show (TypeStack.popAll? _ (List.replicate params .i32)).bind _ = _
  rw [popAll?_replicate]
  rfl

/-- **The instructions of an expression** leave what its type says, on top of any stack. -/
theorem Expr.HasType.checked {e : Expr Int} {t : String} (h : e.HasType m locals t) {i : Instr}
    (hi : e.lower = .ok i) (s : TypeStack) :
    Checked Γ locals m.functionNames i.flatten s (s.pushResult (stackType t)) := by
  induction h generalizing i s with
  | var hx =>
    cases hi
    exact hΓ.checked_localGet hx s
  | @const n hn =>
    cases hi
    exact checked_singleton (by rw [PlainInstr.resolve?, word?_of_inWord hn]; rfl) rfl
  | @sum operands _ ih =>
    cases operands with
    | nil => simp [Expr.lower] at hi
    | cons e es =>
      obtain ⟨a, ha, hi⟩ := Expr.lower_sum_eq_ok.1 hi
      obtain ⟨he, hes⟩ := List.forall_mem_cons.1 ih
      exact Expr.checked_lowerChain hes (he ha) hi s
  | @product operands _ ih =>
    cases operands with
    | nil => simp [Expr.lower] at hi
    | cons e es =>
      obtain ⟨a, ha, hi⟩ := Expr.lower_product_eq_ok.1 hi
      obtain ⟨he, hes⟩ := List.forall_mem_cons.1 ih
      exact Expr.checked_lowerChain hes (he ha) hi s
  | call hf _ ih =>
    obtain ⟨is, his, rfl⟩ := Expr.lower_call_eq_ok.1 hi
    exact (Expr.checked_lowerAll ih his s).append (hΓ.checked_call hf s)

end Agrees

/-- Whether a statement is a `return`. -/
def Stmt.isReturn : Stmt Int → Bool
  | .bind _ _ => false
  | .ret _ => true
  | .eval _ => false

section Body

variable {m : Module} {f : FunctionDef Int} {Γ : Context} (hΓ : Agrees m f.localNames Γ)
  (hresult : Γ.result = stackType f.returnType)

include hΓ hresult

/-- A statement starts and ends without operands. Behind a `return` nothing can be reached. -/
theorem Stmt.WellTyped.checked {s : Stmt Int} (hs : s.WellTyped m f) {i : Instr}
    (hi : s.lower = .ok i) (hbound : ∀ x ∈ s.bound?, x ∈ f.localNames) (unreachable : Bool) :
    Checked Γ f.localNames m.functionNames i.flatten ⟨[], unreachable⟩
      ⟨[], unreachable || s.isReturn⟩ := by
  cases hs with
  | @bind x e h =>
    obtain ⟨a, ha, hi⟩ := bind_eq_ok_iff.1 hi
    cases hi
    rw [Stmt.isReturn, Bool.or_false]
    exact (h.checked hΓ ha _).append (hΓ.checked_localSet (hbound x rfl) _)
  | @ret e hword h =>
    obtain ⟨a, ha, hi⟩ := bind_eq_ok_iff.1 hi
    cases hi
    rw [Stmt.isReturn, Bool.or_true]
    refine (h.checked hΓ ha _).append (checked_singleton rfl ?_)
    rw [Wasm.Instr.check, hresult, hword]
    rfl
  | eval h =>
    rw [Stmt.isReturn, Bool.or_false]
    exact h.checked hΓ hi _

/-- So do several statements. One `return` among them makes the end unreachable. -/
theorem Stmt.checked_flattenAll {ss : List (Stmt Int)} {is : List Instr}
    (h : List.Forall₂ (fun s i => Stmt.lower s = .ok i) ss is) (hss : ∀ s ∈ ss, s.WellTyped m f)
    (hbound : ∀ s ∈ ss, ∀ x ∈ s.bound?, x ∈ f.localNames) (unreachable : Bool) :
    Checked Γ f.localNames m.functionNames (Instr.flattenAll is) ⟨[], unreachable⟩
      ⟨[], unreachable || ss.any Stmt.isReturn⟩ := by
  -- Every statement leaves the stack empty and only the flag moves on, so the flag is general.
  induction h generalizing unreachable with
  | nil =>
    rw [List.any_nil, Bool.or_false]
    exact checked_nil
  | @cons s i ss is hi _ ih =>
    rw [List.forall_mem_cons] at hss hbound
    have hrest := ih hss.2 hbound.2 (unreachable || s.isReturn)
    rw [Bool.or_assoc, ← List.any_cons] at hrest
    exact (hss.1.checked hΓ hresult hi hbound.1 unreachable).append hrest

/-- **The body of a well-typed function** passes the check. Where there is a result, a `return`
makes the end unreachable, so that the result need not be there. -/
theorem FunctionDef.WellTyped.bodyIsValid (hf : f.WellTyped m) {is : List Instr}
    (his : List.Forall₂ (fun s i => Stmt.lower s = .ok i) f.body is) {body : List Wasm.Instr}
    (hbody : (Instr.flattenAll is).mapM (PlainInstr.resolve? f.localNames m.functionNames) =
      some body) : Wasm.bodyIsValid Γ body = true := by
  have hbound : ∀ s ∈ f.body, ∀ x ∈ s.bound?, x ∈ f.localNames := fun s hs x hx =>
    List.mem_append_right _ (List.mem_filterMap.2 ⟨s, hs, hx⟩)
  obtain ⟨body', hbody', hcheck⟩ :=
    Stmt.checked_flattenAll hΓ hresult his hf.body hbound false
  rw [hbody] at hbody'
  cases hbody'
  rw [Bool.false_or] at hcheck
  rw [Wasm.bodyIsValid, TypeStack.empty, hcheck, hresult]
  rcases hf.signature.returnType with hword | hunit
  · -- the end of the body cannot be reached, so any result is there
    obtain ⟨e, he⟩ := hf.returns hword
    have hreturn : f.body.any Stmt.isReturn = true := List.any_eq_true.2 ⟨_, he, rfl⟩
    rw [hword, hreturn]
    rfl
  · rw [hunit]
    rfl

end Body

end Kelp
