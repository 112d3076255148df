import Kelp.Proofs.Emission

/-!
# What the text of a module keeps

Two modules with the same text agree on all that WebAssembly text carries, and on nothing more.

- `Expr.normalForm` forgets how operands and accessors are grouped: a chain of one operand is that
  operand, a chain in the first place of a chain of the same kind is merged with it, and so are
  accesses of accesses.
- `Expr.lower_eq_iff`: two expressions have the same instruction exactly when they have the same
  normal form. One half is `Expr.lower_normalForm`; for the other, `Wat.Instr.expr` gives the
  normal form back from the instruction.
- `emitText_eq_iff` lifts this to the texts of modules. What is public is told by the exports, as
  long as no two functions share their name.
-/

namespace Kelp

open Wat (Instr)

/-! ## Normal forms -/

/-- The chain of the given operator. -/
def Expr.chain : Wat.BinaryOp → List (Expr Int) → Expr Int
  | .add, operands => .sum operands
  | .mul, operands => .product operands

/-- The operands that an expression gives to a chain in whose first place it stands. -/
def Expr.leading : Wat.BinaryOp → Expr Int → List (Expr Int)
  | .add, .sum operands => operands
  | .mul, .product operands => operands
  | _, e => [e]

/-- The chain of a first operand and further ones. Without further ones it is the first operand. -/
def Expr.extend (op : Wat.BinaryOp) (first : Expr Int) : List (Expr Int) → Expr Int
  | [] => first
  | e :: es => .chain op (first.leading op ++ e :: es)

/-- The expression whose fields are accessed, and the names on the way to it. -/
def Expr.access : Expr Int → Expr Int × List String
  | .field receiver accessors => (receiver, accessors)
  | e => (e, [])

/-- The access of further fields. Without further ones it is the expression itself. -/
def Expr.extendAccess (e : Expr Int) : List String → Expr Int
  | [] => e
  | x :: xs => .field e.access.1 (e.access.2 ++ x :: xs)

mutual

/-- The normal form of an expression. -/
def Expr.normalForm : Expr Int → Expr Int
  | .sum [] => .sum []
  | .sum (e :: es) => e.normalForm.extend .add (Expr.normalForms es)
  | .product [] => .product []
  | .product (e :: es) => e.normalForm.extend .mul (Expr.normalForms es)
  | .field receiver accessors => receiver.normalForm.extendAccess accessors
  | .call callee lists => .call callee.normalForm (Expr.normalFormLists lists)
  | .var x => .var x
  | .const n => .const n

/-- The normal forms of several expressions. -/
def Expr.normalForms : List (Expr Int) → List (Expr Int)
  | [] => []
  | e :: es => e.normalForm :: Expr.normalForms es

/-- The normal forms of several argument lists. -/
def Expr.normalFormLists : List (List (Expr Int)) → List (List (Expr Int))
  | [] => []
  | es :: ess => Expr.normalForms es :: Expr.normalFormLists ess

end

/-- The statement with its expression in normal form. -/
def Stmt.normalForm : Stmt Int → Stmt Int
  | .bind name value => .bind name value.normalForm
  | .ret value => .ret value.normalForm
  | .eval value => .eval value.normalForm

/-- The function with the expressions of its body in normal form. -/
def FunctionDef.normalForm (f : FunctionDef Int) : FunctionDef Int :=
  { f with body := f.body.map Stmt.normalForm }

/-- What the import of a host function carries: its name, the types of its parameters and its return
type. -/
def HostFunction.interface (h : HostFunction) : String × List String × String :=
  (h.name, h.params.map Binder.type, h.returnType)

/-! ## Normal forms are lowered alike -/

/-- A chain gives its operands to a chain of the same operator. -/
theorem Expr.leading_chain (op : Wat.BinaryOp) (es : List (Expr Int)) :
    (Expr.chain op es).leading op = es := by
  cases op <;> rfl

/-- Operands can be added one by one. -/
theorem Expr.extend_extend (op : Wat.BinaryOp) (first e : Expr Int) (es : List (Expr Int)) :
    (first.extend op [e]).extend op es = first.extend op (e :: es) := by
  cases es with
  | nil => rfl
  | cons e' es =>
    rw [Expr.extend, Expr.extend, Expr.leading_chain, Expr.extend, List.append_assoc]
    rfl

/-- Accessors can be added one by one. -/
theorem Expr.extendAccess_extendAccess (e : Expr Int) (x : String) (xs : List String) :
    (e.extendAccess [x]).extendAccess xs = e.extendAccess (x :: xs) := by
  cases xs with
  | nil => rfl
  | cons y ys =>
    rw [Expr.extendAccess, Expr.extendAccess, Expr.access, Expr.extendAccess, List.append_assoc]
    rfl

/-- Chains are lowered in the same way for both operators. -/
theorem Expr.lower_chain_eq_ok {op : Wat.BinaryOp} {e : Expr Int} {es : List (Expr Int)}
    {i : Instr} : (Expr.chain op (e :: es)).lower = .ok i ↔
      ∃ a, e.lower = .ok a ∧ Expr.lowerChain op a es = .ok i := by
  cases op with
  | add => exact Expr.lower_sum_eq_ok
  | mul => exact Expr.lower_product_eq_ok

/-- Operands can be lowered in two parts. -/
theorem Expr.lowerChain_append {op : Wat.BinaryOp} {es fs : List (Expr Int)} {left a i : Instr}
    (hes : Expr.lowerChain op left es = .ok a) (hfs : Expr.lowerChain op a fs = .ok i) :
    Expr.lowerChain op left (es ++ fs) = .ok i := by
  induction es generalizing left with
  | nil =>
    cases hes
    exact hfs
  | cons e es ih =>
    obtain ⟨b, hb, hes⟩ := Expr.lowerChain_cons_eq_ok.1 hes
    exact Expr.lowerChain_cons_eq_ok.2 ⟨b, hb, ih hes⟩

/-- The operands that an expression gives to a chain are lowered to its instruction. -/
theorem Expr.exists_leading (op : Wat.BinaryOp) {e : Expr Int} {a : Instr} (h : e.lower = .ok a) :
    ∃ first rest b, e.leading op = first :: rest ∧ first.lower = .ok b ∧
      Expr.lowerChain op b rest = .ok a := by
  -- Only a chain of the same operator gives its operands away.
  by_cases hchain : ∃ es, e = .chain op es
  · obtain ⟨es, rfl⟩ := hchain
    rw [Expr.leading_chain]
    cases es with
    | nil => cases op <;> simp [Expr.chain, Expr.lower] at h
    | cons first rest =>
      obtain ⟨b, hb, hrest⟩ := Expr.lower_chain_eq_ok.1 h
      exact ⟨first, rest, b, rfl, hb, hrest⟩
  · have hleading : e.leading op = [e] := by
      cases op <;> cases e <;> first | rfl | exact absurd ⟨_, rfl⟩ hchain
    exact ⟨e, [], a, hleading, h, by rw [Expr.lowerChain]; rfl⟩

/-- Adding operands to the normal form of the first is lowered like the chain. -/
theorem Expr.lower_extend {op : Wat.BinaryOp} {first : Expr Int} {rest : List (Expr Int)}
    {a i : Instr} (hfirst : first.lower = .ok a) (hrest : Expr.lowerChain op a rest = .ok i) :
    (first.extend op rest).lower = .ok i := by
  cases rest with
  | nil =>
    rw [Expr.lowerChain, pure_eq_ok_iff] at hrest
    subst hrest
    exact hfirst
  | cons e es =>
    obtain ⟨first', rest', b, hleading, hb, ha⟩ := Expr.exists_leading op hfirst
    rw [Expr.extend, hleading, List.cons_append]
    exact Expr.lower_chain_eq_ok.2 ⟨b, hb, Expr.lowerChain_append ha hrest⟩

/-- Adding accessors is lowered like the access. -/
theorem Expr.lower_extendAccess {e : Expr Int} {object : Instr} (h : e.lower = .ok object)
    (xs : List String) : (e.extendAccess xs).lower =
      .ok (xs.foldl (fun object field => .structGet field object) object) := by
  cases xs with
  | nil => exact h
  | cons x xs =>
    rw [Expr.extendAccess, Expr.lower_field_eq_ok]
    -- only an access passes its accessors on
    cases e with
    | field receiver accessors =>
      obtain ⟨inner, hinner, rfl⟩ := Expr.lower_field_eq_ok.1 h
      exact ⟨inner, hinner, by rw [← List.foldl_append]; rfl⟩
    | _ => exact ⟨object, h, rfl⟩

mutual

/-- **The normal form** of an expression has the same instruction. -/
theorem Expr.lower_normalForm : ∀ {e : Expr Int} {i : Instr}, e.lower = .ok i →
    e.normalForm.lower = .ok i
  | .sum [], _, h => h
  | .sum (e :: es), i, h => by
    obtain ⟨a, ha, h⟩ := Expr.lower_sum_eq_ok.1 h
    exact Expr.lower_extend (Expr.lower_normalForm ha) (Expr.lowerChain_normalForms h)
  | .product [], _, h => h
  | .product (e :: es), i, h => by
    obtain ⟨a, ha, h⟩ := Expr.lower_product_eq_ok.1 h
    exact Expr.lower_extend (Expr.lower_normalForm ha) (Expr.lowerChain_normalForms h)
  | .field receiver accessors, i, h => by
    obtain ⟨object, hobject, rfl⟩ := Expr.lower_field_eq_ok.1 h
    exact Expr.lower_extendAccess (Expr.lower_normalForm hobject) accessors
  | .call callee lists, i, h => by
    obtain ⟨f, arguments, rfl, rfl⟩ := Expr.lower_call_shape h
    obtain ⟨is, his, rfl⟩ := Expr.lower_call_eq_ok.1 h
    exact Expr.lower_call_eq_ok.2 ⟨is, Expr.lowerAll_normalForms his, rfl⟩
  | .var x, _, h => h
  | .const n, _, h => h

/-- Putting the further operands of a chain into normal form does not matter either. -/
theorem Expr.lowerChain_normalForms {op : Wat.BinaryOp} : ∀ {es : List (Expr Int)}
    {left i : Instr}, Expr.lowerChain op left es = .ok i →
      Expr.lowerChain op left (Expr.normalForms es) = .ok i
  | [], _, _, h => h
  | e :: es, left, i, h => by
    obtain ⟨a, ha, h⟩ := Expr.lowerChain_cons_eq_ok.1 h
    exact Expr.lowerChain_cons_eq_ok.2
      ⟨a, Expr.lower_normalForm ha, Expr.lowerChain_normalForms h⟩

/-- Nor does it for arguments. -/
theorem Expr.lowerAll_normalForms : ∀ {es : List (Expr Int)} {is : List Instr},
    Expr.lowerAll es = .ok is → Expr.lowerAll (Expr.normalForms es) = .ok is
  | [], _, h => h
  | e :: es, is, h => by
    obtain ⟨i, js, hi, hjs, rfl⟩ := Expr.lowerAll_cons_eq_ok.1 h
    exact Expr.lowerAll_cons_eq_ok.2
      ⟨i, js, Expr.lower_normalForm hi, Expr.lowerAll_normalForms hjs, rfl⟩

end

/-! ## Normal forms from instructions -/

mutual

/-- The expression in normal form that an instruction computes. Only instructions with a value
matter. -/
def Wat.Instr.expr : Instr → Expr Int
  | .const n => .const n
  | .localGet x => .var x
  | .localSet _ value => value.expr
  | .structGet field object => object.expr.extendAccess [field]
  | .binary op left right => left.expr.extend op [right.expr]
  | .call f arguments => .call (.var f) [Instr.exprs arguments]
  | .ret value => value.expr

/-- The expressions in normal form that several instructions compute. -/
def Wat.Instr.exprs : List Instr → List (Expr Int)
  | [] => []
  | i :: is => i.expr :: Instr.exprs is

end

/-- Nested accesses compute one access. -/
theorem Wat.Instr.expr_foldl_structGet (names : List String) (object : Instr) :
    (names.foldl (fun object field => Instr.structGet field object) object).expr =
      object.expr.extendAccess names := by
  induction names generalizing object with
  | nil => rfl
  | cons x names ih => rw [List.foldl_cons, ih, Instr.expr, Expr.extendAccess_extendAccess]

mutual

/-- The normal form of an expression is told by its instruction. -/
theorem Expr.expr_lower : ∀ {e : Expr Int} {i : Instr}, e.lower = .ok i → i.expr = e.normalForm
  | .sum [], _, h => by simp [Expr.lower] at h
  | .sum (e :: es), i, h => by
    obtain ⟨a, ha, h⟩ := Expr.lower_sum_eq_ok.1 h
    rw [Expr.expr_lowerChain h, Expr.expr_lower ha, Expr.normalForm]
  | .product [], _, h => by simp [Expr.lower] at h
  | .product (e :: es), i, h => by
    obtain ⟨a, ha, h⟩ := Expr.lower_product_eq_ok.1 h
    rw [Expr.expr_lowerChain h, Expr.expr_lower ha, Expr.normalForm]
  | .field receiver accessors, i, h => by
    obtain ⟨object, hobject, rfl⟩ := Expr.lower_field_eq_ok.1 h
    rw [Wat.Instr.expr_foldl_structGet, Expr.expr_lower hobject, Expr.normalForm]
  | .call callee lists, i, h => by
    obtain ⟨f, arguments, rfl, rfl⟩ := Expr.lower_call_shape h
    obtain ⟨is, his, rfl⟩ := Expr.lower_call_eq_ok.1 h
    rw [Instr.expr, Expr.exprs_lowerAll his]
    rfl
  | .var x, i, h => by
    rw [Expr.lower, pure_eq_ok_iff] at h
    subst h
    rfl
  | .const n, i, h => by
    rw [Expr.lower, pure_eq_ok_iff] at h
    subst h
    rfl

/-- The normal form of a chain is told by its instruction. The induction adds one operand at a time
to what was combined before. -/
theorem Expr.expr_lowerChain {op : Wat.BinaryOp} : ∀ {es : List (Expr Int)} {left i : Instr},
    Expr.lowerChain op left es = .ok i → i.expr = left.expr.extend op (Expr.normalForms es)
  | [], left, i, h => by
    rw [Expr.lowerChain, pure_eq_ok_iff] at h
    subst h
    rfl
  | e :: es, left, i, h => by
    obtain ⟨a, ha, h⟩ := Expr.lowerChain_cons_eq_ok.1 h
    rw [Expr.expr_lowerChain h, Instr.expr, Expr.expr_lower ha, Expr.extend_extend]
    rfl

/-- The normal forms of arguments are told by their instructions. -/
theorem Expr.exprs_lowerAll : ∀ {es : List (Expr Int)} {is : List Instr},
    Expr.lowerAll es = .ok is → Instr.exprs is = Expr.normalForms es
  | [], is, h => by
    rw [Expr.lowerAll, pure_eq_ok_iff] at h
    subst h
    rfl
  | e :: es, is, h => by
    obtain ⟨i, js, hi, hjs, rfl⟩ := Expr.lowerAll_cons_eq_ok.1 h
    rw [Instr.exprs, Expr.expr_lower hi, Expr.exprs_lowerAll hjs, Expr.normalForms]

end

/-- **Expressions** have the same instruction exactly when they have the same normal form. -/
theorem Expr.lower_eq_iff {e e' : Expr Int} {i i' : Instr} (h : e.lower = .ok i)
    (h' : e'.lower = .ok i') : i = i' ↔ e.normalForm = e'.normalForm := by
  constructor
  · rintro rfl
    rw [← Expr.expr_lower h, Expr.expr_lower h']
  · intro heq
    have hi := Expr.lower_normalForm h
    rw [heq, Expr.lower_normalForm h', Except.ok.injEq] at hi
    exact hi.symm

/-! ## Statements and functions -/

/-- The instruction leaves a value and has no other effect at its root. -/
def Wat.Instr.IsValue : Instr → Prop
  | .localSet _ _ => False
  | .ret _ => False
  | _ => True

/-- A chain leaves a value, if what was combined before does. -/
theorem Expr.isValue_lowerChain {op : Wat.BinaryOp} {es : List (Expr Int)} {left i : Instr}
    (hleft : left.IsValue) (h : Expr.lowerChain op left es = .ok i) : i.IsValue := by
  induction es generalizing left with
  | nil =>
    cases h
    exact hleft
  | cons e es ih =>
    obtain ⟨a, -, h⟩ := Expr.lowerChain_cons_eq_ok.1 h
    have hbinary : (Instr.binary op left a).IsValue := trivial
    exact ih hbinary h

/-- Expressions do not become assignments or returns. -/
theorem Expr.isValue_lower : ∀ {e : Expr Int} {i : Instr}, e.lower = .ok i → i.IsValue
  | .sum [], _, h => by simp [Expr.lower] at h
  | .sum (e :: es), i, h => by
    obtain ⟨a, ha, h⟩ := Expr.lower_sum_eq_ok.1 h
    exact Expr.isValue_lowerChain (Expr.isValue_lower ha) h
  | .product [], _, h => by simp [Expr.lower] at h
  | .product (e :: es), i, h => by
    obtain ⟨a, ha, h⟩ := Expr.lower_product_eq_ok.1 h
    exact Expr.isValue_lowerChain (Expr.isValue_lower ha) h
  | .field receiver accessors, i, h => by
    obtain ⟨object, hobject, rfl⟩ := Expr.lower_field_eq_ok.1 h
    have hvalue := Expr.isValue_lower hobject
    clear hobject h
    induction accessors generalizing object with
    | nil => exact hvalue
    | cons x xs ih => exact ih _ trivial
  | .call callee lists, i, h => by
    obtain ⟨f, arguments, rfl, rfl⟩ := Expr.lower_call_shape h
    obtain ⟨is, -, rfl⟩ := Expr.lower_call_eq_ok.1 h
    trivial
  | .var x, i, h => by
    cases h
    trivial
  | .const n, i, h => by
    cases h
    trivial

/-- **Statements** have the same instruction exactly when they have the same normal form. -/
theorem Stmt.lower_eq_iff {s s' : Stmt Int} {i i' : Instr} (h : s.lower = .ok i)
    (h' : s'.lower = .ok i') : i = i' ↔ s.normalForm = s'.normalForm := by
  obtain ⟨x, e, a, rfl, ha, rfl⟩ | ⟨e, a, rfl, ha, rfl⟩ | ⟨e, rfl, ha⟩ := Stmt.lower_eq_ok h <;>
    obtain ⟨x', e', a', rfl, ha', rfl⟩ | ⟨e', a', rfl, ha', rfl⟩ | ⟨e', rfl, ha'⟩ :=
      Stmt.lower_eq_ok h'
  all_goals simp only [Stmt.normalForm, Stmt.bind.injEq, Stmt.ret.injEq, Stmt.eval.injEq,
    Instr.localSet.injEq, Instr.ret.injEq, reduceCtorEq, iff_false]
  · rw [Expr.lower_eq_iff ha ha']
  -- Statements of different kinds differ at the root: expressions never set a variable or return.
  · rintro rfl
    exact Expr.isValue_lower ha'
  · exact Expr.lower_eq_iff ha ha'
  · rintro rfl
    exact Expr.isValue_lower ha'
  · rintro rfl
    exact Expr.isValue_lower ha
  · rintro rfl
    exact Expr.isValue_lower ha
  · exact Expr.lower_eq_iff ha ha'

theorem Stmt.bound?_normalForm (s : Stmt Int) : s.normalForm.bound? = s.bound? := by
  cases s <;> rfl

/-- Return types are told by results: `unit` is the only one that has none. -/
theorem resultType_inj {t t' : String} : resultType t = resultType t' ↔ t = t' := by
  refine ⟨fun h => ?_, fun h => h ▸ rfl⟩
  unfold resultType at h
  split at h <;> split at h
  next ht ht' => rw [ht, ht']
  next => cases h
  next => cases h
  next => exact Option.some.inj h

/-- The function in normal form, with nothing said on whether it is public. -/
def FunctionDef.code (f : FunctionDef Int) : FunctionDef Int :=
  { f.normalForm with isPublic := false }

theorem FunctionDef.name_code (f : FunctionDef Int) : f.code.name = f.name := rfl

/-- **Functions** are lowered to the same function exactly when they have the same code. -/
theorem FunctionDef.lower_eq_iff {f f' : FunctionDef Int} {g g' : Wat.Func} (h : f.lower = .ok g)
    (h' : f'.lower = .ok g') : g = g' ↔ f.code = f'.code := by
  obtain ⟨body, hbody, rfl⟩ := FunctionDef.lower_eq_ok h
  obtain ⟨body', hbody', rfl⟩ := FunctionDef.lower_eq_ok h'
  have hiff := forall₂_eq_iff Stmt.normalForm (mapM_eq_ok_iff.1 hbody) (mapM_eq_ok_iff.1 hbody')
    fun _ _ _ _ => Stmt.lower_eq_iff
  -- locals are not compared on their own: they follow from the body
  have hlets : f.body.map Stmt.normalForm = f'.body.map Stmt.normalForm →
      f.letNames = f'.letNames := by
    intro heq
    have hbound := congrArg (List.filterMap Stmt.bound?) heq
    simp only [List.filterMap_map, Function.comp_def, Stmt.bound?_normalForm] at hbound
    exact hbound
  simp only [FunctionDef.code, FunctionDef.normalForm, FunctionDef.result, Wat.Func.mk.injEq,
    FunctionDef.mk.injEq, resultType_inj, hiff, true_and]
  grind

/-! ## Modules -/

/-- Functions of different names are public alike if they have the same code, name by name, and the
same exports. -/
theorem FunctionDef.map_normalForm_eq : ∀ {fs fs' : List (FunctionDef Int)},
    (fs.map FunctionDef.name).Nodup → fs.map FunctionDef.code = fs'.map FunctionDef.code →
      (fs.filter (·.isPublic)).map FunctionDef.name =
        (fs'.filter (·.isPublic)).map FunctionDef.name →
      fs.map FunctionDef.normalForm = fs'.map FunctionDef.normalForm
  | [], fs', _, hcode, _ => by
    rw [List.map_nil, eq_comm, List.map_eq_nil_iff] at hcode
    rw [hcode]
  | f :: fs, [], _, hcode, _ => by cases hcode
  | f :: fs, f' :: fs', hnodup, hcode, hexports => by
    obtain ⟨hhead, htail⟩ := List.cons.inj hcode
    have hname : f.name = f'.name := by rw [← f.name_code, hhead, f'.name_code]
    have hnames : fs.map FunctionDef.name = fs'.map FunctionDef.name := by
      have h := congrArg (List.map FunctionDef.name) htail
      rwa [List.map_map, List.map_map] at h
    rw [List.map_cons, List.nodup_cons] at hnodup
    -- No later function has this name, so that neither list of later exports does.
    have hnot : f.name ∉ (fs.filter (·.isPublic)).map FunctionDef.name := fun h =>
      hnodup.1 ((List.filter_sublist.map _).subset h)
    have hnot' : f.name ∉ (fs'.filter (·.isPublic)).map FunctionDef.name := fun h =>
      hnodup.1 (hnames ▸ (List.filter_sublist.map _).subset h)
    have hpublic : f.isPublic = f'.isPublic := by
      rw [List.filter_cons, List.filter_cons] at hexports
      cases hf : f.isPublic <;> cases hf' : f'.isPublic
      · rfl
      · simp only [hf, hf'] at hexports
        exact absurd (hexports ▸ List.mem_cons_self) (hname ▸ hnot)
      · simp only [hf, hf'] at hexports
        exact absurd (hexports ▸ List.mem_cons_self) hnot'
      · rfl
    have hrest : (fs.filter (·.isPublic)).map FunctionDef.name =
        (fs'.filter (·.isPublic)).map FunctionDef.name := by
      rw [List.filter_cons, List.filter_cons, hpublic] at hexports
      split at hexports
      · exact (List.cons.inj hexports).2
      · exact hexports
    have hfunction : f.normalForm = f'.normalForm := by
      simp only [FunctionDef.code, FunctionDef.mk.injEq] at hhead
      simp only [FunctionDef.normalForm, FunctionDef.mk.injEq] at hhead ⊢
      exact ⟨hpublic, hhead.2⟩
    rw [List.map_cons, List.map_cons, hfunction, FunctionDef.map_normalForm_eq hnodup.2 htail hrest]

/-- What is exported is told by the normal forms of the functions. -/
theorem Module.exports_eq (m : Module) : m.publicFunctions.map FunctionDef.name =
    ((m.functions.map FunctionDef.normalForm).filter (·.isPublic)).map FunctionDef.name := by
  rw [List.filter_map, List.map_map]
  rfl

/-- So is what the module starts with. -/
theorem Module.start_eq (m : Module) : m.entry?.map FunctionDef.name =
    ((m.functions.map FunctionDef.normalForm).find? (·.name = entryName)).map FunctionDef.name := by
  rw [List.find?_map, Option.map_map]
  rfl

/-- Imports are equal exactly when the interfaces of the host functions are. -/
theorem HostFunction.lower_eq_iff {importModule : String} {h h' : HostFunction} :
    h.lower importModule = h'.lower importModule ↔ h.interface = h'.interface := by
  simp only [HostFunction.lower, HostFunction.interface, HostFunction.result, Wat.Import.mk.injEq,
    resultType_inj, Prod.mk.injEq, true_and]

theorem HostFunction.map_lower_eq_iff {importModule : String} {hs hs' : List HostFunction} :
    hs.map (HostFunction.lower importModule) = hs'.map (HostFunction.lower importModule) ↔
      hs.map HostFunction.interface = hs'.map HostFunction.interface := by
  have hlowered : ∀ ds : List HostFunction,
      List.Forall₂ (fun h i => i = h.lower importModule) ds
        (ds.map (HostFunction.lower importModule)) :=
    fun ds => List.forall₂_map_right_iff.2 (List.forall₂_same.2 fun _ _ => rfl)
  refine forall₂_eq_iff HostFunction.interface (hlowered hs) (hlowered hs') ?_
  rintro h h' _ _ rfl rfl
  exact HostFunction.lower_eq_iff

/-- **The texts of two modules** are equal exactly when the modules have the same structs, hosts of
the same interfaces, and functions of the same normal forms. -/
theorem emitText_eq_iff {m m' : Module} {options : Options} {text text' : String}
    (hm : m.WellNamed) (hm' : m'.WellNamed) (hnodup : (m.functions.map FunctionDef.name).Nodup)
    (himport : ∀ c ∈ options.importModule.toList, c ≠ '"' ∧ c ≠ '\\')
    (h : emitText m options = .ok text) (h' : emitText m' options = .ok text') :
    text = text' ↔ m.structs = m'.structs ∧
      m.hosts.map HostFunction.interface = m'.hosts.map HostFunction.interface ∧
      m.functions.map FunctionDef.normalForm = m'.functions.map FunctionDef.normalForm := by
  obtain ⟨t, ht, rfl⟩ := emitText_eq_ok_iff.1 h
  obtain ⟨t', ht', rfl⟩ := emitText_eq_ok_iff.1 h'
  have hclosed := SExpr.IsPlainBody.isClosedBody himport
  -- the text is read back, so it tells the text module
  have htext : t.text = t'.text ↔ t = t' := by
    refine ⟨fun heq => ?_, congrArg _⟩
    have hread := Module.read?_text_lower hm (fun _ => hclosed) ht
    rw [heq, Module.read?_text_lower hm' (fun _ => hclosed) ht'] at hread
    exact (Option.some.inj hread).symm
  obtain ⟨functions, hfunctions, rfl⟩ := Module.lower_eq_ok ht
  obtain ⟨functions', hfunctions', rfl⟩ := Module.lower_eq_ok ht'
  have hstructs : m.structs.map StructDef.lower = m'.structs.map StructDef.lower ↔
      m.structs = m'.structs := by
    refine (List.map_injective_iff.2 fun s s' h => ?_).eq_iff
    cases s
    cases s'
    cases h
    rfl
  have hcode := forall₂_eq_iff FunctionDef.code hfunctions hfunctions'
    fun _ _ _ _ => FunctionDef.lower_eq_iff
  rw [htext, Wat.Module.mk.injEq, hstructs, hcode, HostFunction.map_lower_eq_iff]
  constructor
  · -- whether a function is public is not in its own clause, but the exports tell
    rintro ⟨hs, hh, hf, he, -⟩
    exact ⟨hs, hh, FunctionDef.map_normalForm_eq hnodup hf he⟩
  · rintro ⟨hs, hh, hf⟩
    have hf' : m.functions.map FunctionDef.code = m'.functions.map FunctionDef.code := by
      have h := congrArg (List.map fun f => { f with isPublic := false }) hf
      rwa [List.map_map, List.map_map] at h
    refine ⟨hs, hh, hf', ?_, ?_⟩
    · rw [Module.exports_eq, hf, ← Module.exports_eq]
    · rw [Module.start_eq, hf, ← Module.start_eq]

/-- A module with a public function of one parameter that returns the given value, and a host
function with a parameter of the given name. -/
def returning (value : Expr Int) (parameter : String) : Module where
  structs := []
  functions := [⟨true, "f", [⟨"a", "i32"⟩], "i32", [.ret value]⟩]
  hosts := [⟨"console.log", "log", [⟨parameter, "i32"⟩], unitType⟩]

theorem wellNamed_returning {value : Expr Int} (h : value.WellNamed) (parameter : String) :
    (returning value parameter).WellNamed := by
  have hf : Wat.IsId "f" := by decide
  have ha : Wat.IsId "a" := by decide
  have hi32 : Wat.IsId "i32" := by decide
  have hlog : Wat.IsId "log" := by decide
  have hunit : Wat.IsId unitType := by decide
  constructor
  · exact nofun
  · rintro _ (_ | ⟨_, ⟨⟩⟩)
    refine ⟨hf, ?_, hi32, ?_⟩
    · rintro _ (_ | ⟨_, ⟨⟩⟩)
      exact ⟨ha, hi32⟩
    · rintro _ (_ | ⟨_, ⟨⟩⟩)
      exact h
  · rintro _ (_ | ⟨_, ⟨⟩⟩)
    refine ⟨hlog, ?_, hunit⟩
    rintro _ (_ | ⟨_, ⟨⟩⟩)
    exact hi32

/-- The text shows neither how `a.x.y + 1 + 2` is grouped from the left nor what the host calls its
parameter. It does show `a.x.y + (1 + 2)`. -/
theorem emitText_returning :
    let nested := Expr.sum [.sum [.field (.field (.var "a") ["x"]) ["y"], .const 1], .const 2]
    let flat := Expr.sum [.field (.var "a") ["x", "y"], .const 1, .product [.const 2]]
    let other := Expr.sum [.field (.var "a") ["x", "y"], .sum [.const 1, .const 2]]
    emitText (returning nested "x") {} = emitText (returning flat "y") {} ∧
      emitText (returning nested "x") {} ≠ emitText (returning other "x") {} := by
  intro nested flat other
  have ha : Wat.IsId "a" := by decide
  have hx : Wat.IsId "x" := by decide
  have hy : Wat.IsId "y" := by decide
  have hnested : nested.WellNamed := by simp [nested, Expr.WellNamed, Expr.AllWellNamed, *]
  have hflat : flat.WellNamed := by simp [flat, Expr.WellNamed, Expr.AllWellNamed, *]
  have hother : other.WellNamed := by simp [other, Expr.WellNamed, Expr.AllWellNamed, *]
  have himport : ∀ c ∈ ({} : Options).importModule.toList, c ≠ '"' ∧ c ≠ '\\' :=
    Wat.IsId.isPlainBody (by decide)
  constructor
  · refine congrArg Except.ok ((emitText_eq_iff (wellNamed_returning hnested "x")
      (wellNamed_returning hflat "y") (by decide) himport rfl rfl).2 ⟨rfl, rfl, ?_⟩)
    rfl
  · intro heq
    have htexts := (emitText_eq_iff (wellNamed_returning hnested "x")
      (wellNamed_returning hother "x") (by decide) himport rfl rfl).1 (Except.ok.inj heq)
    have hbody := htexts.2.2
    simp [returning, nested, other, FunctionDef.normalForm, Stmt.normalForm, Expr.normalForm,
      Expr.normalForms, Expr.extend, Expr.chain, Expr.leading, Expr.extendAccess,
      Expr.access] at hbody

end Kelp
