import Kelp.Proofs.Resolvable

/-!
# The code of functions

Which instructions the body of a function comes to, said of its statements, with no text module in
between.

- `Scope` holds the names that code refers to by their positions.
- `Expr.Emits` and `Stmt.Emits` are the code of expressions and statements: operands come in order,
  an operator right after its right operand, and a call after its arguments.
- `Stmt.EmitsAll.unique`: there is only one such code.
- `FunctionDef.emits_of_resolve?`: the body of an assembled function is the code of its statements.
-/

namespace Kelp

open Wat (Instr PlainInstr)

/-! ## Definitions -/

/-- The names that code refers to by their positions: those of the parameters and `let` statements
of a function, and those of all functions. -/
structure Scope where
  locals : List String
  functions : List String

mutual

/-- The code of an expression. -/
inductive Expr.Emits (Γ : Scope) : Expr Int → List Wasm.Instr → Prop
  | const {n : Int} (hn : InWord n) : Expr.Emits Γ (.const n) [.const (BitVec.ofInt 32 n)]
  | var {x : String} {k : Nat} (hx : Γ.locals[k]? = some x) : Expr.Emits Γ (.var x) [.localGet k]
  | sum {e : Expr Int} {es : List (Expr Int)} {is js : List Wasm.Instr} (first : Expr.Emits Γ e is)
      (more : Expr.EmitsMore Γ .add es js) : Expr.Emits Γ (.sum (e :: es)) (is ++ js)
  | product {e : Expr Int} {es : List (Expr Int)} {is js : List Wasm.Instr}
      (first : Expr.Emits Γ e is) (more : Expr.EmitsMore Γ .mul es js) :
      Expr.Emits Γ (.product (e :: es)) (is ++ js)
  | call {f : String} {k : Nat} {arguments : List (Expr Int)} {is : List Wasm.Instr}
      (hf : Γ.functions[k]? = some f) (operands : Expr.EmitsAll Γ arguments is) :
      Expr.Emits Γ (.call (.var f) [arguments]) (is ++ [.call k])

/-- The code of the further operands of a chain, each of them followed by the operator. -/
inductive Expr.EmitsMore (Γ : Scope) : Wasm.Instr → List (Expr Int) → List Wasm.Instr → Prop
  | nil {op : Wasm.Instr} : Expr.EmitsMore Γ op [] []
  | cons {op : Wasm.Instr} {e : Expr Int} {es : List (Expr Int)} {is js : List Wasm.Instr}
      (first : Expr.Emits Γ e is) (more : Expr.EmitsMore Γ op es js) :
      Expr.EmitsMore Γ op (e :: es) (is ++ op :: js)

/-- The code of several expressions, one after the other. -/
inductive Expr.EmitsAll (Γ : Scope) : List (Expr Int) → List Wasm.Instr → Prop
  | nil : Expr.EmitsAll Γ [] []
  | cons {e : Expr Int} {es : List (Expr Int)} {is js : List Wasm.Instr}
      (first : Expr.Emits Γ e is) (more : Expr.EmitsAll Γ es js) :
      Expr.EmitsAll Γ (e :: es) (is ++ js)

end

/-- The code of a statement. The value of an expression statement is left where it is. -/
inductive Stmt.Emits (Γ : Scope) : Stmt Int → List Wasm.Instr → Prop
  | bind {x : String} {k : Nat} {e : Expr Int} {is : List Wasm.Instr}
      (hx : Γ.locals[k]? = some x) (value : e.Emits Γ is) :
      Stmt.Emits Γ (.bind x e) (is ++ [.localSet k])
  | ret {e : Expr Int} {is : List Wasm.Instr} (value : e.Emits Γ is) :
      Stmt.Emits Γ (.ret e) (is ++ [.ret])
  | eval {e : Expr Int} {is : List Wasm.Instr} (value : e.Emits Γ is) : Stmt.Emits Γ (.eval e) is

/-- The code of several statements, one after the other. -/
def Stmt.EmitsAll (Γ : Scope) (ss : List (Stmt Int)) (is : List Wasm.Instr) : Prop :=
  ∃ parts, is = parts.flatten ∧ List.Forall₂ (Stmt.Emits Γ) ss parts

/-! ## Uniqueness -/

/-- Where names differ, a name is found at its position. -/
theorem idxOf?_of_getElem? {names : List String} (hnames : names.Nodup) {x : String} {k : Nat}
    (h : names[k]? = some x) : names.idxOf? x = some k := by
  obtain ⟨hk, rfl⟩ := List.getElem?_eq_some_iff.1 h
  refine List.idxOf?_eq_some_iff.2 ⟨hk, rfl, fun j hj hx => ?_⟩
  exact Nat.ne_of_lt hj ((List.Nodup.getElem_inj_iff hnames).1 hx)

/-- No name stands for two things, so that each has one position. -/
structure Scope.Distinct (Γ : Scope) : Prop where
  locals : Γ.locals.Nodup
  functions : Γ.functions.Nodup

theorem position_unique {names : List String} (hnames : names.Nodup) {x : String} {j k : Nat}
    (hj : names[j]? = some x) (hk : names[k]? = some x) : j = k :=
  Option.some.inj ((idxOf?_of_getElem? hnames hj).symm.trans (idxOf?_of_getElem? hnames hk))

section Unique

variable {Γ : Scope}

mutual

/-- Code is a function of its expression. The recursion is on the first of the two derivations, and
the expression then leaves one rule for the second. -/
theorem Expr.Emits.unique (hΓ : Γ.Distinct) : ∀ {e : Expr Int} {is js : List Wasm.Instr},
    e.Emits Γ is → e.Emits Γ js → is = js
  | _, _, _, .const _, .const _ => rfl
  | _, _, _, .var hx, .var hy => by rw [position_unique hΓ.locals hx hy]
  | _, _, _, .sum first more, .sum first' more' => by
    rw [first.unique hΓ first', more.unique hΓ more']
  | _, _, _, .product first more, .product first' more' => by
    rw [first.unique hΓ first', more.unique hΓ more']
  | _, _, _, .call hf operands, .call hg operands' => by
    rw [operands.unique hΓ operands', position_unique hΓ.functions hf hg]

/-- The same for the further operands of a chain. -/
theorem Expr.EmitsMore.unique (hΓ : Γ.Distinct) : ∀ {op : Wasm.Instr} {es : List (Expr Int)}
    {is js : List Wasm.Instr}, Expr.EmitsMore Γ op es is → Expr.EmitsMore Γ op es js → is = js
  | _, _, _, _, .nil, .nil => rfl
  | _, _, _, _, .cons first more, .cons first' more' => by
    rw [first.unique hΓ first', more.unique hΓ more']

/-- The same for several expressions. -/
theorem Expr.EmitsAll.unique (hΓ : Γ.Distinct) : ∀ {es : List (Expr Int)}
    {is js : List Wasm.Instr}, Expr.EmitsAll Γ es is → Expr.EmitsAll Γ es js → is = js
  | _, _, _, .nil, .nil => rfl
  | _, _, _, .cons first more, .cons first' more' => by
    rw [first.unique hΓ first', more.unique hΓ more']

end

/-- The same for a statement. -/
theorem Stmt.Emits.unique (hΓ : Γ.Distinct) {s : Stmt Int} {is js : List Wasm.Instr}
    (h : s.Emits Γ is) (h' : s.Emits Γ js) : is = js := by
  cases h with
  | bind hx value =>
    cases h' with
    | bind hy value' => rw [value.unique hΓ value', position_unique hΓ.locals hx hy]
  | ret value =>
    cases h' with
    | ret value' => rw [value.unique hΓ value']
  | eval value =>
    cases h' with
    | eval value' => exact value.unique hΓ value'

/-- **The code of a body is unique**, if no name stands for two things. -/
theorem Stmt.EmitsAll.unique (hΓ : Γ.Distinct) {ss : List (Stmt Int)} {is js : List Wasm.Instr}
    (h : Stmt.EmitsAll Γ ss is) (h' : Stmt.EmitsAll Γ ss js) : is = js := by
  obtain ⟨parts, rfl, hparts⟩ := h
  obtain ⟨parts', rfl, hparts'⟩ := h'
  have hunique : Relator.RightUnique (Stmt.Emits Γ) := fun _ _ _ h h' => h.unique hΓ h'
  rw [List.right_unique_forall₂' hunique hparts hparts']

end Unique

/-! ## Resolved instructions -/

/-- The instructions with their names replaced by positions. -/
def Scope.Resolves (Γ : Scope) (ps : List PlainInstr) (is : List Wasm.Instr) : Prop :=
  List.Forall₂ (fun p i => p.resolve? Γ.locals Γ.functions = some i) ps is

theorem getElem?_of_idxOf? {names : List String} {x : String} {k : Nat}
    (h : names.idxOf? x = some k) : names[k]? = some x := by
  obtain ⟨hk, hx, -⟩ := List.idxOf?_eq_some_iff.1 h
  rw [List.getElem?_eq_getElem hk, hx]

namespace Scope

variable {Γ : Scope} {is : List Wasm.Instr}

theorem Resolves.append {ps qs : List PlainInstr} (h : Γ.Resolves (ps ++ qs) is) :
    ∃ js ks, is = js ++ ks ∧ Γ.Resolves ps js ∧ Γ.Resolves qs ks :=
  exists_append_of_forall₂ h

theorem Resolves.singleton {p : PlainInstr} (h : Γ.Resolves [p] is) :
    ∃ i, is = [i] ∧ p.resolve? Γ.locals Γ.functions = some i := by
  cases h with
  | cons hi h =>
    cases h
    exact ⟨_, rfl, hi⟩

/-- Instructions behind others, of which the last is by itself. -/
theorem Resolves.concat {ps : List PlainInstr} {p : PlainInstr} (h : Γ.Resolves (ps ++ [p]) is) :
    ∃ js i, is = js ++ [i] ∧ Γ.Resolves ps js ∧ p.resolve? Γ.locals Γ.functions = some i := by
  obtain ⟨js, ks, rfl, hjs, hks⟩ := h.append
  obtain ⟨i, rfl, hi⟩ := hks.singleton
  exact ⟨js, i, rfl, hjs, hi⟩

/-- No field access resolves. -/
theorem Resolves.accessors_eq_nil {ps : List PlainInstr} {accessors : List String}
    (h : Γ.Resolves (ps ++ accessors.map .structGet) is) : accessors = [] := by
  obtain ⟨js, ks, -, -, hks⟩ := h.append
  cases accessors with
  | nil => rfl
  | cons x accessors => cases hks with | cons hx _ => cases hx

end Scope

/-! ## Expressions -/

section Expressions

variable {Γ : Scope}

mutual

/-- The code of an expression is what its instruction resolves to. Field accesses never resolve, so
there are none. -/
theorem Expr.emits_of_resolves : ∀ {e : Expr Int} {i : Instr} {is : List Wasm.Instr},
    e.WellFormed → e.lower = .ok i → Γ.Resolves i.flatten is → e.Emits Γ is
  | .sum [], _, _, _, h, _ => by simp [Expr.lower] at h
  | .sum (e :: es), i, is, hwell, h, his => by
    obtain ⟨a, ha, h⟩ := Expr.lower_sum_eq_ok.1 h
    obtain ⟨js, ks, rfl, hjs, hks⟩ := Expr.emitsMore_of_resolves rfl hwell.2.2 h his
    exact .sum (Expr.emits_of_resolves hwell.2.1 ha hjs) hks
  | .product [], _, _, _, h, _ => by simp [Expr.lower] at h
  | .product (e :: es), i, is, hwell, h, his => by
    obtain ⟨a, ha, h⟩ := Expr.lower_product_eq_ok.1 h
    obtain ⟨js, ks, rfl, hjs, hks⟩ := Expr.emitsMore_of_resolves rfl hwell.2.2 h his
    exact .product (Expr.emits_of_resolves hwell.2.1 ha hjs) hks
  | .field receiver accessors, i, is, hwell, h, his => by
    obtain ⟨object, -, rfl⟩ := Expr.lower_field_eq_ok.1 h
    rw [Wat.Instr.flatten_foldl_structGet] at his
    exact absurd his.accessors_eq_nil hwell.2.1
  | .call callee lists, i, is, hwell, h, his => by
    obtain ⟨f, arguments, rfl, rfl⟩ := Expr.lower_call_shape h
    obtain ⟨as, has, rfl⟩ := Expr.lower_call_eq_ok.1 h
    rw [Instr.flatten] at his
    obtain ⟨js, c, rfl, hjs, hc⟩ := his.concat
    obtain ⟨k, hk, rfl⟩ := Option.map_eq_some_iff.1 hc
    exact .call (getElem?_of_idxOf? hk) (Expr.emitsAll_of_resolves hwell.2.2.1 has hjs)
  | .var x, i, is, _, h, his => by
    cases h
    obtain ⟨c, rfl, hc⟩ := his.singleton
    obtain ⟨k, hk, rfl⟩ := Option.map_eq_some_iff.1 hc
    exact .var (getElem?_of_idxOf? hk)
  | .const n, i, is, _, h, his => by
    cases h
    obtain ⟨c, rfl, hc⟩ := his.singleton
    obtain ⟨w, hw, rfl⟩ := Option.map_eq_some_iff.1 hc
    -- only 32-bit integers are encoded
    have hn := inWord_of_word? hw
    rw [word?_of_inWord hn] at hw
    cases hw
    exact .const hn

/-- The code of a chain starts with that of the operands that were combined before. -/
theorem Expr.emitsMore_of_resolves {op : Wat.BinaryOp} {o : Wasm.Instr}
    (ho : (PlainInstr.binary op).resolve? Γ.locals Γ.functions = some o) :
    ∀ {es : List (Expr Int)} {left i : Instr} {is : List Wasm.Instr}, Expr.AllWellFormed es →
      Expr.lowerChain op left es = .ok i → Γ.Resolves i.flatten is →
      ∃ js ks, is = js ++ ks ∧ Γ.Resolves left.flatten js ∧ Expr.EmitsMore Γ o es ks
  | [], left, i, is, _, h, his => by
    cases h
    exact ⟨is, [], (List.append_nil is).symm, his, .nil⟩
  | e :: es, left, i, is, hwell, h, his => by
    obtain ⟨a, ha, h⟩ := Expr.lowerChain_cons_eq_ok.1 h
    -- seen from the operands behind `e`, what was combined before is all of `left`, `e` and the
    -- operator
    obtain ⟨js, ks, rfl, hjs, hks⟩ := Expr.emitsMore_of_resolves ho hwell.2 h his
    rw [Instr.flatten] at hjs
    obtain ⟨js, c, rfl, hjs, hc⟩ := hjs.concat
    obtain ⟨ls, as, rfl, hls, has⟩ := hjs.append
    rw [ho] at hc
    cases hc
    refine ⟨ls, as ++ o :: ks, by simp, hls, .cons ?_ hks⟩
    exact Expr.emits_of_resolves hwell.1 ha has

/-- Arguments come to their code one by one. -/
theorem Expr.emitsAll_of_resolves : ∀ {es : List (Expr Int)} {as : List Instr}
    {is : List Wasm.Instr}, Expr.AllWellFormed es → Expr.lowerAll es = .ok as →
    Γ.Resolves (Instr.flattenAll as) is → Expr.EmitsAll Γ es is
  | [], as, is, _, h, his => by
    cases h
    cases his
    exact .nil
  | e :: es, as, is, hwell, h, his => by
    obtain ⟨a, as, ha, has, rfl⟩ := Expr.lowerAll_cons_eq_ok.1 h
    rw [Instr.flattenAll] at his
    obtain ⟨js, ks, rfl, hjs, hks⟩ := his.append
    exact .cons (Expr.emits_of_resolves hwell.1 ha hjs)
      (Expr.emitsAll_of_resolves hwell.2 has hks)

end

end Expressions

/-! ## Functions -/

/-- The code of a statement is what its instruction resolves to. -/
theorem Stmt.emits_of_resolves {Γ : Scope} {s : Stmt Int} {i : Instr} {is : List Wasm.Instr}
    (hwell : s.WellFormed) (h : s.lower = .ok i) (his : Γ.Resolves i.flatten is) :
    s.Emits Γ is := by
  obtain ⟨x, e, a, rfl, ha, rfl⟩ | ⟨e, a, rfl, ha, rfl⟩ | ⟨e, rfl, ha⟩ := Stmt.lower_eq_ok h
  · obtain ⟨js, c, rfl, hjs, hc⟩ := his.concat
    obtain ⟨k, hk, rfl⟩ := Option.map_eq_some_iff.1 hc
    exact .bind (getElem?_of_idxOf? hk) (Expr.emits_of_resolves hwell.2 ha hjs)
  · obtain ⟨js, c, rfl, hjs, hc⟩ := his.concat
    cases hc
    exact .ret (Expr.emits_of_resolves hwell ha hjs)
  · exact .eval (Expr.emits_of_resolves hwell.2 ha his)

theorem Stmt.emitsAll_of_resolves {Γ : Scope} {ss : List (Stmt Int)} {as : List Instr}
    {is : List Wasm.Instr} (hwell : ∀ s ∈ ss, s.WellFormed)
    (h : List.Forall₂ (fun s i => Stmt.lower s = .ok i) ss as)
    (his : Γ.Resolves (Instr.flattenAll as) is) : Stmt.EmitsAll Γ ss is := by
  induction h generalizing is with
  | nil =>
    cases his
    exact ⟨[], rfl, .nil⟩
  | cons ha _ ih =>
    rw [List.forall_mem_cons] at hwell
    rw [Instr.flattenAll] at his
    obtain ⟨js, ks, rfl, hjs, hks⟩ := his.append
    obtain ⟨parts, rfl, hparts⟩ := ih hwell.2 hks
    exact ⟨js :: parts, rfl, .cons (Stmt.emits_of_resolves hwell.1 ha hjs) hparts⟩

/-- What the code of a function refers to, among all functions of its module. -/
def FunctionDef.scope (f : FunctionDef Int) (functions : List String) : Scope :=
  ⟨f.localNames, functions⟩

/-- **Assembled functions**: their names are different from each other, they have a local for each
`let`, and their body is the code of their statements. -/
theorem FunctionDef.emits_of_resolve? {typeIndex : Wasm.FuncType → Nat} {functions : List String}
    {f : FunctionDef Int} {g : Wat.Func} {g' : Wasm.Func} (hwell : f.WellFormed)
    (h : f.lower = .ok g) (hg : g.resolve? typeIndex functions = some g') :
    f.localNames.Nodup ∧ g'.locals = f.letNames.length ∧
      Stmt.EmitsAll (f.scope functions) f.body g'.body := by
  have hnames : Wat.distinct g.localNames = true := by
    unfold Wat.Func.resolve? at hg
    split at hg
    next hnames => exact hnames
    next => cases hg
  obtain ⟨t, is, -, his, rfl⟩ := Wat.Func.resolve?_eq_some hg
  obtain ⟨body, hbody, rfl⟩ := FunctionDef.lower_eq_ok h
  exact ⟨Wat.distinct_iff_nodup.1 hnames, rfl,
    Stmt.emitsAll_of_resolves hwell.body (mapM_eq_ok_iff.1 hbody) (mapM_eq_some_iff.1 his)⟩

end Kelp
