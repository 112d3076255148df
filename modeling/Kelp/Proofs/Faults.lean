import Kelp.Proofs.Lowering

/-!
# Faults

When lowering fails, and which error it reports.

- `Expr.WellShaped` and `Expr.Fault` judge the shape of an expression by itself, and `Expr.nodes`
  lists the expressions that lowering visits, each one before its parts.
- `Expr.lower_eq_error_iff`: an expression is refused with the fault of the first node that has one.
- `FunctionDef.lower_eq_error_iff`: in a function, a repeated `let` comes before all other faults.
- `Module.lower_faults`: a module is lowered exactly when all of its functions have a good shape,
  and refused with the error of the first function that has none.
-/

namespace Kelp

/-! ## Shapes -/

/-- The shape of an expression by itself: a chain has operands, and a call has a plain name and one
argument list. -/
def Expr.WellShaped : Expr Int → Prop
  | .sum operands => operands ≠ []
  | .product operands => operands ≠ []
  | .call callee lists => (∃ f, callee = .var f) ∧ lists.length = 1
  | _ => True

/-- What is wrong with the shape of an expression by itself. The argument lists of a call count only
if its callee is a plain name. -/
inductive Expr.Fault : Expr Int → LoweringError → Prop
  | emptySum : Expr.Fault (.sum []) (.emptyOperands .sum)
  | emptyProduct : Expr.Fault (.product []) (.emptyOperands .product)
  | unsupportedCallee {callee : Expr Int} {lists : List (List (Expr Int))}
      (h : ∀ f, callee ≠ .var f) :
      Expr.Fault (.call callee lists) (.unsupportedCallee callee.kind)
  | missingArgumentList {f : String} : Expr.Fault (.call (.var f) []) (.missingArgumentList f)
  | curriedCall {f : String} {lists : List (List (Expr Int))} (h : 2 ≤ lists.length) :
      Expr.Fault (.call (.var f) lists) (.curriedCall f lists.length)

mutual

/-- The expression and those that it is made of, each one before its parts and the parts from left
to right. The callee of a call is not among its parts, and neither are several argument lists. -/
def Expr.nodes : Expr Int → List (Expr Int)
  | .sum operands => .sum operands :: Expr.nodesAll operands
  | .product operands => .product operands :: Expr.nodesAll operands
  | .field receiver accessors => .field receiver accessors :: receiver.nodes
  | .call callee [arguments] => .call callee [arguments] :: Expr.nodesAll arguments
  | .call callee lists => [.call callee lists]
  | .var x => [.var x]
  | .const n => [.const n]

/-- The nodes of several expressions. -/
def Expr.nodesAll : List (Expr Int) → List (Expr Int)
  | [] => []
  | e :: es => e.nodes ++ Expr.nodesAll es

end

/-- The expression of a statement. -/
def Stmt.value : Stmt Int → Expr Int
  | .bind _ e => e
  | .ret e => e
  | .eval e => e

/-- The nodes of the expressions of a function, in the order of its statements. -/
def FunctionDef.nodes (f : FunctionDef Int) : List (Expr Int) :=
  f.body.flatMap fun s => s.value.nodes

/-- The first name of a list that stands further ahead too. The names before it all differ. -/
def FirstRepeated (names : List String) (name : String) : Prop :=
  ∃ before after, names = before ++ name :: after ∧ before.Nodup ∧ name ∈ before

/-- A function with a good shape: no two `let` statements bind the same name, and all of its nodes
have a good shape. -/
def FunctionDef.WellShaped (f : FunctionDef Int) : Prop :=
  f.letNames.Nodup ∧ ∀ e ∈ f.nodes, e.WellShaped

/-- What is wrong with the shape of a function: a name that is bound a second time, or else the
fault of its first node that has one. -/
inductive FunctionDef.Fault (f : FunctionDef Int) : LoweringError → Prop
  | duplicateLocal {name : String} (h : FirstRepeated f.letNames name) :
      FunctionDef.Fault f (.duplicateLocal f.name name)
  | node {error : LoweringError} (hnames : f.letNames.Nodup)
      (h : FirstFailure Expr.Fault f.nodes error) : FunctionDef.Fault f error

/-- A good shape is one without a fault. -/
theorem Expr.wellShaped_iff {e : Expr Int} : e.WellShaped ↔ ∀ error, ¬ e.Fault error := by
  cases e with
  | sum operands =>
    constructor
    · rintro h error ⟨⟩
      exact h rfl
    · rintro h rfl
      exact h _ .emptySum
  | product operands =>
    constructor
    · rintro h error ⟨⟩
      exact h rfl
    · rintro h rfl
      exact h _ .emptyProduct
  | field receiver accessors => exact iff_of_true trivial fun _ => nofun
  | call callee lists =>
    constructor
    · rintro ⟨⟨f, rfl⟩, hlists⟩ error herror
      cases herror with
      | unsupportedCallee h => exact h f rfl
      | missingArgumentList => cases hlists
      | curriedCall h => omega
    · intro h
      -- the callee is judged first, so the other faults are about a plain name
      have hcallee : ∃ f, callee = .var f := by
        by_contra hcallee
        exact h _ (.unsupportedCallee fun f hf => hcallee ⟨f, hf⟩)
      obtain ⟨f, rfl⟩ := hcallee
      refine ⟨⟨f, rfl⟩, ?_⟩
      match lists, h with
      | [], h => exact absurd .missingArgumentList (h _)
      | [_], _ => rfl
      | _ :: _ :: lists, h => exact absurd (.curriedCall (by simp)) (h _)
  | var x => exact iff_of_true trivial fun _ => nofun
  | const n => exact iff_of_true trivial fun _ => nofun

/-! ## Expressions -/

/-- A node has at most one fault. -/
theorem Expr.Fault.unique {e : Expr Int} {error error' : LoweringError} (h : e.Fault error)
    (h' : e.Fault error') : error = error' := by
  cases h with
  | emptySum =>
    cases h'
    rfl
  | emptyProduct =>
    cases h'
    rfl
  | unsupportedCallee hcallee =>
    cases h' with
    | unsupportedCallee => rfl
    | missingArgumentList => exact absurd rfl (hcallee _)
    | curriedCall => exact absurd rfl (hcallee _)
  | missingArgumentList =>
    cases h' with
    | unsupportedCallee hcallee => exact absurd rfl (hcallee _)
    | missingArgumentList => rfl
    | curriedCall hlists => exact absurd hlists (by simp)
  | curriedCall hlists =>
    cases h' with
    | unsupportedCallee hcallee => exact absurd rfl (hcallee _)
    | missingArgumentList => exact absurd hlists (by simp)
    | curriedCall => rfl

/-- A node with a fault is refused before its parts are looked at. -/
theorem Expr.lower_of_fault {e : Expr Int} {error : LoweringError} (h : e.Fault error) :
    e.lower = .error error := by
  cases h with
  | emptySum => rw [Expr.lower]
  | emptyProduct => rw [Expr.lower]
  | @unsupportedCallee callee lists hcallee =>
    cases callee with
    | var f => exact absurd rfl (hcallee f)
    | _ => simp [Expr.lower]
  | missingArgumentList => rw [Expr.lower]
  | @curriedCall f lists hlists =>
    rcases lists with _ | ⟨_, _ | ⟨_, lists⟩⟩
    · exact absurd hlists (by simp)
    · exact absurd hlists (by simp)
    · simp [Expr.lower]

/-- An expression is the first of its nodes. -/
theorem Expr.exists_nodes_eq_cons (e : Expr Int) : ∃ parts, e.nodes = e :: parts := by
  cases e with
  | call callee lists =>
    match lists with
    | [] => exact ⟨_, rfl⟩
    | [arguments] => exact ⟨_, rfl⟩
    | _ :: _ :: _ => exact ⟨_, rfl⟩
  | _ => exact ⟨_, rfl⟩

/-- Where the shape of a node is wrong, its parts do not count. -/
theorem Expr.lower_eq_error_iff_of_not_wellShaped {e : Expr Int} (h : ¬ e.WellShaped)
    {error : LoweringError} : e.lower = .error error ↔ FirstFailure Expr.Fault e.nodes error := by
  rw [Expr.wellShaped_iff] at h
  push Not at h
  obtain ⟨own, hown⟩ := h
  obtain ⟨parts, hparts⟩ := e.exists_nodes_eq_cons
  rw [Expr.lower_of_fault hown, hparts, firstFailure_cons]
  constructor
  · intro heq
    cases heq
    exact Or.inl hown
  · rintro (herror | ⟨hnone, -⟩)
    · rw [hown.unique herror]
    · exact absurd hown (hnone own)

/-- Where the shape of a node is good, the first fault is in its parts. -/
theorem firstFault_cons_iff {e : Expr Int} (he : e.WellShaped) {parts : List (Expr Int)}
    {error : LoweringError} :
    FirstFailure Expr.Fault (e :: parts) error ↔ FirstFailure Expr.Fault parts error := by
  have hnone := Expr.wellShaped_iff.1 he
  rw [firstFailure_cons, or_iff_right (hnone error), and_iff_right hnone]

/-- A fault of the first expression comes before those of the others. -/
theorem firstFault_append_iff {e : Expr Int} {others : List (Expr Int)} {error : LoweringError}
    (he : ∀ error, e.lower = .error error ↔ FirstFailure Expr.Fault e.nodes error) :
    FirstFailure Expr.Fault (e.nodes ++ others) error ↔
      e.lower = .error error ∨ (∃ i, e.lower = .ok i) ∧ FirstFailure Expr.Fault others error := by
  rw [firstFailure_append, exists_ok_iff]
  simp only [he, ne_eq]

mutual

/-- **Expressions** are refused with the fault of the first node that has one. -/
theorem Expr.lower_eq_error_iff : ∀ {e : Expr Int} {error : LoweringError},
    e.lower = .error error ↔ FirstFailure Expr.Fault e.nodes error
  | .sum [], error => by
    have hshape : ¬ (Expr.sum []).WellShaped := fun h => h rfl
    exact Expr.lower_eq_error_iff_of_not_wellShaped hshape
  | .sum (e :: es), error => by
    have hshape : (Expr.sum (e :: es)).WellShaped := List.cons_ne_nil e es
    have hchain := fun left => Expr.lowerChain_eq_error_iff .add es left error
    rw [Expr.lower, bind_eq_error_iff, Expr.nodes, firstFault_cons_iff hshape, Expr.nodesAll,
      firstFault_append_iff fun _ => e.lower_eq_error_iff]
    simp only [hchain, exists_and_right]
  | .product [], error => by
    have hshape : ¬ (Expr.product []).WellShaped := fun h => h rfl
    exact Expr.lower_eq_error_iff_of_not_wellShaped hshape
  | .product (e :: es), error => by
    have hshape : (Expr.product (e :: es)).WellShaped := List.cons_ne_nil e es
    have hchain := fun left => Expr.lowerChain_eq_error_iff .mul es left error
    rw [Expr.lower, bind_eq_error_iff, Expr.nodes, firstFault_cons_iff hshape, Expr.nodesAll,
      firstFault_append_iff fun _ => e.lower_eq_error_iff]
    simp only [hchain, exists_and_right]
  | .field receiver accessors, error => by
    have hshape : (Expr.field receiver accessors).WellShaped := trivial
    rw [Expr.lower, bind_eq_error_iff, Expr.nodes, firstFault_cons_iff hshape,
      receiver.lower_eq_error_iff]
    simp [pure, Except.pure]
  | .call callee [], error => by
    have hshape : ¬ (Expr.call callee []).WellShaped := fun h => absurd h.2 (by simp)
    exact Expr.lower_eq_error_iff_of_not_wellShaped hshape
  | .call callee [arguments], error => by
    -- with one argument list, it is the callee that decides about the shape
    by_cases hshape : (Expr.call callee [arguments]).WellShaped
    · obtain ⟨f, rfl⟩ := hshape.1
      rw [Expr.lower, bind_eq_error_iff, Expr.nodes, firstFault_cons_iff hshape,
        Expr.lowerAll_eq_error_iff arguments]
      simp [pure, Except.pure]
    · exact Expr.lower_eq_error_iff_of_not_wellShaped hshape
  | .call callee (first :: second :: lists), error => by
    have hshape : ¬ (Expr.call callee (first :: second :: lists)).WellShaped :=
      fun h => absurd h.2 (by simp)
    exact Expr.lower_eq_error_iff_of_not_wellShaped hshape
  | .var x, error => by
    have hshape : (Expr.var x).WellShaped := trivial
    rw [Expr.nodes, firstFault_cons_iff hshape, iff_false_right not_firstFailure_nil, Expr.lower]
    nofun
  | .const n, error => by
    have hshape : (Expr.const n).WellShaped := trivial
    rw [Expr.nodes, firstFault_cons_iff hshape, iff_false_right not_firstFailure_nil, Expr.lower]
    nofun

/-- A chain is refused for a fault of its further operands, whatever was combined before. -/
theorem Expr.lowerChain_eq_error_iff (op : Wat.BinaryOp) : ∀ (es : List (Expr Int))
    (left : Wat.Instr) (error : LoweringError), Expr.lowerChain op left es = .error error ↔
      FirstFailure Expr.Fault (Expr.nodesAll es) error
  | [], left, error => by
    rw [Expr.nodesAll, iff_false_right not_firstFailure_nil, Expr.lowerChain]
    nofun
  | e :: es, left, error => by
    have hchain := fun a => Expr.lowerChain_eq_error_iff op es (.binary op left a) error
    rw [Expr.lowerChain, bind_eq_error_iff, Expr.nodesAll,
      firstFault_append_iff fun _ => e.lower_eq_error_iff]
    simp only [hchain, exists_and_right]

/-- Arguments are refused for the first fault among them. -/
theorem Expr.lowerAll_eq_error_iff : ∀ (es : List (Expr Int)) {error : LoweringError},
    Expr.lowerAll es = .error error ↔ FirstFailure Expr.Fault (Expr.nodesAll es) error
  | [], error => by
    rw [Expr.nodesAll, iff_false_right not_firstFailure_nil, Expr.lowerAll]
    nofun
  | e :: es, error => by
    rw [Expr.lowerAll, bind_eq_error_iff, Expr.nodesAll,
      firstFault_append_iff fun _ => e.lower_eq_error_iff, ← Expr.lowerAll_eq_error_iff es]
    simp [bind_eq_error_iff, pure, Except.pure]

end

/-! ## Functions -/

/-- A statement is refused for a fault of its expression. -/
theorem Stmt.lower_eq_error_iff {s : Stmt Int} {error : LoweringError} :
    s.lower = .error error ↔ FirstFailure Expr.Fault s.value.nodes error := by
  rw [← Expr.lower_eq_error_iff]
  cases s with
  | bind name e =>
    rw [Stmt.lower, bind_eq_error_iff]
    simp [pure, Except.pure, Stmt.value]
  | ret e =>
    rw [Stmt.lower, bind_eq_error_iff]
    simp [pure, Except.pure, Stmt.value]
  | eval e => exact Iff.rfl

/-- The search for a repeated name, where `seen` holds the names from earlier on. -/
theorem firstRepeated_eq_some_iff {seen names : List String} {name : String} :
    firstRepeated seen names = some name ↔
      ∃ before after, names = before ++ name :: after ∧ before.Nodup ∧
        (∀ x ∈ before, x ∉ seen) ∧ (name ∈ seen ∨ name ∈ before) := by
  induction names generalizing seen with
  | nil => simp [firstRepeated]
  | cons x names ih =>
    by_cases hx : x ∈ seen
    · rw [firstRepeated, if_pos hx]
      constructor
      · intro h
        cases h
        exact ⟨[], names, rfl, .nil, nofun, Or.inl hx⟩
      · rintro ⟨before, after, heq, -, hbefore, -⟩
        cases before with
        | nil =>
          cases heq
          rfl
        | cons y before =>
          cases heq
          exact absurd hx (hbefore x List.mem_cons_self)
    · rw [firstRepeated, if_neg hx, ih]
      -- a new name joins both the names seen and the names before the repeated one
      constructor
      · rintro ⟨before, after, rfl, hnodup, hbefore, hname⟩
        have hfresh : x ∉ before := fun h => hbefore x h List.mem_cons_self
        refine ⟨x :: before, after, rfl, List.nodup_cons.2 ⟨hfresh, hnodup⟩, ?_, ?_⟩
        · refine List.forall_mem_cons.2 ⟨hx, ?_⟩
          exact fun y hy hseen => hbefore y hy (List.mem_cons_of_mem x hseen)
        · simp only [List.mem_cons] at hname ⊢
          tauto
      · rintro ⟨before, after, heq, hnodup, hbefore, hname⟩
        cases before with
        | nil =>
          cases heq
          exact absurd (hname.resolve_right List.not_mem_nil) hx
        | cons y before =>
          cases heq
          rw [List.nodup_cons] at hnodup
          rw [List.forall_mem_cons] at hbefore
          refine ⟨before, after, rfl, hnodup.2, ?_, ?_⟩
          · intro y hy hseen
            rcases List.mem_cons.1 hseen with rfl | hseen
            · exact hnodup.1 hy
            · exact hbefore.2 y hy hseen
          · simp only [List.mem_cons] at hname ⊢
            tauto

/-- Nothing is found where names differ from each other and from those of earlier on. -/
theorem firstRepeated_eq_none_iff {seen names : List String} :
    firstRepeated seen names = none ↔ names.Nodup ∧ ∀ x ∈ names, x ∉ seen := by
  induction names generalizing seen with
  | nil => simp [firstRepeated]
  | cons x names ih =>
    rw [firstRepeated, List.nodup_cons, List.forall_mem_cons]
    by_cases hx : x ∈ seen
    · simp [hx]
    · rw [if_neg hx, ih]
      simp only [List.mem_cons, not_or, forall_and]
      constructor
      · rintro ⟨hnodup, hne, hseen⟩
        exact ⟨⟨fun h => hne x h rfl, hnodup⟩, hx, hseen⟩
      · rintro ⟨⟨hfresh, hnodup⟩, -, hseen⟩
        refine ⟨hnodup, ?_, hseen⟩
        rintro y hy rfl
        exact hfresh hy

theorem firstRepeated_nil_eq_some_iff {names : List String} {name : String} :
    firstRepeated [] names = some name ↔ FirstRepeated names name := by
  rw [firstRepeated_eq_some_iff]
  simp [FirstRepeated]

/-- Names differ from each other if none is the first to be repeated. -/
theorem nodup_iff_not_firstRepeated {names : List String} :
    names.Nodup ↔ ∀ name, ¬ FirstRepeated names name := by
  have hnone := @firstRepeated_eq_none_iff [] names
  simp only [List.not_mem_nil, not_false_eq_true, implies_true, and_true] at hnone
  rw [← hnone, Option.eq_none_iff_forall_ne_some]
  exact forall_congr' fun name => not_congr firstRepeated_nil_eq_some_iff

/-- The locals of a function are refused for the name that is bound twice first. -/
theorem FunctionDef.locals_eq_error_iff {f : FunctionDef Int} {error : LoweringError} :
    f.locals = .error error ↔
      ∃ name, FirstRepeated f.letNames name ∧ error = .duplicateLocal f.name name := by
  unfold FunctionDef.locals
  constructor
  · intro h
    split at h
    next name hname =>
      cases h
      exact ⟨name, firstRepeated_nil_eq_some_iff.1 hname, rfl⟩
    next => cases h
  · rintro ⟨name, hname, rfl⟩
    rw [firstRepeated_nil_eq_some_iff.2 hname]

/-- **Functions** are refused for a repeated `let`, or else for the first fault of a node. -/
theorem FunctionDef.lower_eq_error_iff {f : FunctionDef Int} {error : LoweringError} :
    f.lower = .error error ↔ f.Fault error := by
  -- nodes are looked at only if the locals are good
  have hlocals : (∃ names, f.locals = .ok names) ↔ f.letNames.Nodup := by
    rw [exists_ok_iff, nodup_iff_not_firstRepeated]
    constructor
    · intro h name hname
      exact h _ (FunctionDef.locals_eq_error_iff.2 ⟨name, hname, rfl⟩)
    · intro h error herror
      obtain ⟨name, hname, -⟩ := FunctionDef.locals_eq_error_iff.1 herror
      exact h name hname
  have hbody : f.body.mapM Stmt.lower = .error error ↔ FirstFailure Expr.Fault f.nodes error := by
    rw [mapM_eq_error_iff, FunctionDef.nodes, firstFailure_flatMap]
    simp only [Stmt.lower_eq_error_iff]
  rw [FunctionDef.lower, bind_eq_error_iff, FunctionDef.locals_eq_error_iff]
  simp only [bind_eq_error_iff, hbody, pure, Except.pure, reduceCtorEq, and_false, exists_false,
    or_false, exists_and_right, hlocals]
  constructor
  · rintro (⟨name, hname, rfl⟩ | ⟨hnames, hnode⟩)
    · exact .duplicateLocal hname
    · exact .node hnames hnode
  · rintro (hname | ⟨hnames, hnode⟩)
    · exact Or.inl ⟨_, hname, rfl⟩
    · exact Or.inr ⟨hnames, hnode⟩

/-- A function with a good shape has no fault. -/
theorem FunctionDef.wellShaped_iff {f : FunctionDef Int} :
    f.WellShaped ↔ ∀ error, ¬ f.Fault error := by
  have hnodes := @forall_not_firstFailure_iff _ _ Expr.Fault f.nodes
  simp only [← Expr.wellShaped_iff] at hnodes
  rw [FunctionDef.WellShaped, ← hnodes]
  constructor
  · rintro ⟨hnames, hnone⟩ error (hname | ⟨-, hnode⟩)
    · exact nodup_iff_not_firstRepeated.1 hnames _ hname
    · exact hnone error hnode
  · intro h
    have hnames : f.letNames.Nodup :=
      nodup_iff_not_firstRepeated.2 fun name hname => h _ (.duplicateLocal hname)
    exact ⟨hnames, fun error hnode => h error (.node hnames hnode)⟩

/-! ## Modules -/

/-- Declarations of other kinds are never refused. -/
theorem Module.lower_eq_error_iff {m : Module} {importModule : String} {error : LoweringError} :
    m.lower importModule = .error error ↔
      FirstFailure FunctionDef.Fault m.functions error := by
  rw [Module.lower, bind_eq_error_iff, mapM_eq_error_iff]
  simp only [FunctionDef.lower_eq_error_iff, pure, Except.pure, reduceCtorEq, and_false,
    exists_false, or_false]

/-- A module is lowered if no function has a fault. -/
theorem Module.exists_lower_iff {m : Module} {importModule : String} :
    (∃ t, m.lower importModule = .ok t) ↔ ∀ f ∈ m.functions, f.WellShaped := by
  rw [exists_ok_iff]
  simp only [ne_eq, Module.lower_eq_error_iff, forall_not_firstFailure_iff,
    FunctionDef.wellShaped_iff]

/-- **Lowering a module** succeeds exactly when all functions have a good shape. Otherwise it
reports the fault of the first function that has one. -/
theorem Module.lower_faults (m : Module) (importModule : String) :
    ((∃ t, m.lower importModule = .ok t) ↔ ∀ f ∈ m.functions, f.WellShaped) ∧
    ∀ error, m.lower importModule = .error error ↔
      ∃ before f after, m.functions = before ++ f :: after ∧ (∀ g ∈ before, g.WellShaped) ∧
        f.Fault error := by
  refine ⟨Module.exists_lower_iff, fun error => ?_⟩
  rw [Module.lower_eq_error_iff, FirstFailure]
  simp only [FunctionDef.wellShaped_iff]

end Kelp
