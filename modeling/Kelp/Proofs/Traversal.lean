import Kelp.Proofs.Except
import Kelp.Syntax

/-!
# Traversals

Visiting the constants of a tree succeeds exactly when it does for all parts of the tree, and the
result has the same shape. It fails with the error of the first constant that is refused:
`Expr.constants` and its companions list the constants in source order, and
`Program.traverse_eq_error_iff` says so for whole programs. `Program.constants_of_traverse` says
what the constants become where none is refused.
-/

namespace Kelp

section Traversal

variable {κ ν ε : Type} {f : κ → Except ε ν}

/-- A computation whose result is passed on to a function succeeds if it does. -/
theorem map_eq_ok_iff {α β : Type} {x : Except ε α} {g : α → β} {b : β} :
    (do return g (← x)) = .ok b ↔ ∃ a, x = .ok a ∧ b = g a := by
  rw [bind_eq_ok_iff]
  simp only [pure_eq_ok_iff, eq_comm (a := b)]

/-- One computation after the other succeeds if both do. -/
theorem seq_eq_ok_iff {α β γ : Type} {x : Except ε α} {y : Except ε β} {g : α → β → γ} {c : γ} :
    (do let a ← x; return g a (← y)) = .ok c ↔ ∃ a b, x = .ok a ∧ y = .ok b ∧ c = g a b := by
  rw [bind_eq_ok_iff]
  simp only [map_eq_ok_iff, exists_and_left]

/-! ## Expressions

When a node is traversed successfully, and what becomes of it, one lemma for each constructor. Later
proofs go through these and never unfold the traversal. -/

theorem Expr.traverse_sum_eq_ok_iff {es : List (Expr κ)} {e' : Expr ν} :
    (Expr.sum es).traverse f = .ok e' ↔
      ∃ es', Expr.traverseAll f es = .ok es' ∧ e' = .sum es' :=
  map_eq_ok_iff

theorem Expr.traverse_product_eq_ok_iff {es : List (Expr κ)} {e' : Expr ν} :
    (Expr.product es).traverse f = .ok e' ↔
      ∃ es', Expr.traverseAll f es = .ok es' ∧ e' = .product es' :=
  map_eq_ok_iff

theorem Expr.traverse_field_eq_ok_iff {e : Expr κ} {names : List String} {e' : Expr ν} :
    (Expr.field e names).traverse f = .ok e' ↔
      ∃ r, e.traverse f = .ok r ∧ e' = .field r names :=
  map_eq_ok_iff

theorem Expr.traverse_call_eq_ok_iff {e : Expr κ} {ess : List (List (Expr κ))} {e' : Expr ν} :
    (Expr.call e ess).traverse f = .ok e' ↔
      ∃ c l, e.traverse f = .ok c ∧ Expr.traverseLists f ess = .ok l ∧ e' = .call c l :=
  seq_eq_ok_iff

theorem Expr.traverse_var_eq_ok_iff {x : String} {e' : Expr ν} :
    (Expr.var x : Expr κ).traverse f = .ok e' ↔ e' = .var x :=
  pure_eq_ok_iff.trans eq_comm

theorem Expr.traverse_const_eq_ok_iff {k : κ} {e' : Expr ν} :
    (Expr.const k).traverse f = .ok e' ↔ ∃ n, f k = .ok n ∧ e' = .const n :=
  map_eq_ok_iff

theorem Expr.traverseAll_nil_eq_ok_iff {es' : List (Expr ν)} :
    Expr.traverseAll f ([] : List (Expr κ)) = .ok es' ↔ es' = [] :=
  pure_eq_ok_iff.trans eq_comm

theorem Expr.traverseAll_cons_eq_ok_iff {e : Expr κ} {es : List (Expr κ)} {es' : List (Expr ν)} :
    Expr.traverseAll f (e :: es) = .ok es' ↔
      ∃ a as, e.traverse f = .ok a ∧ Expr.traverseAll f es = .ok as ∧ es' = a :: as :=
  seq_eq_ok_iff

theorem Expr.traverseLists_nil_eq_ok_iff {ess' : List (List (Expr ν))} :
    Expr.traverseLists f ([] : List (List (Expr κ))) = .ok ess' ↔ ess' = [] :=
  pure_eq_ok_iff.trans eq_comm

theorem Expr.traverseLists_cons_eq_ok_iff {es : List (Expr κ)} {ess : List (List (Expr κ))}
    {ess' : List (List (Expr ν))} :
    Expr.traverseLists f (es :: ess) = .ok ess' ↔
      ∃ a as, Expr.traverseAll f es = .ok a ∧ Expr.traverseLists f ess = .ok as ∧
        ess' = a :: as :=
  seq_eq_ok_iff

/-! ## Statements and declarations

The same for the nodes above expressions. -/

theorem Stmt.traverse_bind_eq_ok_iff {x : String} {e : Expr κ} {s' : Stmt ν} :
    (Stmt.bind x e).traverse f = .ok s' ↔ ∃ a, e.traverse f = .ok a ∧ s' = .bind x a :=
  map_eq_ok_iff

theorem Stmt.traverse_ret_eq_ok_iff {e : Expr κ} {s' : Stmt ν} :
    (Stmt.ret e).traverse f = .ok s' ↔ ∃ a, e.traverse f = .ok a ∧ s' = .ret a :=
  map_eq_ok_iff

theorem Stmt.traverse_eval_eq_ok_iff {e : Expr κ} {s' : Stmt ν} :
    (Stmt.eval e).traverse f = .ok s' ↔ ∃ a, e.traverse f = .ok a ∧ s' = .eval a :=
  map_eq_ok_iff

theorem Decl.traverse_struct_eq_ok_iff {d : StructDef} {d' : Decl ν} :
    (Decl.struct d : Decl κ).traverse f = .ok d' ↔ d' = .struct d :=
  pure_eq_ok_iff.trans eq_comm

/-- Of a function only the body changes. -/
theorem Decl.traverse_function_eq_ok_iff {d : FunctionDef κ} {d' : Decl ν} :
    (Decl.function d).traverse f = .ok d' ↔
      ∃ body, d.body.mapM (Stmt.traverse f) = .ok body ∧
        d' = .function ⟨d.isPublic, d.name, d.params, d.returnType, body⟩ := by
  rw [Decl.traverse, bind_eq_ok_iff]
  simp only [FunctionDef.traverse, bind_eq_ok_iff, pure_eq_ok_iff, eq_comm (a := d')]
  constructor
  · rintro ⟨_, ⟨body, hbody, rfl⟩, h⟩
    exact ⟨body, hbody, h⟩
  · rintro ⟨body, hbody, h⟩
    exact ⟨_, ⟨body, hbody, rfl⟩, h⟩

theorem Decl.traverse_host_eq_ok_iff {d : HostFunction} {d' : Decl ν} :
    (Decl.host d : Decl κ).traverse f = .ok d' ↔ d' = .host d :=
  pure_eq_ok_iff.trans eq_comm

/-! ## Constants -/

mutual

/-- The constants of an expression, from left to right. -/
def Expr.constants : Expr κ → List κ
  | .sum operands => Expr.constantsAll operands
  | .product operands => Expr.constantsAll operands
  | .field receiver _ => receiver.constants
  | .call callee arguments => callee.constants ++ Expr.constantsLists arguments
  | .var _ => []
  | .const value => [value]

/-- The constants of a list of expressions. -/
def Expr.constantsAll : List (Expr κ) → List κ
  | [] => []
  | e :: es => e.constants ++ Expr.constantsAll es

/-- The constants of a list of argument lists. -/
def Expr.constantsLists : List (List (Expr κ)) → List κ
  | [] => []
  | es :: ess => Expr.constantsAll es ++ Expr.constantsLists ess

end

/-- The constants of a statement. -/
def Stmt.constants : Stmt κ → List κ
  | .bind _ value => value.constants
  | .ret value => value.constants
  | .eval value => value.constants

/-- The constants of a declaration. -/
def Decl.constants : Decl κ → List κ
  | .struct _ => []
  | .function d => d.body.flatMap Stmt.constants
  | .host _ => []

/-- The constants of a program, in source order. -/
def Program.constants (p : Program κ) : List κ := p.flatMap Decl.constants

/-! ## Failing traversals -/

/-- A constant is refused with an error. -/
def Refuses (f : κ → Except ε ν) (k : κ) (e : ε) : Prop := f k = .error e

/-- A result that is passed on to a function brings no new error. -/
theorem map_eq_error_iff {α β : Type} {x : Except ε α} {g : α → β} {e : ε} :
    (do return g (← x)) = .error e ↔ x = .error e := by
  rw [bind_eq_error_iff]
  simp [pure, Except.pure]

/-- One computation after the other fails as the first part that fails. -/
theorem seq_eq_error_iff {α β γ : Type} {x : Except ε α} {y : Except ε β} {g : α → β → γ}
    {ks ls : List κ} {e : ε} (hx : ∀ e, x = .error e ↔ FirstFailure (Refuses f) ks e)
    (hy : ∀ e, y = .error e ↔ FirstFailure (Refuses f) ls e) :
    (do let a ← x; return g a (← y)) = .error e ↔ FirstFailure (Refuses f) (ks ++ ls) e := by
  rw [bind_eq_error_iff, firstFailure_append]
  simp only [map_eq_error_iff, hy, ← hx, exists_and_right, exists_ok_iff, ne_eq]

mutual

/-- An expression is refused for its first constant that is refused. -/
theorem Expr.traverse_eq_error_iff : ∀ (e : Expr κ) (error : ε),
    e.traverse f = .error error ↔ FirstFailure (Refuses f) e.constants error
  | .sum operands, error => by
    rw [Expr.traverse, map_eq_error_iff, Expr.constants, Expr.traverseAll_eq_error_iff]
  | .product operands, error => by
    rw [Expr.traverse, map_eq_error_iff, Expr.constants, Expr.traverseAll_eq_error_iff]
  | .field receiver accessors, error => by
    rw [Expr.traverse, map_eq_error_iff, Expr.constants, Expr.traverse_eq_error_iff]
  | .call callee arguments, error => by
    rw [Expr.traverse, Expr.constants]
    -- the callee comes first, in the text and in the traversal
    exact seq_eq_error_iff callee.traverse_eq_error_iff
      (Expr.traverseLists_eq_error_iff arguments)
  | .var name, error => by
    -- a name has no constant, so it is never refused
    rw [Expr.constants, iff_false_right not_firstFailure_nil, Expr.traverse]
    intro h
    cases h
  | .const value, error => by
    rw [Expr.traverse, map_eq_error_iff, Expr.constants, firstFailure_cons,
      or_iff_left fun h => not_firstFailure_nil h.2]
    rfl

/-- The same for a list of expressions. -/
theorem Expr.traverseAll_eq_error_iff : ∀ (es : List (Expr κ)) (error : ε),
    Expr.traverseAll f es = .error error ↔
      FirstFailure (Refuses f) (Expr.constantsAll es) error
  | [], error => by
    rw [Expr.constantsAll, iff_false_right not_firstFailure_nil, Expr.traverseAll]
    intro h
    cases h
  | e :: es, error => by
    rw [Expr.traverseAll, Expr.constantsAll]
    exact seq_eq_error_iff e.traverse_eq_error_iff (Expr.traverseAll_eq_error_iff es)

/-- The same for a list of argument lists. -/
theorem Expr.traverseLists_eq_error_iff : ∀ (ess : List (List (Expr κ))) (error : ε),
    Expr.traverseLists f ess = .error error ↔
      FirstFailure (Refuses f) (Expr.constantsLists ess) error
  | [], error => by
    rw [Expr.constantsLists, iff_false_right not_firstFailure_nil, Expr.traverseLists]
    intro h
    cases h
  | es :: ess, error => by
    rw [Expr.traverseLists, Expr.constantsLists]
    exact seq_eq_error_iff (Expr.traverseAll_eq_error_iff es)
      (Expr.traverseLists_eq_error_iff ess)

end

/-- A statement is refused as the expression in it. -/
theorem Stmt.traverse_eq_error_iff (s : Stmt κ) (error : ε) :
    s.traverse f = .error error ↔ FirstFailure (Refuses f) s.constants error := by
  cases s with
  | bind name value =>
    rw [Stmt.traverse, map_eq_error_iff, Stmt.constants, Expr.traverse_eq_error_iff]
  | ret value => rw [Stmt.traverse, map_eq_error_iff, Stmt.constants, Expr.traverse_eq_error_iff]
  | eval value => rw [Stmt.traverse, map_eq_error_iff, Stmt.constants, Expr.traverse_eq_error_iff]

/-- A declaration is refused for the first constant of its body. Only functions have one. -/
theorem Decl.traverse_eq_error_iff (d : Decl κ) (error : ε) :
    d.traverse f = .error error ↔ FirstFailure (Refuses f) d.constants error := by
  cases d with
  | struct d =>
    rw [Decl.constants, iff_false_right not_firstFailure_nil, Decl.traverse]
    intro h
    cases h
  | function d =>
    rw [Decl.traverse, map_eq_error_iff, FunctionDef.traverse, map_eq_error_iff, Decl.constants,
      mapM_eq_error_iff, firstFailure_flatMap]
    simp only [Stmt.traverse_eq_error_iff]
  | host d =>
    rw [Decl.constants, iff_false_right not_firstFailure_nil, Decl.traverse]
    intro h
    cases h

/-- **Programs** are refused for the first constant that is refused, in source order. -/
theorem Program.traverse_eq_error_iff (p : Program κ) (error : ε) :
    p.traverse f = .error error ↔ FirstFailure (Refuses f) p.constants error := by
  rw [Program.traverse, mapM_eq_error_iff, Program.constants, firstFailure_flatMap]
  simp only [Decl.traverse_eq_error_iff]

/-! ## Constants of the result -/

mutual

/-- The constants of the result are the images of the constants, in order. -/
theorem Expr.constants_of_traverse : ∀ {e : Expr κ} {e' : Expr ν}, e.traverse f = .ok e' →
    List.Forall₂ (fun k n => f k = .ok n) e.constants e'.constants
  | .sum operands, e', h => by
    obtain ⟨operands', hoperands, rfl⟩ := Expr.traverse_sum_eq_ok_iff.1 h
    exact Expr.constantsAll_of_traverse hoperands
  | .product operands, e', h => by
    obtain ⟨operands', hoperands, rfl⟩ := Expr.traverse_product_eq_ok_iff.1 h
    exact Expr.constantsAll_of_traverse hoperands
  | .field receiver accessors, e', h => by
    obtain ⟨receiver', hreceiver, rfl⟩ := Expr.traverse_field_eq_ok_iff.1 h
    rw [Expr.constants, Expr.constants]
    exact Expr.constants_of_traverse hreceiver
  | .call callee arguments, e', h => by
    obtain ⟨callee', arguments', hcallee, harguments, rfl⟩ := Expr.traverse_call_eq_ok_iff.1 h
    exact List.rel_append (Expr.constants_of_traverse hcallee)
      (Expr.constantsLists_of_traverse harguments)
  | .var name, e', h => by
    rw [Expr.traverse_var_eq_ok_iff.1 h]
    exact .nil
  | .const value, e', h => by
    obtain ⟨n, hn, rfl⟩ := Expr.traverse_const_eq_ok_iff.1 h
    exact .cons hn .nil

/-- The same for a list of expressions. -/
theorem Expr.constantsAll_of_traverse : ∀ {es : List (Expr κ)} {es' : List (Expr ν)},
    Expr.traverseAll f es = .ok es' →
      List.Forall₂ (fun k n => f k = .ok n) (Expr.constantsAll es) (Expr.constantsAll es')
  | [], es', h => by
    rw [Expr.traverseAll_nil_eq_ok_iff.1 h]
    exact .nil
  | e :: es, es', h => by
    obtain ⟨a, as, ha, has, rfl⟩ := Expr.traverseAll_cons_eq_ok_iff.1 h
    exact List.rel_append (Expr.constants_of_traverse ha) (Expr.constantsAll_of_traverse has)

/-- The same for a list of argument lists. -/
theorem Expr.constantsLists_of_traverse : ∀ {ess : List (List (Expr κ))}
    {ess' : List (List (Expr ν))}, Expr.traverseLists f ess = .ok ess' →
      List.Forall₂ (fun k n => f k = .ok n) (Expr.constantsLists ess) (Expr.constantsLists ess')
  | [], ess', h => by
    rw [Expr.traverseLists_nil_eq_ok_iff.1 h]
    exact .nil
  | es :: ess, ess', h => by
    obtain ⟨a, as, ha, has, rfl⟩ := Expr.traverseLists_cons_eq_ok_iff.1 h
    exact List.rel_append (Expr.constantsAll_of_traverse ha) (Expr.constantsLists_of_traverse has)

end

theorem Stmt.constants_of_traverse {s : Stmt κ} {s' : Stmt ν} (h : s.traverse f = .ok s') :
    List.Forall₂ (fun k n => f k = .ok n) s.constants s'.constants := by
  cases s with
  | bind name value =>
    obtain ⟨a, ha, rfl⟩ := Stmt.traverse_bind_eq_ok_iff.1 h
    exact Expr.constants_of_traverse ha
  | ret value =>
    obtain ⟨a, ha, rfl⟩ := Stmt.traverse_ret_eq_ok_iff.1 h
    exact Expr.constants_of_traverse ha
  | eval value =>
    obtain ⟨a, ha, rfl⟩ := Stmt.traverse_eval_eq_ok_iff.1 h
    exact Expr.constants_of_traverse ha

/-- The same for a declaration. -/
theorem Decl.constants_of_traverse {d : Decl κ} {d' : Decl ν} (h : d.traverse f = .ok d') :
    List.Forall₂ (fun k n => f k = .ok n) d.constants d'.constants := by
  cases d with
  | struct d =>
    rw [Decl.traverse_struct_eq_ok_iff.1 h]
    exact .nil
  | function d =>
    obtain ⟨body, hbody, rfl⟩ := Decl.traverse_function_eq_ok_iff.1 h
    exact List.rel_flatMap (mapM_eq_ok_iff.1 hbody) fun _ _ => Stmt.constants_of_traverse
  | host d =>
    rw [Decl.traverse_host_eq_ok_iff.1 h]
    exact .nil

/-- Where no constant is refused, each one is replaced by what it is mapped to. -/
theorem Program.constants_of_traverse {p : Program κ} {p' : Program ν}
    (h : p.traverse f = .ok p') :
    List.Forall₂ (fun k n => f k = .ok n) p.constants p'.constants :=
  List.rel_flatMap (mapM_eq_ok_iff.1 h) fun _ _ => Decl.constants_of_traverse

end Traversal

end Kelp
