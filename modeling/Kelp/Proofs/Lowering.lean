import Kelp.Lowering
import Kelp.Proofs.Except

/-!
# What lowering yields

Inversion of the lowering functions: from a successful lowering, the lowerings of the parts that it
was put together from.
-/

namespace Kelp

/-! ## Expressions -/

theorem Expr.lower_sum_eq_ok {e : Expr Int} {es : List (Expr Int)} {i : Wat.Instr} :
    (Expr.sum (e :: es)).lower = .ok i ↔
      ∃ a, e.lower = .ok a ∧ Expr.lowerChain .add a es = .ok i := by
  show (e.lower >>= fun a => Expr.lowerChain .add a es) = .ok i ↔ _
  rw [bind_eq_ok_iff]

theorem Expr.lower_product_eq_ok {e : Expr Int} {es : List (Expr Int)} {i : Wat.Instr} :
    (Expr.product (e :: es)).lower = .ok i ↔
      ∃ a, e.lower = .ok a ∧ Expr.lowerChain .mul a es = .ok i := by
  show (e.lower >>= fun a => Expr.lowerChain .mul a es) = .ok i ↔ _
  rw [bind_eq_ok_iff]

theorem Expr.lower_field_eq_ok {receiver : Expr Int} {accessors : List String} {i : Wat.Instr} :
    (Expr.field receiver accessors).lower = .ok i ↔ ∃ object, receiver.lower = .ok object ∧
      i = accessors.foldl (fun object field => .structGet field object) object := by
  show (receiver.lower >>= fun object => pure (accessors.foldl _ object)) = .ok i ↔ _
  rw [bind_eq_ok_iff]
  simp only [pure_eq_ok_iff, eq_comm (a := i)]

theorem Expr.lower_call_eq_ok {f : String} {arguments : List (Expr Int)} {i : Wat.Instr} :
    (Expr.call (.var f) [arguments]).lower = .ok i ↔
      ∃ is, Expr.lowerAll arguments = .ok is ∧ i = .call f is := by
  show (Expr.lowerAll arguments >>= fun is => pure (Wat.Instr.call f is)) = .ok i ↔ _
  rw [bind_eq_ok_iff]
  simp only [pure_eq_ok_iff, eq_comm (a := i)]

/-- One more operand is combined with all before it, and goes on as their left side. -/
theorem Expr.lowerChain_cons_eq_ok {op : Wat.BinaryOp} {left : Wat.Instr} {e : Expr Int}
    {es : List (Expr Int)} {i : Wat.Instr} :
    Expr.lowerChain op left (e :: es) = .ok i ↔
      ∃ a, e.lower = .ok a ∧ Expr.lowerChain op (.binary op left a) es = .ok i := by
  show (e.lower >>= fun a => Expr.lowerChain op (.binary op left a) es) = .ok i ↔ _
  rw [bind_eq_ok_iff]

/-- Arguments are lowered one by one. -/
theorem Expr.lowerAll_cons_eq_ok {e : Expr Int} {es : List (Expr Int)} {is : List Wat.Instr} :
    Expr.lowerAll (e :: es) = .ok is ↔
      ∃ i js, e.lower = .ok i ∧ Expr.lowerAll es = .ok js ∧ is = i :: js := by
  rw [Expr.lowerAll, bind_eq_ok_iff]
  simp only [bind_eq_ok_iff, pure_eq_ok_iff]
  constructor
  · rintro ⟨i, hi, js, hjs, rfl⟩
    exact ⟨i, js, hi, hjs, rfl⟩
  · rintro ⟨i, js, hi, hjs, rfl⟩
    exact ⟨i, hi, js, hjs, rfl⟩

/-- A call that is lowered has a plain name and one argument list. -/
theorem Expr.lower_call_shape {callee : Expr Int} {lists : List (List (Expr Int))} {i : Wat.Instr}
    (h : (Expr.call callee lists).lower = .ok i) :
    ∃ f arguments, callee = .var f ∧ lists = [arguments] := by
  cases callee with
  | var f =>
    match lists, h with
    | [], h => simp [Expr.lower] at h
    | [arguments], _ => exact ⟨f, arguments, rfl, rfl⟩
    | _ :: _ :: _, h => simp [Expr.lower] at h
  | sum _ => simp [Expr.lower] at h
  | product _ => simp [Expr.lower] at h
  | field _ _ => simp [Expr.lower] at h
  | call _ _ => simp [Expr.lower] at h
  | const _ => simp [Expr.lower] at h

/-! ## Statements and functions -/

/-- What a statement is lowered to, by its kind. -/
theorem Stmt.lower_eq_ok {s : Stmt Int} {i : Wat.Instr} (h : s.lower = .ok i) :
    (∃ x e a, s = .bind x e ∧ e.lower = .ok a ∧ i = .localSet x a) ∨
      (∃ e a, s = .ret e ∧ e.lower = .ok a ∧ i = .ret a) ∨
      (∃ e, s = .eval e ∧ e.lower = .ok i) := by
  cases s with
  | bind x e =>
    obtain ⟨a, ha, h⟩ := bind_eq_ok_iff.1 h
    cases h
    exact .inl ⟨x, e, a, rfl, ha, rfl⟩
  | ret e =>
    obtain ⟨a, ha, h⟩ := bind_eq_ok_iff.1 h
    cases h
    exact .inr (.inl ⟨e, a, rfl, ha, rfl⟩)
  | eval e => exact .inr (.inr ⟨e, rfl, h⟩)

/-- The parts of a lowered function. -/
theorem FunctionDef.lower_eq_ok {f : FunctionDef Int} {g : Wat.Func} (h : f.lower = .ok g) :
    ∃ body, f.body.mapM Stmt.lower = .ok body ∧ g =
      { name := f.name, params := f.params, result := f.result, locals := f.letNames, body } := by
  rw [FunctionDef.lower, bind_eq_ok_iff] at h
  obtain ⟨locals, hlocals, h⟩ := h
  rw [bind_eq_ok_iff] at h
  obtain ⟨body, hbody, h⟩ := h
  rw [pure_eq_ok_iff] at h
  -- checking the `let` names for repetitions does not change them
  have hnames : locals = f.letNames := by
    unfold FunctionDef.locals at hlocals
    split at hlocals
    · cases hlocals
    · cases hlocals
      rfl
  exact ⟨body, hbody, by rw [← h, hnames]⟩

end Kelp
