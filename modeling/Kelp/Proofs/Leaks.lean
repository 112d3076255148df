import Kelp.Proofs.EntryPoints
import Kelp.Proofs.Wat.Leaks

/-!
# Values that leak between statements

The value of an expression statement is not dropped, and calls are not checked against the number
of their arguments. A valid module may therefore have a statement that leaves a value on the operand
stack, and a later one whose call takes it as an operand. This module says in which functions of an
accepted source that does not happen.

- `Stmt.Balanced` is the condition on a statement: every call in it passes as many arguments as its
  callee takes, callees in value position have a result, and the callee of an expression statement
  has none. `FunctionDef.Balanced` asks it of the statements up to the first `return`.
- `Expr.fits_lower_iff`, `Stmt.balanced_lower_iff`: lowering carries the condition over to the
  instructions.
- `compileToBinary_leakFree_iff`: the functions of an accepted source that do not leak are the
  balanced ones. `leakingSource` is accepted and has a function that leaks.
-/

namespace Kelp

open Wat (Instr Arity)

/-! ## Balanced functions -/

/-- A statement that takes its own operands and leaves nothing, in a function that has a result or
has none. The value of a `return` in a function without a result does not count. -/
def Stmt.Balanced (Γ : String → Option Arity) (hasResult : Bool) : Stmt Int → Prop
  | .bind _ e => e.OnWords Γ
  | .ret e => if hasResult then e.OnWords Γ else e.OnWordsAsStatement Γ
  | .eval (.call (.var f) [arguments]) =>
    Takes Γ f arguments.length ∧ Expr.AllOnWords Γ arguments ∧ ¬ HasResult Γ f
  | .eval _ => False

/-- The statements up to the first `return`. Those after it are never run. -/
def reachable : List (Stmt Int) → List (Stmt Int)
  | [] => []
  | .ret e :: _ => [.ret e]
  | s :: rest => s :: reachable rest

theorem reachable_cons {s : Stmt Int} (hs : ∀ e, s ≠ .ret e) (rest : List (Stmt Int)) :
    reachable (s :: rest) = s :: reachable rest := by
  cases s with
  | ret e => exact absurd rfl (hs e)
  | _ => rfl

/-- A function all of whose statements are balanced, up to the first `return`. -/
def FunctionDef.Balanced (Γ : String → Option Arity) (f : FunctionDef Int) : Prop :=
  ∀ s ∈ reachable f.body, s.Balanced Γ f.result.isSome

/-! ## Lowering keeps the balance -/

section Lowering

variable {Γ : String → Option Arity}

/-- A field access is never accepted, so it cannot be in balance. -/
theorem not_fits_foldl_structGet {names : List String} (h : names ≠ []) (i : Instr) :
    ¬ (names.foldl (fun object field => Instr.structGet field object) i).Fits Γ := by
  -- the outermost instruction is the access of the last name
  obtain ⟨init, last, rfl⟩ := (List.eq_nil_or_concat' names).resolve_left h
  rw [List.foldl_concat]
  exact id

/-- A call passes as many operands as arguments were written. -/
theorem Expr.length_lowerAll {es : List (Expr Int)} {is : List Instr}
    (h : Expr.lowerAll es = .ok is) : is.length = es.length := by
  induction es generalizing is with
  | nil =>
    cases h
    rfl
  | cons e es ih =>
    obtain ⟨i, js, -, hjs, rfl⟩ := Expr.lowerAll_cons_eq_ok.1 h
    rw [List.length_cons, List.length_cons, ih hjs]

mutual

/-- **Expressions**: the instruction of an expression leaves one value exactly when the expression
can stand in value position. -/
theorem Expr.fits_lower_iff : ∀ {e : Expr Int} {i : Instr}, e.WellFormed → e.lower = .ok i →
    (i.Fits Γ ↔ e.OnWords Γ)
  | .sum [], _, _, hi => by simp [Expr.lower] at hi
  | .sum (e :: es), i, he, hi => by
    obtain ⟨a, ha, hi⟩ := Expr.lower_sum_eq_ok.1 hi
    have hes : Expr.AllWellFormed (e :: es) := he.2
    rw [Expr.fits_lowerChain_iff hes.2 hi, Expr.fits_lower_iff hes.1 ha]
    rfl
  | .product [], _, _, hi => by simp [Expr.lower] at hi
  | .product (e :: es), i, he, hi => by
    obtain ⟨a, ha, hi⟩ := Expr.lower_product_eq_ok.1 hi
    have hes : Expr.AllWellFormed (e :: es) := he.2
    rw [Expr.fits_lowerChain_iff hes.2 hi, Expr.fits_lower_iff hes.1 ha]
    rfl
  | .field receiver accessors, i, he, hi => by
    rw [Expr.lower, bind_eq_ok_iff] at hi
    obtain ⟨object, -, hi⟩ := hi
    rw [pure_eq_ok_iff] at hi
    subst hi
    exact iff_of_false (not_fits_foldl_structGet he.2.1 object) id
  | .call callee lists, i, he, hi => by
    obtain ⟨f, arguments, rfl, rfl⟩ := Expr.lower_call_shape hi
    obtain ⟨is, his, rfl⟩ := Expr.lower_call_eq_ok.1 hi
    rw [Instr.Fits, Expr.OnWords, Expr.length_lowerAll his, Expr.allFit_lowerAll_iff he.2.2.1 his]
  | .var x, i, _, hi => by
    rw [Expr.lower, pure_eq_ok_iff] at hi
    subst hi
    exact Iff.rfl
  | .const n, i, _, hi => by
    rw [Expr.lower, pure_eq_ok_iff] at hi
    subst hi
    exact Iff.rfl

/-- A chain is in balance if all of its operands are, those that were combined before included. -/
theorem Expr.fits_lowerChain_iff {op : Wat.BinaryOp} : ∀ {es : List (Expr Int)} {left i : Instr},
    Expr.AllWellFormed es → Expr.lowerChain op left es = .ok i →
      (i.Fits Γ ↔ left.Fits Γ ∧ Expr.AllOnWords Γ es)
  | [], left, i, _, hi => by
    rw [Expr.lowerChain, pure_eq_ok_iff] at hi
    subst hi
    exact (and_iff_left trivial).symm
  | e :: es, left, i, hes, hi => by
    obtain ⟨a, ha, hi⟩ := Expr.lowerChain_cons_eq_ok.1 hi
    rw [Expr.fits_lowerChain_iff hes.2 hi, Instr.Fits, Expr.fits_lower_iff hes.1 ha, and_assoc]
    rfl

/-- Arguments are in balance if each of them is. -/
theorem Expr.allFit_lowerAll_iff : ∀ {es : List (Expr Int)} {is : List Instr},
    Expr.AllWellFormed es → Expr.lowerAll es = .ok is →
      (Instr.AllFit Γ is ↔ Expr.AllOnWords Γ es)
  | [], is, _, his => by
    rw [Expr.lowerAll, pure_eq_ok_iff] at his
    subst his
    exact Iff.rfl
  | e :: es, is, hes, his => by
    obtain ⟨i, js, hi, hjs, rfl⟩ := Expr.lowerAll_cons_eq_ok.1 his
    rw [Instr.AllFit, Expr.AllOnWords, Expr.fits_lower_iff hes.1 hi,
      Expr.allFit_lowerAll_iff hes.2 hjs]

end

/-- A chain with further operands ends with an operator. -/
theorem Expr.lowerChain_eq_binary {op : Wat.BinaryOp} {left i : Instr} {e : Expr Int}
    {es : List (Expr Int)} (h : Expr.lowerChain op left (e :: es) = .ok i) :
    ∃ a b, i = .binary op a b := by
  induction es generalizing left e with
  | nil =>
    obtain ⟨a, -, h⟩ := Expr.lowerChain_cons_eq_ok.1 h
    cases h
    exact ⟨left, a, rfl⟩
  | cons e' es ih =>
    obtain ⟨a, -, h⟩ := Expr.lowerChain_cons_eq_ok.1 h
    exact ih h

/-- Only calls are lowered to calls: a chain has at least two operands. -/
theorem Expr.ne_call_of_lower {e : Expr Int} {i : Instr} (he : e.WellFormed)
    (hkind : e.kind ≠ .call) (hi : e.lower = .ok i) {f : String} {is : List Instr} :
    i ≠ .call f is := by
  rintro rfl
  cases e with
  | sum operands =>
    match operands, he, hi with
    | e :: e' :: es, _, hi =>
      obtain ⟨a, -, hi⟩ := Expr.lower_sum_eq_ok.1 hi
      obtain ⟨_, _, h⟩ := Expr.lowerChain_eq_binary hi
      cases h
    | [_], he, _ => exact absurd he.1 (Nat.lt_irrefl 1)
  | product operands =>
    match operands, he, hi with
    | e :: e' :: es, _, hi =>
      obtain ⟨a, -, hi⟩ := Expr.lower_product_eq_ok.1 hi
      obtain ⟨_, _, h⟩ := Expr.lowerChain_eq_binary hi
      cases h
    | [_], he, _ => exact absurd he.1 (Nat.lt_irrefl 1)
  | field receiver accessors =>
    obtain ⟨init, last, rfl⟩ := (List.eq_nil_or_concat' accessors).resolve_left he.2.1
    rw [Expr.lower, bind_eq_ok_iff] at hi
    obtain ⟨object, -, hi⟩ := hi
    rw [List.foldl_concat] at hi
    cases hi
  | call callee lists => exact hkind rfl
  | var x => cases hi
  | const n => cases hi

/-- The same where a value is not asked for. -/
theorem Expr.fitsLoosely_lower_iff {e : Expr Int} {i : Instr} (he : e.WellFormed)
    (hi : e.lower = .ok i) : i.FitsLoosely Γ ↔ e.OnWordsAsStatement Γ := by
  -- a call may go without a result here, and only a call
  by_cases hkind : e.kind = .call
  · cases e with
    | call callee lists =>
      obtain ⟨f, arguments, rfl, rfl⟩ := Expr.lower_call_shape hi
      obtain ⟨is, his, rfl⟩ := Expr.lower_call_eq_ok.1 hi
      rw [Instr.FitsLoosely, Expr.OnWordsAsStatement, Expr.length_lowerAll his,
        Expr.allFit_lowerAll_iff he.2.2.1 his]
    | _ => cases hkind
  · -- apart from calls, both conditions are those for a value position
    have hfits : i.FitsLoosely Γ ↔ i.Fits Γ := by
      cases i with
      | call f is => exact absurd rfl (Expr.ne_call_of_lower he hkind hi)
      | _ => exact Iff.rfl
    have hwords : e.OnWordsAsStatement Γ ↔ e.OnWords Γ := by
      cases e with
      | call callee lists => exact absurd rfl hkind
      | _ => exact Iff.rfl
    rw [hfits, hwords]
    exact Expr.fits_lower_iff he hi

/-- **Statements**: lowering carries the balance over to the instructions. -/
theorem Stmt.balanced_lower_iff {s : Stmt Int} {i : Instr} (hs : s.WellFormed)
    (hi : s.lower = .ok i) {hasResult : Bool} :
    i.Balanced Γ hasResult ↔ s.Balanced Γ hasResult := by
  cases s with
  | bind x e =>
    obtain ⟨a, ha, hi⟩ := bind_eq_ok_iff.1 hi
    cases hi
    exact Expr.fits_lower_iff hs.2 ha
  | ret e =>
    obtain ⟨a, ha, hi⟩ := bind_eq_ok_iff.1 hi
    cases hi
    have he : e.WellFormed := hs
    cases hasResult with
    | true => exact Expr.fits_lower_iff he ha
    | false => exact Expr.fitsLoosely_lower_iff he ha
  | eval e =>
    -- the grammar allows no other expression than a call as a statement
    obtain ⟨hkind, he⟩ := hs
    cases e with
    | call callee lists =>
      have hi' : (Expr.call callee lists).lower = .ok i := hi
      obtain ⟨f, arguments, rfl, rfl⟩ := Expr.lower_call_shape hi'
      obtain ⟨is, his, rfl⟩ := Expr.lower_call_eq_ok.1 hi'
      rw [Instr.Balanced, Stmt.Balanced, Expr.length_lowerAll his,
        Expr.allFit_lowerAll_iff he.2.2.1 his]
    | _ => cases hkind

/-- Only `return` statements are lowered to returns. -/
theorem Stmt.ne_ret_of_lower {s : Stmt Int} {i : Instr} (hs : s.WellFormed) (hi : s.lower = .ok i)
    (hret : ∀ e, s ≠ .ret e) (e : Instr) : i ≠ .ret e := by
  rintro rfl
  cases s with
  | bind x e =>
    obtain ⟨a, -, hi⟩ := bind_eq_ok_iff.1 hi
    cases hi
  | ret e => exact hret e rfl
  | eval e =>
    obtain ⟨hkind, -⟩ := hs
    cases e with
    | call callee lists =>
      have hi' : (Expr.call callee lists).lower = .ok _ := hi
      obtain ⟨f, arguments, rfl, rfl⟩ := Expr.lower_call_shape hi'
      obtain ⟨is, -, h⟩ := Expr.lower_call_eq_ok.1 hi'
      cases h
    | _ => cases hkind

/-- The statements up to the first `return` are lowered to the instructions up to the first
`return`. -/
theorem forall₂_reachable {ss : List (Stmt Int)} {is : List Instr}
    (h : List.Forall₂ (fun s i => Stmt.lower s = .ok i) ss is) (hss : ∀ s ∈ ss, s.WellFormed) :
    List.Forall₂ (fun s i => s.WellFormed ∧ Stmt.lower s = .ok i) (reachable ss)
      (Instr.reached is) := by
  induction h with
  | nil => exact .nil
  | @cons s i ss is hi _ ih =>
    rw [List.forall_mem_cons] at hss
    -- behind a `return`, neither list goes on
    by_cases hret : ∃ e, s = .ret e
    · obtain ⟨e, rfl⟩ := hret
      obtain ⟨a, -, ha⟩ := bind_eq_ok_iff.1 hi
      cases ha
      exact .cons ⟨hss.1, hi⟩ .nil
    · have hs : ∀ e, s ≠ .ret e := fun e he => hret ⟨e, he⟩
      rw [reachable_cons hs, Instr.reached_cons (Stmt.ne_ret_of_lower hss.1 hi hs)]
      exact .cons ⟨hss.1, hi⟩ (ih hss.2)

/-- **Functions**: lowering carries the balance over. -/
theorem FunctionDef.balanced_lower_iff {f : FunctionDef Int} {g : Wat.Func} (hf : f.WellFormed)
    (hg : f.lower = .ok g) :
    (∀ i ∈ Instr.reached g.body, i.Balanced Γ g.result.isSome) ↔ f.Balanced Γ := by
  obtain ⟨body, hbody, rfl⟩ := FunctionDef.lower_eq_ok hg
  have hreached := forall₂_reachable (mapM_eq_ok_iff.1 hbody) hf.body
  constructor
  · intro h s hs
    obtain ⟨i, hi, hwell, hlower⟩ := exists_right_of_mem hreached hs
    exact (Stmt.balanced_lower_iff hwell hlower).1 (h i hi)
  · intro h i hi
    obtain ⟨s, hs, hwell, hlower⟩ := exists_left_of_mem hreached hi
    exact (Stmt.balanced_lower_iff hwell hlower).2 (h s hs)

end Lowering

/-! ## Accepted sources -/

/-- **Leaks of accepted sources**: where compilation with validation succeeds, the text that is
assembled has a function for each function of the source, and it does not leak exactly when the
function of the source is balanced. Callees take as many operands as their declarations say. -/
theorem compileToBinary_leakFree_iff {source : String} {options : Options} {binary : Bytes}
    (hvalidate : options.validate = true) (h : compileToBinary source options = .ok binary) :
    ∃ a : Assembly source options, a.resolved.encode = binary ∧
      (∀ host ∈ a.declarations.hosts,
        a.module.arity host.name = some ⟨host.params.length, host.result.isSome⟩) ∧
      (∀ f ∈ a.declarations.functions,
        a.module.arity f.name = some ⟨f.params.length, f.result.isSome⟩) ∧
      List.Forall₂ (fun f g => FunctionDef.lower f = .ok g ∧
          (g.LeakFree a.module.arity ↔ f.Balanced a.module.arity))
        a.declarations.functions a.module.functions := by
  obtain ⟨a, ha⟩ := exists_assembly hvalidate h
  refine ⟨a, ha, fun _ => a.arity_host, fun _ => a.arity_function, ?_⟩
  refine forall₂_imp_of_mem a.forall₂_lower ?_
  intro f g hf hg hlower
  refine ⟨hlower, ?_⟩
  rw [Wat.Module.leakFree_iff a.resolve a.valid hg]
  exact FunctionDef.balanced_lower_iff (a.wellFormed.functions f hf) hlower

/-! ## A source without leaks, and one with a leak -/

/-- A function that gives its argument. -/
def identityFunction : FunctionDef Int where
  isPublic := false
  name := "id"
  params := [⟨"a", "i32"⟩]
  returnType := "i32"
  body := [.ret (.var "a")]

/-- A function without a result. -/
def skippingFunction : FunctionDef Int where
  isPublic := false
  name := "skip"
  params := [⟨"a", "i32"⟩]
  returnType := "unit"
  body := []

/-- A function with a balanced statement of each kind. -/
def balancedFunction : FunctionDef Int where
  isPublic := false
  name := "f"
  params := []
  returnType := "i32"
  body := [.bind "x" (.call (.var "id") [[.const 1]]), .eval (.call (.var "skip") [[.var "x"]]),
    .ret (.call (.var "id") [[.var "x"]])]

/-- A function whose first statement leaves a value for the second. -/
def leakingFunction : FunctionDef Int where
  isPublic := false
  name := "f"
  params := []
  returnType := "i32"
  body := [.eval (.call (.var "id") [[.const 1]]), .ret (.call (.var "id") [[]])]

/-- A source with `balancedFunction`. -/
def balancedSource : String :=
  "fn id(a: i32) -> i32 { return a; } fn skip(a: i32) { } " ++
    "fn f() -> i32 { let x = id(1); skip(x); return id(x); }"

/-- A source with `leakingFunction`. -/
def leakingSource : String :=
  "fn id(a: i32) -> i32 { return a; } fn f() -> i32 { id(1); return id(); }"

theorem buildModule_balancedSource : buildModule balancedSource =
    .ok ⟨[], [identityFunction, skippingFunction, balancedFunction], []⟩ := by
  rfl

theorem buildModule_leakingSource :
    buildModule leakingSource = .ok ⟨[], [identityFunction, leakingFunction], []⟩ := by
  rfl

/-- The declarations of an assembly are those of its source. -/
theorem Assembly.declarations_eq {source : String} {options : Options}
    (a : Assembly source options) {m : Module} (h : buildModule source = .ok m) :
    a.declarations = m :=
  Except.ok.inj (a.build.symm.trans h)

theorem balancedSource_leakFree : ∃ binary, compileToBinary balancedSource {} = .ok binary ∧
    ∃ a : Assembly balancedSource {}, a.resolved.encode = binary ∧
      ∀ g ∈ a.module.functions, g.LeakFree a.module.arity := by
  have hcompiles : ∃ binary, compileToBinary balancedSource {} = .ok binary :=
    (exists_binary_iff_assembles buildModule_balancedSource rfl fun h => absurd rfl h).2
      (by decide +kernel)
  obtain ⟨binary, hbinary⟩ := hcompiles
  obtain ⟨a, ha, -, harity, hfunctions⟩ := compileToBinary_leakFree_iff rfl hbinary
  have hdeclarations := a.declarations_eq buildModule_balancedSource
  rw [hdeclarations] at harity
  have hid : a.module.arity "id" = some ⟨1, true⟩ := harity identityFunction (by simp)
  have hskip : a.module.arity "skip" = some ⟨1, false⟩ := harity skippingFunction (by simp)
  refine ⟨binary, hbinary, a, ha, ?_⟩
  intro g hg
  obtain ⟨f, hf, -, hiff⟩ := exists_left_of_mem hfunctions hg
  refine hiff.2 ?_
  rw [hdeclarations] at hf
  simp only [List.mem_cons, List.not_mem_nil, or_false] at hf
  rcases hf with rfl | rfl | rfl
  · exact List.forall_mem_singleton.2 trivial
  · exact nofun
  · refine List.forall_mem_cons.2 ⟨?_, List.forall_mem_cons.2 ⟨?_, List.forall_mem_singleton.2 ?_⟩⟩
    · exact ⟨⟨_, hid, rfl⟩, ⟨_, hid, rfl⟩, ⟨by decide, by decide⟩, trivial⟩
    · refine ⟨⟨_, hskip, rfl⟩, ⟨trivial, trivial⟩, ?_⟩
      rintro ⟨arity, harity', hresult⟩
      rw [hskip] at harity'
      cases harity'
      cases hresult
    · exact ⟨⟨_, hid, rfl⟩, ⟨_, hid, rfl⟩, trivial, trivial⟩

/-- **A leak**: `leakingSource` is accepted. Its function `f` leaks, and the call in the second
statement, which is written without arguments, is given the value that the first one left. -/
theorem leakingSource_leaks : (compileToBinary leakingSource {}).isOk = true ∧
    ∀ a : Assembly leakingSource {}, ∃ g ∈ a.module.functions, g.name = "f" ∧
      ¬ g.LeakFree a.module.arity ∧
      ∃ first second, g.body = [first, second] ∧
        ∀ (V W : Type) (M : Wat.Machine V W), M.arity = a.module.arity →
          ∀ (v : V) (cells : Wat.Cells V) (w : W), M.run true second.flatten ⟨[v], cells, w⟩ =
            (M.call "id" [v] w).map fun r => .returned (some r.1) r.2 := by
  have hcompiles : ∃ binary, compileToBinary leakingSource {} = .ok binary :=
    (exists_binary_iff_assembles buildModule_leakingSource rfl fun h => absurd rfl h).2
      (by decide +kernel)
  obtain ⟨binary, hbinary⟩ := hcompiles
  rw [hbinary]
  refine ⟨rfl, ?_⟩
  intro a
  have hdeclarations := a.declarations_eq buildModule_leakingSource
  have hid : identityFunction ∈ a.declarations.functions := by simp [hdeclarations]
  have hleaking : leakingFunction ∈ a.declarations.functions := by simp [hdeclarations]
  have harity : a.module.arity "id" = some ⟨1, true⟩ := a.arity_function hid
  obtain ⟨g, hg, hlower⟩ := exists_right_of_mem a.forall₂_lower hleaking
  refine ⟨g, hg, ?_, ?_, ?_⟩
  · cases hlower
    rfl
  · rw [Wat.Module.leakFree_iff a.resolve a.valid hg,
      FunctionDef.balanced_lower_iff (a.wellFormed.functions _ hleaking) hlower]
    intro h
    have hfirst := h _ List.mem_cons_self
    exact hfirst.2.2 ⟨_, harity, rfl⟩
  · cases hlower
    refine ⟨_, _, rfl, ?_⟩
    intro V W M hM v cells w
    rw [← hM] at harity
    have hcall : M.run true [.call "id", .ret] ⟨[v].reverse ++ [], cells, w⟩ = _ :=
      Wat.Machine.run_call harity rfl [.ret] [] cells w
    refine hcall.trans ?_
    cases M.call "id" [v] w with
    | none => rfl
    | some r => rfl

end Kelp
