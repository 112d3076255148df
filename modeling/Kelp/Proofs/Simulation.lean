import Kelp.Proofs.Lowering
import Kelp.Proofs.Meaning

/-!
# Lowering preserves meaning

Running the instructions of a lowered function does what the reference semantics says that the
function does.

- `Expr.run_lower`: the instructions of an expression push its value and change the world as its
  evaluation does, whatever follows them and whatever lies on the stack below.
- `run_lower_body`: the same for the statements of a body. An expression statement does not drop its
  value, so values may be left on the stack; a later `return` takes the topmost operand and is not
  disturbed by them.
-/

namespace Kelp

open Wat

/-- The machine that calls the given functions and computes on 32-bit words. -/
def Callees.machine {W : Type} (H : Callees W) : Machine Word W where
  word := id
  binary
    | .add => (· + ·)
    | .mul => (· * ·)
  arity := H.arity
  call := H.call

/-! ## Expressions -/

section Expressions

variable {W : Type} {H : Callees W} {hasResult : Bool}

/-- Expressions are evaluated one after the other, each in the world that the one before left. -/
theorem Expr.evalAll_cons (env : Cells Word) (e : Expr Int) (es : List (Expr Int)) (w : W) :
    Expr.evalAll H env (e :: es) w = (e.eval H env w).bind fun (v, w) =>
      (Expr.evalAll H env es w).map fun (vs, w) => (v :: vs, w) := by
  rw [Expr.evalAll]
  refine Option.bind_congr fun r _ => ?_
  show (Expr.evalAll H env es r.2).bind (fun vs => some (r.1 :: vs.1, vs.2)) =
    (Expr.evalAll H env es r.2).map fun vs => (r.1 :: vs.1, vs.2)
  rw [Option.map_eq_bind]
  rfl

/-- Where a chain folds the values of its operands, it combines the value of the first one with
those of the further ones from left to right. -/
theorem Expr.map_evalAll_cons {fold : List Word → Word} {op : Word → Word → Word}
    (hfold : ∀ v vs, fold (v :: vs) = vs.foldl op v) (env : Cells Word) (e : Expr Int)
    (es : List (Expr Int)) (w : W) :
    (Expr.evalAll H env (e :: es) w).map (fun (vs, w) => (fold vs, w)) =
      (e.eval H env w).bind fun (v, w) =>
        (Expr.evalAll H env es w).map fun (vs, w) => (vs.foldl op v, w) := by
  rw [Expr.evalAll_cons, Option.map_bind]
  refine Option.bind_congr fun r _ => ?_
  show ((Expr.evalAll H env es r.2).map _).map _ = _
  rw [Option.map_map]
  refine Option.map_congr fun vs _ => ?_
  show (fold (r.1 :: vs.1), vs.2) = (vs.1.foldl op r.1, vs.2)
  rw [hfold]

/-- A sum adds its operands from left to right. -/
theorem Expr.eval_sum_cons (env : Cells Word) (e : Expr Int) (es : List (Expr Int)) (w : W) :
    (Expr.sum (e :: es)).eval H env w = (e.eval H env w).bind fun (v, w) =>
      (Expr.evalAll H env es w).map fun (vs, w) => (vs.foldl (· + ·) v, w) := by
  rw [Expr.eval]
  refine Expr.map_evalAll_cons (fun v vs => ?_) env e es w
  rw [List.sum_eq_foldl, List.foldl_cons, zero_add]

/-- A product multiplies its operands from left to right. -/
theorem Expr.eval_product_cons (env : Cells Word) (e : Expr Int) (es : List (Expr Int)) (w : W) :
    (Expr.product (e :: es)).eval H env w = (e.eval H env w).bind fun (v, w) =>
      (Expr.evalAll H env es w).map fun (vs, w) => (vs.foldl (· * ·) v, w) := by
  rw [Expr.eval]
  refine Expr.map_evalAll_cons (fun v vs => ?_) env e es w
  rw [List.prod_eq_foldl, List.foldl_cons, one_mul]

/-- Several expressions have as many values. -/
theorem Expr.length_evalAll {env : Cells Word} : ∀ {es : List (Expr Int)} {w : W}
    {r : List Word × W}, Expr.evalAll H env es w = some r → r.1.length = es.length
  | [], w, r, h => by
    rw [Expr.evalAll] at h
    cases h
    rfl
  | e :: es, w, r, h => by
    rw [Expr.evalAll_cons, Option.bind_eq_some_iff] at h
    obtain ⟨u, -, h⟩ := h
    obtain ⟨vs, hvs, rfl⟩ := Option.map_eq_some_iff.1 h
    rw [List.length_cons, List.length_cons, Expr.length_evalAll hvs]

/-- The instructions of a constant. -/
theorem run_const {n : Int} (hn : InWord n) (k : List PlainInstr) (c : Config Word W) :
    H.machine.run hasResult (.const n :: k) c =
      H.machine.run hasResult k (c.push (BitVec.ofInt 32 n)) := by
  rw [Machine.run_cons, Machine.step, word?_of_inWord hn]
  rfl

/-- The instructions compute `eval`: they push its value and change the world as it does, whatever
comes after them and whatever lies on the stack. -/
def Computes (H : Callees W) (hasResult : Bool) (code : List PlainInstr)
    (eval : Cells Word → W → Option (Word × W)) : Prop :=
  ∀ (k : List PlainInstr) (stack : List Word) (cells : Cells Word) (w : W),
    H.machine.run hasResult (code ++ k) ⟨stack, cells, w⟩ =
      (eval cells w).bind fun (v, w) => H.machine.run hasResult k ⟨v :: stack, cells, w⟩

mutual

/-- **Expressions**: the instructions of an expression compute its value. -/
theorem Expr.run_lower : ∀ (e : Expr Int) {i : Instr}, e.OnWords H.arity → e.lower = .ok i →
    Computes H hasResult i.flatten fun env w => e.eval H env w
  | .sum [], _, _, hi => by simp [Expr.lower] at hi
  | .sum (e :: es), i, he, hi => by
    obtain ⟨a, ha, hi⟩ := Expr.lower_sum_eq_ok.1 hi
    have hes : Expr.AllOnWords H.arity (e :: es) := he
    have hchain := Expr.run_lowerChain .add es hes.2 hi (Expr.run_lower e hes.1 ha)
    intro k stack cells w
    rw [hchain k stack cells w]
    beta_reduce
    rw [Expr.eval_sum_cons]
    rfl
  | .product [], _, _, hi => by simp [Expr.lower] at hi
  | .product (e :: es), i, he, hi => by
    obtain ⟨a, ha, hi⟩ := Expr.lower_product_eq_ok.1 hi
    have hes : Expr.AllOnWords H.arity (e :: es) := he
    have hchain := Expr.run_lowerChain .mul es hes.2 hi (Expr.run_lower e hes.1 ha)
    intro k stack cells w
    rw [hchain k stack cells w]
    beta_reduce
    rw [Expr.eval_product_cons]
    rfl
  | .field _ _, _, he, _ => he.elim
  | .call callee lists, i, he, hi => by
    obtain ⟨f, arguments, rfl, rfl⟩ := Expr.lower_call_shape hi
    obtain ⟨is, his, rfl⟩ := Expr.lower_call_eq_ok.1 hi
    obtain ⟨htakes, ⟨arity, harity, hresult⟩, hargs⟩ := he
    intro k stack cells w
    beta_reduce
    rw [Instr.flatten, List.append_assoc, Expr.run_lowerAll arguments hargs his, Expr.eval,
      Option.bind_assoc]
    refine Option.bind_congr fun r hr => ?_
    obtain ⟨vs, w⟩ := r
    rw [← Expr.length_evalAll hr] at htakes
    show H.machine.run hasResult (.call f :: k) ⟨vs.reverse ++ stack, cells, w⟩ = _
    -- the callee takes as many operands as the arguments have pushed
    obtain ⟨arity', harity', hparams⟩ := htakes
    rw [harity] at harity'
    cases harity'
    rw [Machine.run_call (M := H.machine) harity hparams.symm]
    refine Option.bind_congr fun r _ => ?_
    show H.machine.run hasResult k ⟨if arity.hasResult then r.1 :: stack else stack, cells, r.2⟩ = _
    rw [if_pos hresult]
  | .var x, i, _, hi => by
    rw [Expr.lower, pure_eq_ok_iff] at hi
    subst hi
    intro k stack cells w
    show H.machine.run hasResult (.localGet x :: k) ⟨stack, cells, w⟩ =
      ((Expr.var x).eval H cells w).bind _
    rw [Machine.run_cons, Machine.step, Expr.eval, Option.bind_map, Option.bind_map]
    rfl
  | .const n, i, he, hi => by
    rw [Expr.lower, pure_eq_ok_iff] at hi
    subst hi
    intro k stack cells w
    exact run_const he k ⟨stack, cells, w⟩

/-- Further operands of a chain are combined from the left with what the code before them
computes. -/
theorem Expr.run_lowerChain (op : BinaryOp) : ∀ (es : List (Expr Int)) {left i : Instr}
    {eval : Cells Word → W → Option (Word × W)}, Expr.AllOnWords H.arity es →
    Expr.lowerChain op left es = .ok i → Computes H hasResult left.flatten eval →
    Computes H hasResult i.flatten fun env w => (eval env w).bind fun (v, w) =>
      (Expr.evalAll H env es w).map fun (vs, w) => (vs.foldl (H.machine.binary op) v, w)
  | [], left, i, eval, _, hi, hleft => by
    rw [Expr.lowerChain, pure_eq_ok_iff] at hi
    subst hi
    intro k stack cells w
    beta_reduce
    rw [hleft k stack cells w, Option.bind_assoc]
    rfl
  | e :: es, left, i, eval, hes, hi, hleft => by
    obtain ⟨a, ha, hi⟩ := Expr.lowerChain_cons_eq_ok.1 hi
    have he := Expr.run_lower e hes.1 ha
    -- one more operand: the code of `op left a` computes the first step of the fold
    have hstep : Computes H hasResult (Instr.binary op left a).flatten fun env w =>
        (eval env w).bind fun (v, w) => (e.eval H env w).bind fun (u, w) =>
          some (H.machine.binary op v u, w) := by
      intro k stack cells w
      beta_reduce
      rw [Instr.flatten, List.append_assoc, List.append_assoc, hleft, Option.bind_assoc]
      refine Option.bind_congr fun r _ => ?_
      show H.machine.run hasResult (a.flatten ++ ([.binary op] ++ k)) ⟨r.1 :: stack, cells, r.2⟩ = _
      rw [he, Option.bind_assoc]
      refine Option.bind_congr fun u _ => ?_
      exact Machine.run_binary op r.1 u.1 k stack cells u.2
    intro k stack cells w
    rw [Expr.run_lowerChain op es hes.2 hi hstep k stack cells w]
    beta_reduce
    rw [Option.bind_assoc, Option.bind_assoc, Option.bind_assoc]
    refine Option.bind_congr fun r _ => ?_
    show ((e.eval H cells r.2).bind _).bind _ = ((Expr.evalAll H cells (e :: es) r.2).map _).bind _
    rw [Expr.evalAll_cons, Option.map_bind, Option.bind_assoc, Option.bind_assoc]
    refine Option.bind_congr fun u _ => ?_
    show ((Expr.evalAll H cells es u.2).map _).bind _ =
      (((Expr.evalAll H cells es u.2).map _).map _).bind _
    rw [Option.map_map]
    rfl

/-- The instructions of several expressions push their values in order. -/
theorem Expr.run_lowerAll : ∀ (es : List (Expr Int)) {is : List Instr},
    Expr.AllOnWords H.arity es → Expr.lowerAll es = .ok is →
    ∀ (k : List PlainInstr) (stack : List Word) (cells : Cells Word) (w : W),
      H.machine.run hasResult (Instr.flattenAll is ++ k) ⟨stack, cells, w⟩ =
        (Expr.evalAll H cells es w).bind fun (vs, w) =>
          H.machine.run hasResult k ⟨vs.reverse ++ stack, cells, w⟩
  | [], is, _, his, k, stack, cells, w => by
    rw [Expr.lowerAll, pure_eq_ok_iff] at his
    subst his
    rfl
  | e :: es, is, hes, his, k, stack, cells, w => by
    obtain ⟨i, js, hi, hjs, rfl⟩ := Expr.lowerAll_cons_eq_ok.1 his
    rw [Instr.flattenAll, List.append_assoc, Expr.run_lower e hes.1 hi, Expr.evalAll_cons,
      Option.bind_assoc]
    refine Option.bind_congr fun r _ => ?_
    show H.machine.run hasResult (Instr.flattenAll js ++ k) ⟨r.1 :: stack, cells, r.2⟩ =
      ((Expr.evalAll H cells es r.2).map _).bind _
    rw [Expr.run_lowerAll es hes.2 hjs, Option.bind_map]
    refine Option.bind_congr fun vs _ => ?_
    show H.machine.run hasResult k ⟨vs.1.reverse ++ r.1 :: stack, cells, vs.2⟩ =
      H.machine.run hasResult k ⟨(r.1 :: vs.1).reverse ++ stack, cells, vs.2⟩
    rw [List.reverse_cons, List.append_assoc]
    rfl

end

end Expressions

/-! ## Bodies -/

section Bodies

variable {W : Type} {H : Callees W}

/-- How many values the instructions of a statement leave on the stack: an expression statement
leaves its value, unless it calls a function without a result. -/
def Stmt.leftover (Γ : String → Option Arity) : Stmt Int → Nat
  | .eval (.call (.var f) _) => if (Γ f).any Arity.hasResult then 1 else 0
  | .eval _ => 1
  | _ => 0

/-- The outcome of a run on a stack `below` that corresponds to what the reference semantics says,
in a function that has a result or has none, where `left` values may stay on the stack. Failure
corresponds to failure. -/
def Corresponds (hasResult : Bool) (left : Nat) (below : List Word) :
    Option (Completion W) → Option (Outcome Word W) → Prop
  | none, outcome => outcome = none
  | some (.returned v w), outcome =>
    outcome = some (.returned (if hasResult then some v else none) w)
  | some (.finished env w), outcome =>
    ∃ values : List Word, values.length = left ∧
      outcome = some (.finished ⟨values ++ below, env, w⟩)

/-- Copies of a value at the top of the stack below count as left. -/
theorem Corresponds.replicate {hasResult : Bool} {left n : Nat} {v : Word} {below : List Word}
    {completion : Option (Completion W)} {outcome : Option (Outcome Word W)}
    (h : Corresponds hasResult left (List.replicate n v ++ below) completion outcome) :
    Corresponds hasResult (n + left) below completion outcome := by
  cases completion with
  | none => exact h
  | some completion =>
    cases completion with
    | returned u w => exact h
    | finished env w =>
      obtain ⟨values, hvalues, rfl⟩ := h
      refine ⟨values ++ List.replicate n v, ?_, ?_⟩
      · rw [List.length_append, List.length_replicate, hvalues, Nat.add_comm]
      · rw [List.append_assoc]

/-- An expression statement leaves at most its value on the stack. -/
theorem Expr.run_lower_statement {hasResult : Bool} {e : Expr Int} {i : Instr}
    (he : e.OnWordsAsStatement H.arity) (hi : e.lower = .ok i) (k : List PlainInstr)
    (stack : List Word) (cells : Cells Word) (w : W) :
    H.machine.run hasResult (i.flatten ++ k) ⟨stack, cells, w⟩ =
      (e.eval H cells w).bind fun (v, w) => H.machine.run hasResult k
        ⟨List.replicate ((Stmt.eval e).leftover H.arity) v ++ stack, cells, w⟩ := by
  by_cases hcall : ∃ callee lists, e = .call callee lists
  · obtain ⟨callee, lists, rfl⟩ := hcall
    obtain ⟨f, arguments, rfl, rfl⟩ := Expr.lower_call_shape hi
    obtain ⟨is, his, rfl⟩ := Expr.lower_call_eq_ok.1 hi
    obtain ⟨htakes, hargs⟩ := he
    rw [Instr.flatten, List.append_assoc, Expr.run_lowerAll arguments hargs his, Expr.eval,
      Option.bind_assoc]
    refine Option.bind_congr fun r hr => ?_
    rw [← Expr.length_evalAll hr] at htakes
    show H.machine.run hasResult (.call f :: k) ⟨r.1.reverse ++ stack, cells, r.2⟩ = _
    obtain ⟨arity, harity, hparams⟩ := htakes
    rw [Machine.run_call (M := H.machine) harity hparams.symm]
    refine Option.bind_congr fun v _ => ?_
    show H.machine.run hasResult k ⟨if arity.hasResult then v.1 :: stack else stack, cells, v.2⟩ = _
    rw [Stmt.leftover, harity, Option.any_some]
    cases arity.hasResult with
    | true => rfl
    | false => rfl
  · -- every other form is an expression in value position
    have hleft : (Stmt.eval e).leftover H.arity = 1 := by
      cases e with
      | call callee lists => exact absurd ⟨callee, lists, rfl⟩ hcall
      | _ => rfl
    have hvalue : e.OnWords H.arity := by
      cases e with
      | call callee lists => exact absurd ⟨callee, lists, rfl⟩ hcall
      | _ => exact he
    rw [hleft]
    exact Expr.run_lower e hvalue hi k stack cells w

/-- **Bodies**: the instructions of the statements of a body run as the reference semantics says.
By induction on the statements; the stack below is generalised, since expression statements grow
it. -/
theorem run_lower_body {hasResult : Bool} : ∀ {body : List (Stmt Int)} {is : List Instr},
    (∀ s ∈ body, s.OnWords H.arity) → body.mapM Stmt.lower = .ok is →
    ∀ (below : List Word) (env : Cells Word) (w : W),
      Corresponds hasResult ((body.map (Stmt.leftover H.arity)).sum) below
        (evalBody H body env w) (H.machine.run hasResult (Instr.flattenAll is) ⟨below, env, w⟩)
  | [], is, _, his, below, env, w => by
    rw [mapM_nil_eq_ok_iff] at his
    subst his
    exact ⟨[], rfl, rfl⟩
  | s :: body, is, hbody, his, below, env, w => by
    obtain ⟨i, js, hi, hjs, rfl⟩ := mapM_cons_eq_ok_iff.1 his
    have hs := hbody s List.mem_cons_self
    have ih := @run_lower_body hasResult body js
      (fun t ht => hbody t (List.mem_cons_of_mem s ht)) hjs
    rw [Instr.flattenAll]
    cases s with
    | bind x e =>
      rw [Stmt.lower, bind_eq_ok_iff] at hi
      obtain ⟨a, ha, hi⟩ := hi
      rw [pure_eq_ok_iff] at hi
      subst hi
      rw [Instr.flatten, List.append_assoc, Expr.run_lower e hs ha, evalBody]
      beta_reduce
      cases e.eval H env w with
      | none => rfl
      | some r =>
        show Corresponds hasResult _ below ((env.store? x r.1).bind _)
          (H.machine.run hasResult (.localSet x :: Instr.flattenAll js) ⟨r.1 :: below, env, r.2⟩)
        rw [Machine.run_localSet]
        cases env.store? x r.1 with
        | none => rfl
        | some env' =>
          -- the value of a `let` is taken off the stack again
          have hnone : (Stmt.bind x e).leftover H.arity = 0 := rfl
          rw [List.map_cons, List.sum_cons, hnone, Nat.zero_add]
          exact ih below env' r.2
    | ret e =>
      rw [Stmt.lower, bind_eq_ok_iff] at hi
      obtain ⟨a, ha, hi⟩ := hi
      rw [pure_eq_ok_iff] at hi
      subst hi
      rw [Instr.flatten, List.append_assoc, Expr.run_lower e hs ha, evalBody]
      beta_reduce
      cases e.eval H env w with
      | none => rfl
      | some r =>
        show H.machine.run hasResult (.ret :: Instr.flattenAll js) ⟨r.1 :: below, env, r.2⟩ = _
        -- a `return` ends the run, whatever lies below its operand
        rw [Machine.run_cons, Machine.step]
        cases hasResult with
        | false => rfl
        | true => rfl
    | eval e =>
      rw [Stmt.lower] at hi
      rw [Expr.run_lower_statement hs hi, evalBody]
      cases e.eval H env w with
      | none => rfl
      | some r =>
        show Corresponds hasResult _ below (evalBody H body env r.2)
          (H.machine.run hasResult (Instr.flattenAll js) ⟨List.replicate _ r.1 ++ below, env, r.2⟩)
        rw [List.map_cons, List.sum_cons]
        exact (ih _ env r.2).replicate

end Bodies

/-! ## Functions -/

/-- The cells of a function that is called on words: the parameters with their arguments, and the
locals with zero. There are none for a function that works on values of other types. -/
def Wat.Func.cells? (g : Wat.Func) (arguments : List Word) : Option (Cells Word) :=
  if g.params.all (·.type = wordType) && g.result.all (· = wordType) then
    some (Cells.ofList
      ((g.params.map Binder.name).zip arguments ++ g.locals.map fun name => (name, 0)))
  else none

/-- Run the instructions of a function on its arguments, on a given operand stack. -/
def Wat.Func.run {W : Type} (H : Callees W) (g : Wat.Func) (arguments below : List Word) (w : W) :
    Option (Outcome Word W) :=
  (g.cells? arguments).bind fun cells =>
    H.machine.run g.result.isSome (Instr.flattenAll g.body) ⟨below, cells, w⟩

/-- The locals of a lowered function start as its environment does. -/
theorem FunctionDef.cells_lower {Γ : String → Option Arity} {f : FunctionDef Int} {g : Wat.Func}
    (hf : f.OnWords Γ) (hg : f.lower = .ok g) (arguments : List Word) :
    g.cells? arguments = some (f.environment arguments) := by
  obtain ⟨body, -, rfl⟩ := FunctionDef.lower_eq_ok hg
  have hparams : f.params.all (·.type = wordType) = true := by
    rw [List.all_eq_true]
    intro p hp
    exact decide_eq_true (hf.params p hp)
  have hresult : f.result.all (· = wordType) = true := by
    rcases hf.returnType with h | h
    · rw [FunctionDef.result, h]
      decide
    · rw [FunctionDef.result, h]
      rfl
  show (if (f.params.all (·.type = wordType) && f.result.all (· = wordType)) = true then _
    else _) = _
  rw [hparams, hresult]
  rfl

/-- **Lowering preserves meaning**: on any arguments, world and operand stack, the instructions of a
lowered function end as the reference semantics says. They return the same value and world, or run
to their end with the same environment and world, above the given stack the values of the expression
statements that have one; and they fail exactly where the reference semantics does. -/
theorem FunctionDef.lower_preserves_meaning {W : Type} (H : Callees W) (f : FunctionDef Int)
    (g : Wat.Func) (hf : f.OnWords H.arity) (hg : f.lower = .ok g) (arguments below : List Word)
    (w : W) :
    Corresponds f.result.isSome ((f.body.map (Stmt.leftover H.arity)).sum) below
      (f.eval H arguments w) (g.run H arguments below w) := by
  have hcells := FunctionDef.cells_lower hf hg arguments
  obtain ⟨body, hbody, rfl⟩ := FunctionDef.lower_eq_ok hg
  rw [Wat.Func.run, hcells]
  exact run_lower_body hf.body hbody below (f.environment arguments) w

/-- Callees that count their calls: `add` takes two operands and leaves their sum, `tick` takes and
leaves nothing. -/
def countingCallees : Callees Nat where
  arity
    | "add" => some ⟨2, true⟩
    | "tick" => some ⟨0, false⟩
    | _ => none
  call _ operands count := some (operands.sum, count + 1)

/-- `fn f(a: i32) -> i32 { let x = a + 4294967295 * add(a, 2); add(1, x); tick(); return x; }` -/
def countingFunction : FunctionDef Int where
  isPublic := false
  name := "f"
  params := [⟨"a", "i32"⟩]
  returnType := "i32"
  body :=
    [.bind "x" (.sum [.var "a",
      .product [.const 4294967295, .call (.var "add") [[.var "a", .const 2]]]]),
     .eval (.call (.var "add") [[.const 1, .var "x"]]),
     .eval (.call (.var "tick") [[]]),
     .ret (.var "x")]

/-- The function is one on words, and its instructions return what it means, although a value is
left on the stack before the `return`. -/
theorem lower_countingFunction_preserves :
    countingFunction.OnWords countingCallees.arity ∧
      ∃ g, countingFunction.lower = .ok g ∧
        Corresponds true 1 [] (countingFunction.eval countingCallees [40] 0)
          (g.run countingCallees [40] [] 0) := by
  have hf : countingFunction.OnWords countingCallees.arity := by
    constructor
    · decide
    · exact Or.inl rfl
    · simp [countingFunction, Stmt.OnWords, Expr.OnWords, Expr.AllOnWords,
        Expr.OnWordsAsStatement, Takes, HasResult, InWord, countingCallees]
  exact ⟨hf, _, rfl,
    FunctionDef.lower_preserves_meaning countingCallees countingFunction _ hf rfl [40] [] 0⟩

end Kelp
