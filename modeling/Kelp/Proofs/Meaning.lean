import Mathlib.Data.BitVec
import Kelp.Lowering
import Kelp.Proofs.StackMachine

/-!
# What function bodies mean

A reference semantics of functions on 32-bit integers, by recursion on their syntax and without an
operand stack.

- `Expr.eval` gives the value of an expression: constants and operators work modulo `2 ^ 32`, names
  are read from an environment, and a call evaluates its arguments from left to right before the
  callee changes the world.
- `evalBody` runs statements until one returns or none is left, and `FunctionDef.eval` a function on
  its arguments.
- `FunctionDef.OnWords` describes the functions that this is a semantics for.
-/

namespace Kelp

open Wat (Word Arity Cells)

/-- The functions that a body can call: their arities, and what calling them gives. A call may
change the world in any way, and it may fail. The value counts only for callees with a result. -/
structure Callees (W : Type) where
  arity : String → Option Arity
  call : String → List Word → W → Option (Word × W)

/-! ## Evaluation -/

section Eval

variable {W : Type} (H : Callees W)

mutual

/-- The value of an expression, and the world after it. -/
def Expr.eval (env : Cells Word) : Expr Int → W → Option (Word × W)
  | .sum operands, w => (Expr.evalAll env operands w).map fun (vs, w) => (vs.sum, w)
  | .product operands, w => (Expr.evalAll env operands w).map fun (vs, w) => (vs.prod, w)
  | .field _ _, _ => none
  | .call (.var f) [arguments], w =>
    (Expr.evalAll env arguments w).bind fun (vs, w) => H.call f vs w
  | .call _ _, _ => none
  | .var x, w => (env x).map fun v => (v, w)
  | .const n, w => some (BitVec.ofInt 32 n, w)

/-- The values of several expressions, evaluated from left to right. -/
def Expr.evalAll (env : Cells Word) : List (Expr Int) → W → Option (List Word × W)
  | [], w => some ([], w)
  | e :: es, w => do
    let (v, w) ← e.eval env w
    let (vs, w) ← Expr.evalAll env es w
    return (v :: vs, w)

end

/-- How a body ends: with a `return`, or after its last statement. -/
inductive Completion (W : Type) where
  | returned (value : Word) (world : W)
  | finished (env : Cells Word) (world : W)

/-- Run the statements of a body. The value of an expression statement is dropped. -/
def evalBody : List (Stmt Int) → Cells Word → W → Option (Completion W)
  | [], env, w => some (.finished env w)
  | .bind x e :: rest, env, w => do
    let (v, w) ← e.eval H env w
    evalBody rest (← env.store? x v) w
  | .ret e :: _, env, w => do
    let (v, w) ← e.eval H env w
    return .returned v w
  | .eval e :: rest, env, w => do
    let (_, w) ← e.eval H env w
    evalBody rest env w

end Eval

/-- The environment in which a body starts: the parameters with their arguments, and every `let`
name of the body with zero. -/
def FunctionDef.environment (f : FunctionDef Int) (arguments : List Word) : Cells Word :=
  Cells.ofList
    ((f.params.map Binder.name).zip arguments ++ f.letNames.map fun name => (name, 0))

/-- Run a function on its arguments. -/
def FunctionDef.eval {W : Type} (H : Callees W) (f : FunctionDef Int) (arguments : List Word)
    (w : W) : Option (Completion W) :=
  evalBody H f.body (f.environment arguments) w

/-! ## Functions on 32-bit integers -/

/-- The type name of 32-bit integers. -/
def wordType : String := "i32"

/-- Whether a constant is a 32-bit integer, written with or without a sign. -/
def InWord (n : Int) : Prop := -2 ^ 31 ≤ n ∧ n ≤ 2 ^ 32 - 1

/-- A constant that is a 32-bit integer is encoded modulo `2 ^ 32`. -/
theorem word?_of_inWord {n : Int} (h : InWord n) :
    Wat.word? n = some (BitVec.ofInt 32 n) := by
  unfold Wat.word?
  exact if_pos (by unfold InWord at h; omega)

/-- No other constant is encoded. -/
theorem inWord_of_word? {n : Int} {x : Word} (h : Wat.word? n = some x) : InWord n := by
  unfold Wat.word? at h
  split at h
  next hn =>
    unfold InWord
    omega
  next => cases h

/-- A call passes as many arguments as the callee has parameters. -/
def Takes (Γ : String → Option Arity) (f : String) (arguments : Nat) : Prop :=
  ∃ k, Γ f = some k ∧ k.params = arguments

/-- The callee has a result. -/
def HasResult (Γ : String → Option Arity) (f : String) : Prop :=
  ∃ k, Γ f = some k ∧ k.hasResult = true

mutual

/-- An expression in value position: there is no field access, constants are 32-bit integers, calls
of a name with one argument list pass the right number of arguments, and their callees have a
result. -/
def Expr.OnWords (Γ : String → Option Arity) : Expr Int → Prop
  | .sum operands => Expr.AllOnWords Γ operands
  | .product operands => Expr.AllOnWords Γ operands
  | .field _ _ => False
  | .call (.var f) [arguments] =>
    Takes Γ f arguments.length ∧ HasResult Γ f ∧ Expr.AllOnWords Γ arguments
  | .call _ _ => True
  | .var _ => True
  | .const n => InWord n

/-- Expressions in value position. -/
def Expr.AllOnWords (Γ : String → Option Arity) : List (Expr Int) → Prop
  | [] => True
  | e :: es => e.OnWords Γ ∧ Expr.AllOnWords Γ es

end

/-- An expression in statement position: a call that stands here may go to a callee without a
result. -/
def Expr.OnWordsAsStatement (Γ : String → Option Arity) : Expr Int → Prop
  | .call (.var f) [arguments] => Takes Γ f arguments.length ∧ Expr.AllOnWords Γ arguments
  | e => e.OnWords Γ

/-- A statement on 32-bit integers. -/
def Stmt.OnWords (Γ : String → Option Arity) : Stmt Int → Prop
  | .bind _ e => e.OnWords Γ
  | .ret e => e.OnWords Γ
  | .eval e => e.OnWordsAsStatement Γ

/-- A function on 32-bit integers, where `Γ` gives the arities of its callees. -/
structure FunctionDef.OnWords (Γ : String → Option Arity) (f : FunctionDef Int) : Prop where
  params : ∀ p ∈ f.params, p.type = wordType
  returnType : f.returnType = wordType ∨ f.returnType = unitType
  body : ∀ s ∈ f.body, s.OnWords Γ

end Kelp
