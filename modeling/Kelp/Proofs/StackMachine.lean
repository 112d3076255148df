import Kelp.Wat.Assembly

/-!
# A stack machine for text modules

How the instruction sequence of a function body runs. A configuration has an operand stack, the
named parameters and locals of the function, and the world that calls may change.

- `Machine V W` says what the machine takes from outside: what words and operators mean on values of
  type `V`, how many operands a callee takes and whether it leaves a result, and what a call does to
  the world. A call may also fail.
- `PlainInstr.step` runs one instruction and `Machine.run` a sequence. A sequence ends by reaching
  its end or by a `return`; it has no outcome where an operand, a name or a callee is missing, or
  where a call fails.
- `Machine.run_append` splits a run at any place of the sequence. `Machine.run_call`,
  `Machine.run_binary` and `Machine.run_localSet` run an instruction that finds its operands on the
  stack.
-/

namespace Kelp.Wat

/-- The contents of an `i32`. -/
abbrev Word : Type := BitVec 32

/-- How many operands a function takes, and whether it leaves a result. -/
structure Arity where
  params : Nat
  hasResult : Bool
deriving DecidableEq, Repr, Inhabited

/-! ## Named cells -/

/-- The values of named parameters and locals. Names without a cell have no value. -/
abbrev Cells (V : Type) : Type := String → Option V

namespace Cells

variable {V : Type}

/-- Cells for a list of names with their values. The first entry of a name counts. -/
def ofList : List (String × V) → Cells V
  | [] => fun _ => none
  | (name, v) :: rest => fun x => if x = name then some v else ofList rest x

/-- Store a value in a cell that exists. -/
def store? (c : Cells V) (name : String) (v : V) : Option (Cells V) :=
  (c name).map fun _ => fun x => if x = name then some v else c x

end Cells

/-! ## Configurations -/

/-- What the machine takes from outside. The value that `call` gives counts only where the callee
has a result. -/
structure Machine (V W : Type) where
  word : Word → V
  binary : BinaryOp → V → V → V
  arity : String → Option Arity
  call : String → List V → W → Option (V × W)

/-- A configuration: the operand stack with its top first, the cells, and the world. -/
structure Config (V W : Type) where
  stack : List V
  cells : Cells V
  world : W

/-- How a sequence ends: at its end, or by a `return` with the result of the function. -/
inductive Outcome (V W : Type) where
  | finished (config : Config V W)
  | returned (result : Option V) (world : W)

/-- Put a value on the operand stack. -/
def Config.push {V W : Type} (c : Config V W) (v : V) : Config V W :=
  { c with stack := v :: c.stack }

/-- Take the topmost `n` operands, given in the order in which they were pushed. -/
def takeOperands {V : Type} (n : Nat) (stack : List V) : Option (List V × List V) :=
  if n ≤ stack.length then some ((stack.take n).reverse, stack.drop n) else none

/-- The result that a `return` takes from the stack, in a function that has one or has none. -/
def takeResult {V : Type} (hasResult : Bool) (stack : List V) : Option (Option V) :=
  if hasResult then stack.head?.map some else some none

namespace Machine

variable {V W : Type} (M : Machine V W) (hasResult : Bool)

/-- A call in the given configuration. -/
def enter (f : String) (c : Config V W) : Option (Config V W) := do
  let arity ← M.arity f
  let (operands, stack) ← takeOperands arity.params c.stack
  let (v, world) ← M.call f operands c.world
  return { c with stack := if arity.hasResult then v :: stack else stack, world }

/-- One instruction, in a function that has a result or has none. -/
def step : PlainInstr → Config V W → Option (Outcome V W)
  | .const n, c => (word? n).map fun w => .finished (c.push (M.word w))
  | .localGet x, c => (c.cells x).map fun v => .finished (c.push v)
  | .localSet x, c =>
    match c.stack with
    | [] => none
    | v :: stack => (c.cells.store? x v).map fun cells => .finished { c with stack, cells }
  | .structGet _, _ => none
  | .binary op, c =>
    match c.stack with
    | b :: a :: stack => some (.finished { c with stack := M.binary op a b :: stack })
    | _ => none
  | .call f, c => (M.enter f c).map .finished
  | .ret, c => (takeResult hasResult c.stack).map fun r => .returned r c.world

/-- An instruction sequence. -/
def run : List PlainInstr → Config V W → Option (Outcome V W)
  | [], c => some (.finished c)
  | i :: rest, c =>
    match M.step hasResult i c with
    | some (.finished c') => run rest c'
    | other => other

variable {M hasResult}

@[simp] theorem run_nil (c : Config V W) : M.run hasResult [] c = some (.finished c) := rfl

/-- A run takes one step, and goes on unless this step returned or failed. -/
theorem run_cons (i : PlainInstr) (rest : List PlainInstr) (c : Config V W) :
    M.run hasResult (i :: rest) c = (M.step hasResult i c).bind fun
      | .finished c' => M.run hasResult rest c'
      | .returned r w => some (.returned r w) := by
  rw [run]
  cases M.step hasResult i c with
  | none => rfl
  | some o => cases o <;> rfl

/-- A run of two sequences, one after the other, is a run of the first and then, unless it returned,
one of the second. -/
theorem run_append (is js : List PlainInstr) (c : Config V W) :
    M.run hasResult (is ++ js) c = (M.run hasResult is c).bind fun
      | .finished c' => M.run hasResult js c'
      | .returned r w => some (.returned r w) := by
  induction is generalizing c with
  | nil => rfl
  | cons i is ih =>
    rw [List.cons_append, run_cons, run_cons]
    cases M.step hasResult i c with
    | none => rfl
    | some o =>
      cases o with
      | finished c' => exact ih c'
      | returned r w => rfl

/-- A call that finds its operands on the stack. -/
theorem run_call {f : String} {arity : Arity} (harity : M.arity f = some arity) {vs : List V}
    (hvs : vs.length = arity.params) (k : List PlainInstr) (stack : List V) (cells : Cells V)
    (w : W) :
    M.run hasResult (.call f :: k) ⟨vs.reverse ++ stack, cells, w⟩ =
      (M.call f vs w).bind fun (v, w) =>
        M.run hasResult k ⟨if arity.hasResult then v :: stack else stack, cells, w⟩ := by
  -- operands are pushed from left to right, so the stack has them reversed
  have htake : takeOperands arity.params (vs.reverse ++ stack) = some (vs, stack) := by
    have hlen : arity.params = vs.reverse.length := by rw [← hvs, List.length_reverse]
    rw [takeOperands, if_pos (by rw [hlen, List.length_append]; omega), hlen,
      List.take_left, List.drop_left, List.reverse_reverse]
  have henter : M.enter f ⟨vs.reverse ++ stack, cells, w⟩ =
      (M.call f vs w).map fun (v, w) =>
        ⟨if arity.hasResult then v :: stack else stack, cells, w⟩ := by
    unfold enter
    rw [harity]
    show (takeOperands arity.params (vs.reverse ++ stack) >>= _) = _
    rw [htake]
    show (M.call f vs w >>= _) = _
    cases M.call f vs w with
    | none => rfl
    | some r => rfl
  rw [run_cons, step, henter]
  cases M.call f vs w with
  | none => rfl
  | some r => rfl

/-- One operator applied to the two topmost operands. -/
theorem run_binary (op : BinaryOp) (a b : V) (k : List PlainInstr) (stack : List V)
    (cells : Cells V) (w : W) :
    M.run hasResult (.binary op :: k) ⟨b :: a :: stack, cells, w⟩ =
      M.run hasResult k ⟨M.binary op a b :: stack, cells, w⟩ := by
  rw [run_cons, step]
  rfl

/-- The topmost operand is stored. -/
theorem run_localSet (x : String) (v : V) (k : List PlainInstr) (stack : List V) (cells : Cells V)
    (w : W) :
    M.run hasResult (.localSet x :: k) ⟨v :: stack, cells, w⟩ =
      (cells.store? x v).bind fun cells => M.run hasResult k ⟨stack, cells, w⟩ := by
  rw [run_cons, step, Option.bind_map]
  rfl

/-- A sequence that reaches its end has no `return`. -/
theorem ret_notMem_of_run {is : List PlainInstr} {c c' : Config V W}
    (h : M.run hasResult is c = some (.finished c')) : .ret ∉ is := by
  induction is generalizing c with
  | nil => exact List.not_mem_nil
  | cons i is ih =>
    rw [run_cons, Option.bind_eq_some_iff] at h
    obtain ⟨o, ho, h⟩ := h
    cases o with
    | returned r w => cases h
    | finished c₁ =>
      intro hmem
      rcases List.mem_cons.1 hmem with rfl | hmem
      · obtain ⟨_, -, hr⟩ := Option.map_eq_some_iff.1 ho
        cases hr
      · exact ih h hmem

end Machine

end Kelp.Wat
