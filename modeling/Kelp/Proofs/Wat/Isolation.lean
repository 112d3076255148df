import Kelp.Proofs.Meaning

/-!
# Statements that keep to themselves

The instructions of a function body run on one operand stack, which they share from statement to
statement. This module says what it means that a statement does not disturb the others, and when it
is so.

- `Machine.value` and `Machine.perform` run a folded instruction as it is written, without an
  operand stack: operands from left to right, and every callee is given exactly the values of the
  operands in its own clause.
- `Machine.SelfContained` says that a statement runs that way: it consumes nothing that lies on the
  stack, and it leaves the stack as it was. `Func.LeakFree` says so of every statement of a function
  that is reached.
- `Instr.Balanced` is the condition on the text: every call has as many operands as its callee
  takes, every operand has a value, and nothing is left over.
- `Instr.Balanced.selfContained`: balanced statements are self-contained.
-/

namespace Kelp.Wat

/-! ## Running as written -/

section AsWritten

variable {V W : Type} (M : Machine V W)

mutual

/-- The value of a folded instruction as it is written, and the world after it. -/
def Machine.value (cells : Cells V) : Instr → W → Option (V × W)
  | .const n, w => (word? n).map fun x => (M.word x, w)
  | .localGet x, w => (cells x).map fun v => (v, w)
  | .binary op a b, w => do
    let (u, w) ← Machine.value cells a w
    let (v, w) ← Machine.value cells b w
    return (M.binary op u v, w)
  | .call f es, w => do
    let (vs, w) ← Machine.values cells es w
    M.call f vs w
  | .localSet _ _, _ => none
  | .structGet _ _, _ => none
  | .ret _, _ => none

/-- The values of several folded instructions, from left to right. -/
def Machine.values (cells : Cells V) : List Instr → W → Option (List V × W)
  | [], w => some ([], w)
  | e :: es, w => do
    let (v, w) ← Machine.value cells e w
    let (vs, w) ← Machine.values cells es w
    return (v :: vs, w)

end

/-- Run a statement as it is written: a local is set to the value of its own operand, a `return` has
the value of its own operand as its result, and the value of any other statement is dropped. The
operand stack plays no role. -/
def Machine.perform (hasResult : Bool) : Instr → Config V W → Option (Outcome V W)
  | .localSet x e, c => do
    let (v, w) ← M.value c.cells e c.world
    let cells ← c.cells.store? x v
    return .finished { c with cells, world := w }
  | .ret e, c => do
    let (v, w) ← M.value c.cells e c.world
    return .returned (if hasResult then some v else none) w
  | e, c => do
    let (_, w) ← M.value c.cells e c.world
    return .finished { c with world := w }

/-- The outcome with further values at the bottom of the stack. -/
def Outcome.onto (below : List V) : Outcome V W → Outcome V W
  | .finished c => .finished { c with stack := c.stack ++ below }
  | .returned r w => .returned r w

/-- The statement keeps to itself in the given configuration. -/
structure Machine.SelfContained (hasResult : Bool) (i : Instr) (c : Config V W) : Prop where
  /-- It consumes none of the values on the stack: it runs as it would on an empty one. -/
  isolated : M.run hasResult i.flatten c =
    (M.run hasResult i.flatten { c with stack := [] }).map (Outcome.onto c.stack)
  /-- Every call is given the operands of its own clause, a local is set to the value of its own
  operand, and if the statement ends without a `return` the stack is as it was before. -/
  asWritten : M.run hasResult i.flatten c = M.perform hasResult i c

/-- The configuration in which a function starts: an empty stack, the parameters with their
arguments, and the locals with zero. -/
def Func.start (g : Func) (arguments : List V) (w : W) : Config V W where
  stack := []
  cells := Cells.ofList ((g.params.map Binder.name).zip arguments ++
    g.locals.map fun name => (name, M.word 0))
  world := w

end AsWritten

/-- The function does not leak values from one statement into another: on every machine with the
given arities, for all arguments and in every world, each statement that is reached keeps to
itself. -/
def Func.LeakFree (arity : String → Option Arity) (g : Func) : Prop :=
  ∀ (V W : Type) (M : Machine V W), M.arity = arity →
    ∀ (arguments : List V) (w : W), arguments.length = g.params.length →
    ∀ (before : List Instr) (i : Instr) (after : List Instr), g.body = before ++ i :: after →
    ∀ c, M.run g.result.isSome (Instr.flattenAll before) (g.start M arguments w) =
        some (.finished c) →
      M.SelfContained g.result.isSome i c

/-! ## Balanced statements -/

mutual

/-- A folded instruction that leaves one value: constants are 32-bit integers, calls have as many
operands as their callee takes, and their callees have a result. -/
def Instr.Fits (Γ : String → Option Arity) : Instr → Prop
  | .const n => InWord n
  | .localGet _ => True
  | .binary _ a b => a.Fits Γ ∧ b.Fits Γ
  | .call f es => Takes Γ f es.length ∧ HasResult Γ f ∧ Instr.AllFit Γ es
  | .localSet _ _ => False
  | .structGet _ _ => False
  | .ret _ => False

/-- Folded instructions that leave one value each. -/
def Instr.AllFit (Γ : String → Option Arity) : List Instr → Prop
  | [] => True
  | e :: es => e.Fits Γ ∧ Instr.AllFit Γ es

end

/-- A folded instruction that leaves at most one value: a call that stands here may go to a callee
without a result. -/
def Instr.FitsLoosely (Γ : String → Option Arity) : Instr → Prop
  | .call f es => Takes Γ f es.length ∧ Instr.AllFit Γ es
  | e => e.Fits Γ

/-- A statement that takes its own operands and leaves nothing, in a function that has a result or
has none. -/
def Instr.Balanced (Γ : String → Option Arity) (hasResult : Bool) : Instr → Prop
  | .localSet _ e => e.Fits Γ
  | .ret e => if hasResult then e.Fits Γ else e.FitsLoosely Γ
  | .call f es => Takes Γ f es.length ∧ Instr.AllFit Γ es ∧ ¬ HasResult Γ f
  | _ => False

section Balanced

variable {V W : Type} {M : Machine V W} {hasResult : Bool}

theorem Machine.value_binary (cells : Cells V) (op : BinaryOp) (a b : Instr) (w : W) :
    M.value cells (.binary op a b) w = (M.value cells a w).bind fun (u, w) =>
      (M.value cells b w).bind fun (v, w) => some (M.binary op u v, w) := rfl

theorem Machine.value_call (cells : Cells V) (f : String) (es : List Instr) (w : W) :
    M.value cells (.call f es) w = (M.values cells es w).bind fun (vs, w) => M.call f vs w := rfl

theorem Machine.values_cons (cells : Cells V) (e : Instr) (es : List Instr) (w : W) :
    M.values cells (e :: es) w = (M.value cells e w).bind fun (v, w) =>
      (M.values cells es w).bind fun (vs, w) => some (v :: vs, w) := rfl

/-- Each instruction has one value. -/
theorem Machine.length_values {cells : Cells V} {es : List Instr} {w w' : W} {vs : List V}
    (h : M.values cells es w = some (vs, w')) : vs.length = es.length := by
  induction es generalizing w vs with
  | nil =>
    cases h
    rfl
  | cons e es ih =>
    rw [Machine.values_cons, Option.bind_eq_some_iff] at h
    obtain ⟨r, -, h⟩ := h
    obtain ⟨rs, hrs, h⟩ := Option.bind_eq_some_iff.1 h
    cases h
    rw [List.length_cons, List.length_cons, ih hrs]

/-- A call whose operands run as written does so too. What it leaves depends on its callee. -/
theorem run_call_of_operands {f : String} {arity : Arity} (harity : M.arity f = some arity)
    {es : List Instr} (hparams : arity.params = es.length)
    (hes : ∀ (k : List PlainInstr) (c : Config V W), M.run hasResult (Instr.flattenAll es ++ k) c =
      (M.values c.cells es c.world).bind fun (vs, w) =>
        M.run hasResult k ⟨vs.reverse ++ c.stack, c.cells, w⟩)
    (k : List PlainInstr) (c : Config V W) :
    M.run hasResult ((Instr.call f es).flatten ++ k) c =
      (M.value c.cells (.call f es) c.world).bind fun (v, w) => M.run hasResult k
        ⟨if arity.hasResult then v :: c.stack else c.stack, c.cells, w⟩ := by
  rw [Instr.flatten, List.append_assoc, hes, Machine.value_call, Option.bind_assoc]
  refine Option.bind_congr fun r hr => ?_
  have hlength := Machine.length_values hr
  exact Machine.run_call harity (hlength.trans hparams.symm) k c.stack c.cells r.2

mutual

/-- **Operands**: a folded instruction that fits runs as written and puts its value on the stack,
whatever comes after it. -/
theorem Instr.Fits.run : ∀ {i : Instr}, i.Fits M.arity → ∀ (k : List PlainInstr) (c : Config V W),
    M.run hasResult (i.flatten ++ k) c = (M.value c.cells i c.world).bind fun (v, w) =>
      M.run hasResult k ⟨v :: c.stack, c.cells, w⟩
  | .const n, h, k, c => by
    show M.run hasResult (.const n :: k) c = _
    rw [Machine.run_cons, Machine.step, Machine.value, word?_of_inWord h]
    rfl
  | .localGet x, _, k, c => by
    show M.run hasResult (.localGet x :: k) c = _
    rw [Machine.run_cons, Machine.step, Machine.value, Option.bind_map, Option.bind_map]
    rfl
  | .binary op a b, h, k, c => by
    rw [Instr.flatten, List.append_assoc, List.append_assoc, Instr.Fits.run h.1,
      Machine.value_binary, Option.bind_assoc]
    refine Option.bind_congr fun r _ => ?_
    show M.run hasResult (b.flatten ++ ([.binary op] ++ k)) ⟨r.1 :: c.stack, c.cells, r.2⟩ = _
    rw [Instr.Fits.run h.2, Option.bind_assoc]
    refine Option.bind_congr fun r' _ => ?_
    exact Machine.run_binary op r.1 r'.1 k c.stack c.cells r'.2
  | .call f es, h, k, c => by
    obtain ⟨⟨arity, harity, hparams⟩, ⟨arity', harity', hresult⟩, hes⟩ := h
    -- the callee has a result, which lies on the stack then
    rw [harity] at harity'
    cases harity'
    rw [run_call_of_operands harity hparams fun k c => Instr.AllFit.run hes k c]
    refine Option.bind_congr fun r _ => ?_
    show M.run hasResult k ⟨if arity.hasResult then _ else _, c.cells, r.2⟩ = _
    rw [if_pos hresult]

/-- The values of several instructions lie on the stack in reverse order. -/
theorem Instr.AllFit.run : ∀ {es : List Instr}, Instr.AllFit M.arity es →
    ∀ (k : List PlainInstr) (c : Config V W),
    M.run hasResult (Instr.flattenAll es ++ k) c =
      (M.values c.cells es c.world).bind fun (vs, w) =>
        M.run hasResult k ⟨vs.reverse ++ c.stack, c.cells, w⟩
  | [], _, k, c => rfl
  | e :: es, h, k, c => by
    rw [Instr.flattenAll, List.append_assoc, Instr.Fits.run h.1, Machine.values_cons,
      Option.bind_assoc]
    refine Option.bind_congr fun r _ => ?_
    show M.run hasResult (Instr.flattenAll es ++ k) ⟨r.1 :: c.stack, c.cells, r.2⟩ = _
    rw [Instr.AllFit.run h.2, Option.bind_assoc]
    refine Option.bind_congr fun rs _ => ?_
    show M.run hasResult k ⟨rs.1.reverse ++ r.1 :: c.stack, c.cells, rs.2⟩ =
      M.run hasResult k ⟨(r.1 :: rs.1).reverse ++ c.stack, c.cells, rs.2⟩
    rw [List.reverse_cons, List.append_assoc]
    rfl

end

/-- The operand of a `return` in a function without a result: its value does not count. -/
theorem Instr.FitsLoosely.run_ret {e : Instr} (h : e.FitsLoosely M.arity) (c : Config V W) :
    M.run false (e.flatten ++ [.ret]) c =
      (M.value c.cells e c.world).bind fun (_, w) => some (.returned none w) := by
  by_cases hcall : ∃ f es, e = .call f es
  · obtain ⟨f, es, rfl⟩ := hcall
    obtain ⟨⟨arity, harity, hparams⟩, hes⟩ := h
    rw [run_call_of_operands harity hparams fun k c => hes.run k c]
    rfl
  · have hfits : e.Fits M.arity := by
      cases e with
      | call f es => exact absurd ⟨f, es, rfl⟩ hcall
      | _ => exact h
    rw [hfits.run]
    rfl

/-- **Balanced statements** run as written, in every configuration. -/
theorem Instr.Balanced.run {i : Instr} (h : i.Balanced M.arity hasResult) (c : Config V W) :
    M.run hasResult i.flatten c = M.perform hasResult i c := by
  cases i with
  | localSet x e =>
    have he : e.Fits M.arity := h
    rw [Instr.flatten, he.run]
    refine Option.bind_congr fun r _ => ?_
    exact Machine.run_localSet x r.1 [] c.stack c.cells r.2
  | ret e =>
    rw [Instr.flatten]
    cases hasResult with
    | true =>
      have he : e.Fits M.arity := h
      rw [he.run]
      rfl
    | false =>
      have he : e.FitsLoosely M.arity := h
      rw [he.run_ret]
      rfl
  | call f es =>
    obtain ⟨⟨arity, harity, hparams⟩, hes, hresult⟩ := h
    -- the callee has no result, so nothing is left over
    have hnone : ¬ arity.hasResult = true := fun htrue => hresult ⟨arity, harity, htrue⟩
    rw [← List.append_nil (Instr.flatten _),
      run_call_of_operands harity hparams fun k c => hes.run k c]
    refine Option.bind_congr fun r _ => ?_
    show some (Outcome.finished ⟨if arity.hasResult then _ else _, c.cells, r.2⟩) = _
    rw [if_neg hnone]
    rfl
  | const n => exact h.elim
  | localGet x => exact h.elim
  | structGet f e => exact h.elim
  | binary op a b => exact h.elim

/-- What is performed as written does not depend on the stack, which stays as it is. -/
theorem Machine.perform_onto (i : Instr) (c : Config V W) :
    (M.perform hasResult i { c with stack := [] }).map (Outcome.onto c.stack) =
      M.perform hasResult i c := by
  cases i with
  | localSet x e =>
    show (((M.value c.cells e c.world).bind fun r => (c.cells.store? x r.1).bind fun cells =>
      some (Outcome.finished ⟨[], cells, r.2⟩)).map _) = _
    rw [Option.map_bind]
    refine Option.bind_congr fun r _ => ?_
    exact Option.map_bind
  | ret e => exact Option.map_bind
  | const n => exact Option.map_bind
  | localGet x => exact Option.map_bind
  | structGet f e => rfl
  | binary op a b => exact Option.map_bind
  | call f es => exact Option.map_bind

/-- **Balanced statements keep to themselves**, in every configuration. -/
theorem Instr.Balanced.selfContained {i : Instr} (h : i.Balanced M.arity hasResult)
    (c : Config V W) : M.SelfContained hasResult i c := by
  constructor
  · rw [h.run, h.run, Machine.perform_onto]
  · exact h.run c

end Balanced

end Kelp.Wat
