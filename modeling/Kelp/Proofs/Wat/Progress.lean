import Kelp.Proofs.Wat.Resolution

/-!
# Checked bodies do not get stuck

The check of function bodies counts operands. As long as no `return` has been executed, the operand
stack of a machine is as high as the stack of types, so no instruction of a checked body lacks an
operand.

- `Config.Described` relates configurations and type stacks, and `Machine.Supports` says that the
  calls of a machine agree with the declared types and do not fail.
- `step_of_check`: an instruction that passes the check runs, and `run_of_check`: so does a sequence
  of them. Where there is no `return` the configuration afterwards is described again.
-/

namespace Kelp.Wat

open Wasm (TypeStack Context)

/-! ## Heights of type stacks -/

/-- A pop takes exactly one type, where code can be reached. -/
theorem pop?_eq_some {s s' : TypeStack} {t : Wasm.ValueType} (hs : s.unreachable = false)
    (h : s.pop? t = some s') :
    s'.unreachable = false ∧ s.operands.length = s'.operands.length + 1 := by
  unfold TypeStack.pop? at h
  split at h
  next top rest hoperands =>
    split at h
    next =>
      cases h
      exact ⟨hs, by rw [hoperands, List.length_cons]⟩
    next => cases h
  next =>
    rw [if_neg (by rw [hs]; decide)] at h
    cases h

theorem foldlM_pop?_eq_some {types : List Wasm.ValueType} {s s' : TypeStack}
    (hs : s.unreachable = false) (h : types.foldlM TypeStack.pop? s = some s') :
    s'.unreachable = false ∧ s.operands.length = s'.operands.length + types.length := by
  induction types generalizing s with
  | nil =>
    cases h
    exact ⟨hs, rfl⟩
  | cons t types ih =>
    rw [List.foldlM_cons, Option.bind_eq_bind, Option.bind_eq_some_iff] at h
    obtain ⟨s₁, hpop, h⟩ := h
    obtain ⟨hs₁, hlength⟩ := pop?_eq_some hs hpop
    obtain ⟨hs', hlength'⟩ := ih hs₁ h
    refine ⟨hs', ?_⟩
    rw [hlength, hlength', List.length_cons]
    omega

/-- So several pops take as many types as are asked for. -/
theorem popAll?_eq_some {types : List Wasm.ValueType} {s s' : TypeStack}
    (hs : s.unreachable = false) (h : s.popAll? types = some s') :
    s'.unreachable = false ∧ s.operands.length = s'.operands.length + types.length := by
  obtain ⟨hs', hlength⟩ := foldlM_pop?_eq_some hs h
  rw [List.length_reverse] at hlength
  exact ⟨hs', hlength⟩

theorem length_pushResult (s : TypeStack) (result : Option Wasm.ValueType) :
    (s.pushResult result).operands.length =
      s.operands.length + if result.isSome then 1 else 0 := by
  cases result <;> rfl

theorem unreachable_pushResult (s : TypeStack) (result : Option Wasm.ValueType) :
    (s.pushResult result).unreachable = s.unreachable := by
  cases result <;> rfl

/-! ## Running checked instructions -/

section Progress

variable {V W : Type}

/-- The type stack describes the configuration: it is as high as the operand stack, and the named
parameters and locals have values. -/
structure Config.Described (c : Config V W) (locals : List String) (s : TypeStack) : Prop where
  reachable : s.unreachable = false
  height : c.stack.length = s.operands.length
  cells : ∀ x ∈ locals, (c.cells x).isSome = true

/-- The machine runs bodies in the context, where `functions` are the names of all functions: calls
take operands and leave a result as the types say, and they do not fail. -/
structure Machine.Supports (M : Machine V W) (hasResult : Bool) (functions : List String)
    (Γ : Context) : Prop where
  result : hasResult = Γ.result.isSome
  arity : ∀ {f n t}, functions.idxOf? f = some n → Γ.functions[n]? = some t →
    M.arity f = some (typeArity t)
  total : ∀ f vs w, (M.arity f).isSome = true → (M.call f vs w).isSome = true

theorem takeOperands_of_le {n : Nat} {stack : List V} (h : n ≤ stack.length) :
    takeOperands n stack = some ((stack.take n).reverse, stack.drop n) :=
  if_pos h

theorem mem_of_idxOf?_eq_some {names : List String} {x : String} {n : Nat}
    (h : names.idxOf? x = some n) : x ∈ names := by
  by_contra hx
  rw [List.idxOf?_eq_none_iff.2 hx] at h
  cases h

/-- A store takes no value away. -/
theorem Cells.isSome_of_store? {cells cells' : Cells V} {x : String} {v : V}
    (h : cells.store? x v = some cells') {y : String} (hy : (cells y).isSome = true) :
    (cells' y).isSome = true := by
  obtain ⟨_, -, rfl⟩ := Option.map_eq_some_iff.1 h
  beta_reduce
  split
  · rfl
  · exact hy

variable {M : Machine V W} {hasResult : Bool} {locals functions : List String} {Γ : Context}

/-- A call with enough operands does not get stuck. -/
theorem enter_of_le (hM : M.Supports hasResult functions Γ) {f : String} {arity : Arity}
    (harity : M.arity f = some arity) {c : Config V W} (hle : arity.params ≤ c.stack.length) :
    ∃ stack w, M.enter f c = some ⟨stack, c.cells, w⟩ ∧
      stack.length = c.stack.length - arity.params + if arity.hasResult then 1 else 0 := by
  obtain ⟨r, hr⟩ := Option.isSome_iff_exists.1
    (hM.total f (c.stack.take arity.params).reverse c.world (by rw [harity]; rfl))
  refine ⟨if arity.hasResult then r.1 :: c.stack.drop arity.params else c.stack.drop arity.params,
    r.2, ?_, ?_⟩
  · simp only [Machine.enter, harity, takeOperands_of_le hle, hr, Option.bind_eq_bind,
      Option.bind_some, Option.pure_def]
  · split
    · rw [List.length_cons, List.length_drop]
    · rw [List.length_drop]
      rfl

/-- A value and its type are pushed together. -/
theorem Config.Described.push {c : Config V W} {s : TypeStack} (hc : c.Described locals s) (v : V)
    (t : Wasm.ValueType) : (c.push v).Described locals (s.push t) :=
  ⟨hc.reachable, congrArg (· + 1) hc.height, hc.cells⟩

/-- An operator with two operands on the stack. -/
theorem step_binary_of_check (op : BinaryOp) {s s' : TypeStack}
    (hs : s.popAll? [.i32, .i32] = some s') {c : Config V W} (hc : c.Described locals s) :
    ∃ c', M.step hasResult (.binary op) c = some (.finished c') ∧
      c'.Described locals (s'.push .i32) := by
  obtain ⟨hreachable, hlength⟩ := popAll?_eq_some hc.reachable hs
  have hheight := hc.height
  rw [hlength] at hheight
  cases hstack : c.stack with
  | nil => simp [hstack] at hheight
  | cons b stack =>
    cases stack with
    | nil => simp [hstack] at hheight
    | cons a stack =>
      refine ⟨{ c with stack := M.binary op a b :: stack }, by rw [Machine.step, hstack],
        hreachable, ?_, hc.cells⟩
      rw [hstack] at hheight
      simpa [TypeStack.push] using hheight

/-- A store with an operand on the stack. -/
theorem step_localSet_of_check {x : String} (hx : x ∈ locals) {s s' : TypeStack}
    {t : Wasm.ValueType} (hs : s.pop? t = some s') {c : Config V W} (hc : c.Described locals s) :
    ∃ c', M.step hasResult (.localSet x) c = some (.finished c') ∧ c'.Described locals s' := by
  obtain ⟨v, hv⟩ := Option.isSome_iff_exists.1 (hc.cells x hx)
  obtain ⟨hreachable, hlength⟩ := pop?_eq_some hc.reachable hs
  have hheight := hc.height
  rw [hlength] at hheight
  cases hstack : c.stack with
  | nil => simp [hstack] at hheight
  | cons u stack =>
    have hstore : c.cells.store? x u = some fun y => if y = x then some u else c.cells y := by
      rw [Cells.store?, hv]
      rfl
    refine ⟨_, by rw [Machine.step, hstack]; simp only [hstore]; rfl, hreachable, ?_, ?_⟩
    · rw [hstack] at hheight
      simpa using hheight
    · exact fun y hy => Cells.isSome_of_store? hstore (hc.cells y hy)

/-- A call with the operands that its type asks for. -/
theorem step_call_of_check (hM : M.Supports hasResult functions Γ) {f : String}
    {t : Wasm.FuncType} (harity : M.arity f = some (typeArity t)) {s s' : TypeStack}
    (hs : s.popAll? t.params = some s') {c : Config V W} (hc : c.Described locals s) :
    ∃ c', M.step hasResult (.call f) c = some (.finished c') ∧
      c'.Described locals (s'.pushResult t.result) := by
  obtain ⟨hreachable, hlength⟩ := popAll?_eq_some hc.reachable hs
  have hheight := hc.height
  have hle : (typeArity t).params ≤ c.stack.length := by
    rw [hheight, hlength]
    exact Nat.le_add_left _ _
  obtain ⟨stack, w, henter, hstack⟩ := enter_of_le hM harity hle
  refine ⟨⟨stack, c.cells, w⟩, by rw [Machine.step, henter]; rfl, ?_, ?_, hc.cells⟩
  · rw [unreachable_pushResult, hreachable]
  · show stack.length = _
    rw [hstack, length_pushResult, hheight, hlength]
    show s'.operands.length + t.params.length - t.params.length + _ = _
    rw [Nat.add_sub_cancel]
    rfl

/-- A `return` with the result that the type of the function asks for. -/
theorem step_ret_of_check (hM : M.Supports hasResult functions Γ) {s s' : TypeStack}
    (hs : s.popResult? Γ.result = some s') {c : Config V W} (hc : c.Described locals s) :
    ∃ v w, M.step hasResult .ret c = some (.returned v w) := by
  have hresult := hM.result
  cases htype : Γ.result with
  | none =>
    rw [htype] at hresult
    subst hresult
    exact ⟨none, c.world, rfl⟩
  | some t =>
    rw [htype] at hresult hs
    subst hresult
    -- the type of the result is on the stack of types, so there is a value
    obtain ⟨-, hlength⟩ := pop?_eq_some hc.reachable hs
    have hheight := hc.height
    cases hstack : c.stack with
    | nil =>
      rw [hlength, hstack] at hheight
      simp at hheight
    | cons v stack => exact ⟨some v, c.world, by rw [Machine.step, hstack]; rfl⟩

/-- **One instruction** that passes the check runs. -/
theorem step_of_check (hM : M.Supports hasResult functions Γ) {p : PlainInstr} {r : Wasm.Instr}
    (hr : p.resolve? locals functions = some r) {s s' : TypeStack} (hs : r.check Γ s = some s')
    {c : Config V W} (hc : c.Described locals s) :
    (∃ c', M.step hasResult p c = some (.finished c') ∧ p ≠ .ret ∧ c'.Described locals s') ∨
      ∃ v w, M.step hasResult p c = some (.returned v w) ∧ p = .ret := by
  cases p with
  | const n =>
    obtain ⟨w, hw, rfl⟩ := Option.map_eq_some_iff.1 hr
    cases hs
    exact Or.inl ⟨_, by rw [Machine.step, hw]; rfl, nofun, hc.push _ _⟩
  | localGet x =>
    obtain ⟨n, hn, rfl⟩ := Option.map_eq_some_iff.1 hr
    obtain ⟨v, hv⟩ := Option.isSome_iff_exists.1 (hc.cells x (mem_of_idxOf?_eq_some hn))
    rw [Wasm.Instr.check, Option.bind_eq_bind, Option.bind_eq_some_iff] at hs
    obtain ⟨t, -, hs⟩ := hs
    cases hs
    exact Or.inl ⟨_, by rw [Machine.step, hv]; rfl, nofun, hc.push _ _⟩
  | localSet x =>
    obtain ⟨n, hn, rfl⟩ := Option.map_eq_some_iff.1 hr
    rw [Wasm.Instr.check, Option.bind_eq_bind, Option.bind_eq_some_iff] at hs
    obtain ⟨t, -, hs⟩ := hs
    obtain ⟨c', hstep, hc'⟩ := step_localSet_of_check (mem_of_idxOf?_eq_some hn) hs hc
    exact Or.inl ⟨c', hstep, nofun, hc'⟩
  | structGet f => cases hr
  | binary op =>
    have hbinary : ∃ s₁, s.popAll? [.i32, .i32] = some s₁ ∧ s' = s₁.push .i32 := by
      cases op <;> cases hr <;>
        rw [Wasm.Instr.check, Option.bind_eq_bind, Option.bind_eq_some_iff] at hs <;>
        obtain ⟨s₁, hs₁, hs⟩ := hs <;> exact ⟨s₁, hs₁, (Option.some.inj hs).symm⟩
    obtain ⟨s₁, hs₁, rfl⟩ := hbinary
    obtain ⟨c', hstep, hc'⟩ := step_binary_of_check op hs₁ hc
    exact Or.inl ⟨c', hstep, nofun, hc'⟩
  | call f =>
    obtain ⟨n, hn, rfl⟩ := Option.map_eq_some_iff.1 hr
    simp only [Wasm.Instr.check, Option.bind_eq_bind, Option.bind_eq_some_iff] at hs
    obtain ⟨t, ht, s₁, hs₁, hs⟩ := hs
    cases hs
    obtain ⟨c', hstep, hc'⟩ := step_call_of_check hM (hM.arity hn ht) hs₁ hc
    exact Or.inl ⟨c', hstep, nofun, hc'⟩
  | ret =>
    cases hr
    rw [Wasm.Instr.check, Option.bind_eq_bind, Option.bind_eq_some_iff] at hs
    obtain ⟨s₁, hs₁, -⟩ := hs
    obtain ⟨v, w, hstep⟩ := step_ret_of_check hM hs₁ hc
    exact Or.inr ⟨v, w, hstep, rfl⟩

/-- **A sequence** that passes the check runs. Without a `return` it reaches its end. -/
theorem run_of_check (hM : M.Supports hasResult functions Γ) {ps : List PlainInstr}
    {rs : List Wasm.Instr}
    (hrs : List.Forall₂ (fun p r => p.resolve? locals functions = some r) ps rs)
    {s s' : TypeStack} (hs : rs.foldlM (Wasm.Instr.check Γ) s = some s') {c : Config V W}
    (hc : c.Described locals s) :
    ∃ o, M.run hasResult ps c = some o ∧
      (.ret ∉ ps → ∃ c', o = .finished c' ∧ c'.Described locals s') := by
  induction hrs generalizing s c with
  | nil =>
    cases hs
    exact ⟨_, rfl, fun _ => ⟨c, rfl, hc⟩⟩
  | @cons p r ps rs hr _ ih =>
    rw [List.foldlM_cons, Option.bind_eq_bind, Option.bind_eq_some_iff] at hs
    obtain ⟨s₁, hs₁, hs⟩ := hs
    rw [Machine.run_cons]
    rcases step_of_check hM hr hs₁ hc with ⟨c₁, hstep, -, hc₁⟩ | ⟨v, w, hstep, rfl⟩
    · obtain ⟨o, ho, hend⟩ := ih hs hc₁
      rw [hstep]
      exact ⟨o, ho, fun hret => hend fun hmem => hret (List.mem_cons_of_mem p hmem)⟩
    · rw [hstep]
      -- a `return` ends the run, whatever comes after it
      exact ⟨_, rfl, fun hret => absurd List.mem_cons_self hret⟩

end Progress

end Kelp.Wat
