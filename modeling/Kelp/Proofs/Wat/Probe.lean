import Kelp.Proofs.Wat.Isolation

/-!
# A machine that finds out statements that leak

Self-contained statements are balanced. One machine is enough to see it, which has truth values in
place of words: `true` for a value that an instruction leaves, `false` for what stands in for the
value of a call without a result, and for all that is computed from it. Since instructions leave
nothing but `true`, the stack holds nothing else. The world is a truth value too, which becomes
`false` when a call is given anything but as many times `true` as its callee has parameters.

- `probe` is this machine, and `Truthful.run` says that a run on the stack only meets `true`. Where
  a statement runs as written, it does so there too.
- `fits_of_value` reads off the text from a value `true` in a world `true`.
- `balanced_of_selfContained`: a statement that keeps to itself on this machine is balanced.
-/

namespace Kelp.Wat

/-- The machine on truth values. -/
def probe (Γ : String → Option Arity) : Machine Bool Bool where
  word _ := true
  binary _ a b := a && b
  arity := Γ
  call f vs ok :=
    (Γ f).map fun arity => (arity.hasResult, ok && decide (vs = List.replicate arity.params true))

/-- All that the configuration holds is `true`. -/
structure Truthful (c : Config Bool Bool) : Prop where
  stack : ∀ v ∈ c.stack, v = true
  cells : ∀ {x v}, c.cells x = some v → v = true
  world : c.world = true

/-- All that the outcome holds is `true`. -/
def Outcome.Truthful : Outcome Bool Bool → Prop
  | .finished c => Wat.Truthful c
  | .returned r w => (∀ v ∈ r, v = true) ∧ w = true

section Probe

variable {Γ : String → Option Arity} {hasResult : Bool}

theorem Truthful.push {c : Config Bool Bool} (h : Truthful c) {v : Bool} (hv : v = true) :
    Truthful (c.push v) :=
  ⟨List.forall_mem_cons.2 ⟨hv, h.stack⟩, h.cells, h.world⟩

/-- A call takes only `true` from the stack, and leaves `true` or nothing. -/
theorem Truthful.enter {f : String} {c c' : Config Bool Bool} (h : Truthful c)
    (hc' : (probe Γ).enter f c = some c') : Truthful c' := by
  simp only [Machine.enter, Option.bind_eq_bind, Option.bind_eq_some_iff] at hc'
  obtain ⟨arity, harity, ⟨vs, stack⟩, htake, ⟨v, ok⟩, hcall, hc'⟩ := hc'
  cases hc'
  have hΓ : Γ f = some arity := harity
  unfold takeOperands at htake
  split at htake
  next hle =>
    cases htake
    obtain ⟨arity', harity', hr⟩ := Option.map_eq_some_iff.1 hcall
    rw [hΓ] at harity'
    cases harity'
    cases hr
    have hdrop : ∀ v ∈ c.stack.drop arity.params, v = true :=
      fun v hv => h.stack v (List.mem_of_mem_drop hv)
    -- the operands are the top of the stack, all of which is `true`
    have hoperands : (c.stack.take arity.params).reverse = List.replicate arity.params true := by
      refine List.eq_replicate_iff.2 ⟨?_, ?_⟩
      · rw [List.length_reverse, List.length_take_of_le hle]
      · intro v hv
        exact h.stack v (List.mem_of_mem_take (List.mem_reverse.1 hv))
    refine ⟨?_, h.cells, ?_⟩
    · show ∀ v ∈ (if arity.hasResult then arity.hasResult :: c.stack.drop arity.params
        else c.stack.drop arity.params), v = true
      split
      next hresult => exact List.forall_mem_cons.2 ⟨hresult, hdrop⟩
      next => exact hdrop
    · show (c.world && decide _) = true
      rw [h.world, hoperands, Bool.true_and]
      exact decide_eq_true rfl
  next => cases htake

/-- One instruction keeps everything `true`. -/
theorem Truthful.step {p : PlainInstr} {c : Config Bool Bool} (h : Truthful c)
    {o : Outcome Bool Bool} (ho : (probe Γ).step hasResult p c = some o) : o.Truthful := by
  cases p with
  | const n =>
    obtain ⟨w, -, rfl⟩ := Option.map_eq_some_iff.1 ho
    exact h.push rfl
  | localGet x =>
    obtain ⟨v, hv, rfl⟩ := Option.map_eq_some_iff.1 ho
    exact h.push (h.cells hv)
  | localSet x =>
    rw [Machine.step] at ho
    split at ho
    next => cases ho
    next v stack hstack =>
      obtain ⟨cells, hcells, rfl⟩ := Option.map_eq_some_iff.1 ho
      obtain ⟨_, -, rfl⟩ := Option.map_eq_some_iff.1 hcells
      have hall := h.stack
      rw [hstack] at hall
      obtain ⟨hv, hstack⟩ := List.forall_mem_cons.1 hall
      refine ⟨hstack, ?_, h.world⟩
      intro y u hu
      change (if y = x then some v else c.cells y) = some u at hu
      split at hu
      next =>
        cases hu
        exact hv
      next => exact h.cells hu
  | structGet f => cases ho
  | binary op =>
    rw [Machine.step] at ho
    split at ho
    next b a stack hstack =>
      cases ho
      have hall := h.stack
      rw [hstack] at hall
      obtain ⟨hb, hall⟩ := List.forall_mem_cons.1 hall
      obtain ⟨ha, hstack⟩ := List.forall_mem_cons.1 hall
      refine ⟨List.forall_mem_cons.2 ⟨?_, hstack⟩, h.cells, h.world⟩
      show (a && b) = true
      rw [ha, hb]
      rfl
    next => cases ho
  | call f =>
    obtain ⟨c', hc', rfl⟩ := Option.map_eq_some_iff.1 ho
    exact h.enter hc'
  | ret =>
    obtain ⟨r, hr, rfl⟩ := Option.map_eq_some_iff.1 ho
    refine ⟨?_, h.world⟩
    intro v hv
    cases hv
    unfold takeResult at hr
    split at hr
    next =>
      obtain ⟨u, hu, huv⟩ := Option.map_eq_some_iff.1 hr
      cases huv
      exact h.stack _ (List.mem_of_head? hu)
    next => cases hr

/-- A run on the stack keeps everything `true`. -/
theorem Truthful.run {ps : List PlainInstr} {c : Config Bool Bool} (h : Truthful c)
    {o : Outcome Bool Bool} (ho : (probe Γ).run hasResult ps c = some o) : o.Truthful := by
  induction ps generalizing c with
  | nil =>
    cases ho
    exact h
  | cons p ps ih =>
    rw [Machine.run_cons, Option.bind_eq_some_iff] at ho
    obtain ⟨o₁, ho₁, ho⟩ := ho
    have ho₁ := h.step ho₁
    cases o₁ with
    | finished c₁ => exact ih ho₁ ho
    | returned r w =>
      cases ho
      exact ho₁

/-! ## What `true` says about the text -/

mutual

/-- A world that is `false` stays so. -/
theorem eq_false_of_value {cells : Cells Bool} : ∀ {i : Instr} {b ok : Bool},
    (probe Γ).value cells i false = some (b, ok) → ok = false
  | .const n, b, ok, h => by
    obtain ⟨_, -, hr⟩ := Option.map_eq_some_iff.1 h
    cases hr
    rfl
  | .localGet x, b, ok, h => by
    obtain ⟨_, -, hr⟩ := Option.map_eq_some_iff.1 h
    cases hr
    rfl
  | .binary op a₁ a₂, b, ok, h => by
    rw [Machine.value_binary, Option.bind_eq_some_iff] at h
    obtain ⟨⟨u₁, ok₁⟩, h₁, h⟩ := h
    obtain ⟨⟨u₂, ok₂⟩, h₂, h⟩ := Option.bind_eq_some_iff.1 h
    cases h
    cases eq_false_of_value h₁
    exact eq_false_of_value h₂
  | .call f es, b, ok, h => by
    rw [Machine.value_call, Option.bind_eq_some_iff] at h
    obtain ⟨⟨vs, ok₁⟩, hvs, h⟩ := h
    obtain ⟨_, -, hr⟩ := Option.map_eq_some_iff.1 h
    cases hr
    rw [eq_false_of_values hvs]
    rfl

theorem eq_false_of_values {cells : Cells Bool} : ∀ {es : List Instr} {vs : List Bool} {ok : Bool},
    (probe Γ).values cells es false = some (vs, ok) → ok = false
  | [], vs, ok, h => by
    cases h
    rfl
  | e :: es, vs, ok, h => by
    rw [Machine.values_cons, Option.bind_eq_some_iff] at h
    obtain ⟨⟨u, ok₁⟩, h₁, h⟩ := h
    obtain ⟨⟨us, ok₂⟩, h₂, h⟩ := Option.bind_eq_some_iff.1 h
    cases h
    cases eq_false_of_value h₁
    exact eq_false_of_values h₂

end

/-- The value of an operator, where the world stays `true`: so it did between the operands. -/
theorem value_binary_eq_some {cells : Cells Bool} {op : BinaryOp} {a₁ a₂ : Instr} {b : Bool}
    (h : (probe Γ).value cells (.binary op a₁ a₂) true = some (b, true)) :
    ∃ u₁ u₂, (probe Γ).value cells a₁ true = some (u₁, true) ∧
      (probe Γ).value cells a₂ true = some (u₂, true) ∧ b = (u₁ && u₂) := by
  rw [Machine.value_binary, Option.bind_eq_some_iff] at h
  obtain ⟨⟨u₁, ok₁⟩, h₁, h⟩ := h
  obtain ⟨⟨u₂, ok₂⟩, h₂, h⟩ := Option.bind_eq_some_iff.1 h
  cases h
  cases ok₁ with
  -- a world that is `false` between the operands would stay so
  | false => cases eq_false_of_value h₂
  | true => exact ⟨u₁, u₂, h₁, h₂, rfl⟩

/-- The value of a call, where the world stays `true`: the callee was given as many times `true` as
it has parameters. -/
theorem value_call_eq_some {cells : Cells Bool} {f : String} {es : List Instr} {b : Bool}
    (h : (probe Γ).value cells (.call f es) true = some (b, true)) :
    ∃ arity, Γ f = some arity ∧ arity.params = es.length ∧ arity.hasResult = b ∧
      (probe Γ).values cells es true = some (List.replicate es.length true, true) := by
  rw [Machine.value_call, Option.bind_eq_some_iff] at h
  obtain ⟨⟨vs, ok⟩, hvs, h⟩ := h
  obtain ⟨arity, harity, hr⟩ := Option.map_eq_some_iff.1 h
  obtain ⟨hb, hok⟩ := Prod.mk.inj hr
  obtain ⟨rfl, hdecide⟩ := Bool.and_eq_true_iff.1 hok
  obtain rfl := of_decide_eq_true hdecide
  have hlength : arity.params = es.length := by
    rw [← Machine.length_values hvs, List.length_replicate]
  rw [hlength] at hvs
  exact ⟨arity, harity, hlength, hb, hvs⟩

mutual

/-- **Reading off**: an instruction whose value is `true`, in a world that stays `true`, fits. -/
theorem fits_of_value {cells : Cells Bool} : ∀ {i : Instr},
    (probe Γ).value cells i true = some (true, true) → i.Fits Γ
  | .const n, h => by
    obtain ⟨_, hword, -⟩ := Option.map_eq_some_iff.1 h
    exact inWord_of_word? hword
  | .localGet x, _ => trivial
  | .binary op a₁ a₂, h => by
    obtain ⟨u₁, u₂, h₁, h₂, hb⟩ := value_binary_eq_some h
    obtain ⟨rfl, rfl⟩ := Bool.and_eq_true_iff.1 hb.symm
    exact ⟨fits_of_value h₁, fits_of_value h₂⟩
  | .call f es, h => by
    obtain ⟨arity, harity, hparams, hresult, hes⟩ := value_call_eq_some h
    exact ⟨⟨arity, harity, hparams⟩, ⟨arity, harity, hresult⟩, allFit_of_values hes⟩

theorem allFit_of_values {cells : Cells Bool} : ∀ {es : List Instr},
    (probe Γ).values cells es true = some (List.replicate es.length true, true) →
      Instr.AllFit Γ es
  | [], _ => trivial
  | e :: es, h => by
    rw [Machine.values_cons, Option.bind_eq_some_iff] at h
    obtain ⟨⟨u, ok⟩, hu, h⟩ := h
    obtain ⟨⟨us, ok'⟩, hus, h⟩ := Option.bind_eq_some_iff.1 h
    obtain ⟨hvs, rfl⟩ := Prod.mk.inj (Option.some.inj h)
    obtain ⟨rfl, rfl⟩ := List.cons.inj hvs
    cases ok with
    | false => cases eq_false_of_values hus
    | true => exact ⟨fits_of_value hu, allFit_of_values hus⟩

end

/-! ## Heights

An operator may find its operands on the stack although one of the instructions in its clause left
none, as long as enough lies there from before. On an empty stack it does not. -/

/-- A run of two sequences has a run of the first one, and of the second one from its end. -/
theorem run_append_eq_some {V W : Type} {M : Machine V W} {is js : List PlainInstr}
    {c : Config V W} {o : Outcome V W} (h : M.run hasResult (is ++ js) c = some o) :
    ∃ o₁, M.run hasResult is c = some o₁ ∧
      ∀ c₁, o₁ = .finished c₁ → M.run hasResult js c₁ = some o := by
  rw [Machine.run_append, Option.bind_eq_some_iff] at h
  obtain ⟨o₁, ho₁, h⟩ := h
  refine ⟨o₁, ho₁, ?_⟩
  rintro c₁ rfl
  exact h

/-- An operator takes two values and leaves one. -/
theorem step_binary_eq_some {V W : Type} {M : Machine V W} {op : BinaryOp} {c : Config V W}
    {o : Outcome V W} (h : M.run hasResult [.binary op] c = some o) :
    ∃ c', o = .finished c' ∧ c.stack.length = c'.stack.length + 1 ∧ 0 < c'.stack.length := by
  rw [Machine.run_cons, Machine.step] at h
  split at h
  next b a stack hstack =>
    cases h
    exact ⟨_, rfl, by rw [hstack]; rfl, Nat.succ_pos _⟩
  next => cases h

/-- An instruction adds at most one value to the stack, and none where its value is `false`. -/
theorem height_of_value {cells : Cells Bool} (hcells : ∀ {x v}, cells x = some v → v = true) :
    ∀ {i : Instr} {b : Bool}, (probe Γ).value cells i true = some (b, true) →
    ∀ {c : Config Bool Bool} {o : Outcome Bool Bool},
      (probe Γ).run hasResult i.flatten c = some o →
    ∃ c', o = .finished c' ∧ c'.stack.length ≤ c.stack.length + b.toNat
  | .const n, b, h, c, o, ho => by
    obtain ⟨x, hword, hb⟩ := Option.map_eq_some_iff.1 h
    cases hb
    rw [Instr.flatten, Machine.run_cons, Machine.step, hword] at ho
    cases ho
    exact ⟨_, rfl, Nat.le_refl _⟩
  | .localGet x, b, h, c, o, ho => by
    obtain ⟨v, hv, hb⟩ := Option.map_eq_some_iff.1 h
    cases hb
    cases hcells hv
    rw [Instr.flatten, Machine.run_cons, Machine.step, Option.bind_map,
      Option.bind_eq_some_iff] at ho
    obtain ⟨_, -, ho⟩ := ho
    cases ho
    exact ⟨_, rfl, Nat.le_refl _⟩
  | .binary op a₁ a₂, b, h, c, o, ho => by
    obtain ⟨u₁, u₂, h₁, h₂, rfl⟩ := value_binary_eq_some h
    rw [Instr.flatten] at ho
    obtain ⟨o₂, ho₂, hrest⟩ := run_append_eq_some ho
    obtain ⟨o₁, ho₁, hrest₁⟩ := run_append_eq_some ho₂
    -- each operand adds at most one value, and the operator takes one away
    obtain ⟨c₁, rfl, hle₁⟩ := height_of_value hcells h₁ ho₁
    obtain ⟨c₂, rfl, hle₂⟩ := height_of_value hcells h₂ (hrest₁ c₁ rfl)
    obtain ⟨c₃, rfl, hheight, -⟩ := step_binary_eq_some (hrest c₂ rfl)
    refine ⟨c₃, rfl, ?_⟩
    cases u₁ <;> cases u₂ <;> simp only [Bool.toNat_false, Bool.toNat_true, Bool.and_true,
      Bool.and_false] at hle₁ hle₂ ⊢ <;> omega
  | .call f es, b, h, c, o, ho => by
    obtain ⟨arity, harity, hparams, rfl, hes⟩ := value_call_eq_some h
    have hfit : Instr.AllFit (probe Γ).arity es := allFit_of_values hes
    rw [← List.append_nil (Instr.flatten _),
      run_call_of_operands harity hparams fun k c => hfit.run k c, Option.bind_eq_some_iff] at ho
    obtain ⟨r, -, ho⟩ := ho
    cases ho
    refine ⟨_, rfl, ?_⟩
    cases arity.hasResult <;> exact Nat.le_refl _

/-- An operator that runs on the empty stack fits, whatever comes after it. -/
theorem fits_of_run_binary {cells : Cells Bool} (hcells : ∀ {x v}, cells x = some v → v = true)
    {op : BinaryOp} {a₁ a₂ : Instr} {b : Bool}
    (h : (probe Γ).value cells (.binary op a₁ a₂) true = some (b, true)) {k : List PlainInstr}
    {c : Config Bool Bool} (hc : c.stack = []) {o : Outcome Bool Bool}
    (ho : (probe Γ).run hasResult ((Instr.binary op a₁ a₂).flatten ++ k) c = some o) :
    (Instr.binary op a₁ a₂).Fits Γ := by
  obtain ⟨u₁, u₂, h₁, h₂, rfl⟩ := value_binary_eq_some h
  obtain ⟨o₃, ho₃, -⟩ := run_append_eq_some ho
  rw [Instr.flatten] at ho₃
  obtain ⟨o₂, ho₂, hrest⟩ := run_append_eq_some ho₃
  obtain ⟨o₁, ho₁, hrest₁⟩ := run_append_eq_some ho₂
  obtain ⟨c₁, rfl, hle₁⟩ := height_of_value hcells h₁ ho₁
  obtain ⟨c₂, rfl, hle₂⟩ := height_of_value hcells h₂ (hrest₁ c₁ rfl)
  obtain ⟨c₃, rfl, hheight, hpos⟩ := step_binary_eq_some (hrest c₂ rfl)
  have hnil : c.stack.length = 0 := by rw [hc]; rfl
  -- the operator needs two values, and each operand brings at most one
  have hle := Bool.toNat_le u₁
  have hle' := Bool.toNat_le u₂
  obtain rfl : u₁ = true := Bool.toNat_eq_one.1 (by omega)
  obtain rfl : u₂ = true := Bool.toNat_eq_one.1 (by omega)
  exact ⟨fits_of_value h₁, fits_of_value h₂⟩

/-- A folded instruction that fits does not leave the stack as it was. -/
theorem Instr.Fits.stack_ne {i : Instr} (h : i.Fits Γ) {c c' : Config Bool Bool}
    (hrun : (probe Γ).run hasResult i.flatten c = some (.finished c')) : c'.stack ≠ c.stack := by
  have hfits : i.Fits (probe Γ).arity := h
  rw [← List.append_nil (Instr.flatten _), hfits.run, Option.bind_eq_some_iff] at hrun
  obtain ⟨r, -, hrun⟩ := hrun
  cases hrun
  exact List.cons_ne_self _ _

/-! ## Self-contained statements are balanced -/

section Converse

variable {c : Config Bool Bool}

/-- The value that is stored is `true`, so the operand fits. -/
theorem fits_of_perform_localSet (hc : Truthful c) {x : String} {e : Instr}
    {o : Outcome Bool Bool} (h : (probe Γ).perform hasResult (.localSet x e) c = some o)
    (ho : o.Truthful) : e.Fits Γ := by
  obtain ⟨⟨v, w⟩, hv, h⟩ := Option.bind_eq_some_iff.1 h
  obtain ⟨cells, hcells, h⟩ := Option.bind_eq_some_iff.1 h
  cases h
  obtain ⟨_, -, rfl⟩ := Option.map_eq_some_iff.1 hcells
  -- the value is the one in the cell, and the world is the one afterwards
  obtain rfl : v = true := ho.cells (if_pos rfl : (if x = x then some v else c.cells x) = some v)
  obtain rfl : w = true := ho.world
  rw [hc.world] at hv
  exact fits_of_value hv

/-- An instruction that has a value and that runs on the empty stack fits, up to the result of a
call. -/
theorem fitsLoosely_of_value (hc : Truthful c) {e : Instr} {b : Bool}
    (hv : (probe Γ).value c.cells e true = some (b, true)) {k : List PlainInstr}
    {o : Outcome Bool Bool}
    (ho : (probe Γ).run hasResult (e.flatten ++ k) { c with stack := [] } = some o) :
    e.FitsLoosely Γ := by
  cases e with
  | const n =>
    obtain ⟨_, hword, -⟩ := Option.map_eq_some_iff.1 hv
    exact inWord_of_word? hword
  | localGet x => trivial
  | binary op a₁ a₂ => exact fits_of_run_binary hc.cells hv rfl ho
  | call f es =>
    obtain ⟨arity, harity, hparams, -, hes⟩ := value_call_eq_some hv
    exact ⟨⟨arity, harity, hparams⟩, allFit_of_values hes⟩
  | localSet x e => cases hv
  | structGet f e => cases hv
  | ret e => cases hv

theorem balanced_of_perform_ret (hc : Truthful c) {e : Instr} {o o' : Outcome Bool Bool}
    (h : (probe Γ).perform hasResult (.ret e) c = some o) (ho : o.Truthful)
    (ho' : (probe Γ).run hasResult (Instr.ret e).flatten { c with stack := [] } = some o') :
    (Instr.ret e).Balanced Γ hasResult := by
  obtain ⟨⟨v, w⟩, hv, h⟩ := Option.bind_eq_some_iff.1 h
  cases h
  obtain rfl : w = true := ho.2
  rw [hc.world] at hv
  cases hasResult with
  | true =>
    obtain rfl : v = true := ho.1 v rfl
    exact fits_of_value hv
  | false => exact fitsLoosely_of_value hc hv ho'

/-- An instruction that leaves the stack as it was is a call without a result. -/
theorem balanced_of_fitsLoosely {i : Instr} (h : i.FitsLoosely Γ) {c' : Config Bool Bool}
    (hrun : (probe Γ).run hasResult i.flatten c = some (.finished c'))
    (hstack : c'.stack = c.stack) : i.Balanced Γ hasResult := by
  have hnot : ¬ i.Fits Γ := fun hfits => hfits.stack_ne hrun hstack
  cases i with
  | call f es =>
    obtain ⟨htakes, hes⟩ := h
    exact ⟨htakes, hes, fun hresult => hnot ⟨htakes, hresult, hes⟩⟩
  | localSet x e => exact h.elim
  | ret e => exact h.elim
  | const n => exact hnot h
  | localGet x => exact hnot h
  | structGet f e => exact hnot h
  | binary op a b => exact hnot h

/-- **Self-contained statements are balanced**: a statement that runs and that keeps to itself on
the machine of truth values meets the condition on the text. -/
theorem balanced_of_selfContained (hc : Truthful c) {i : Instr}
    (h : (probe Γ).SelfContained hasResult i c) {o : Outcome Bool Bool}
    (ho : (probe Γ).run hasResult i.flatten c = some o) : i.Balanced Γ hasResult := by
  have htruthful : o.Truthful := hc.run ho
  obtain ⟨o', ho', -⟩ := Option.map_eq_some_iff.1 (h.isolated.symm.trans ho)
  have hperform : (probe Γ).perform hasResult i c = some o := h.asWritten.symm.trans ho
  -- the statements that are neither `local.set` nor `return` only differ in what they contain
  have hother (hvalue : ∃ v w, (probe Γ).value c.cells i c.world = some (v, w) ∧
      o = .finished { c with world := w }) : i.Balanced Γ hasResult := by
    obtain ⟨v, w, hv, rfl⟩ := hvalue
    obtain rfl : w = true := htruthful.world
    rw [hc.world] at hv
    rw [← List.append_nil (Instr.flatten _)] at ho'
    exact balanced_of_fitsLoosely (fitsLoosely_of_value hc hv ho') ho rfl
  cases i with
  | localSet x e => exact fits_of_perform_localSet hc hperform htruthful
  | ret e => exact balanced_of_perform_ret hc hperform htruthful ho'
  | structGet f e => cases hperform
  | const n =>
    obtain ⟨⟨v, w⟩, hv, hr⟩ := Option.bind_eq_some_iff.1 hperform
    exact hother ⟨v, w, hv, (Option.some.inj hr).symm⟩
  | localGet x =>
    obtain ⟨⟨v, w⟩, hv, hr⟩ := Option.bind_eq_some_iff.1 hperform
    exact hother ⟨v, w, hv, (Option.some.inj hr).symm⟩
  | binary op a b =>
    obtain ⟨⟨v, w⟩, hv, hr⟩ := Option.bind_eq_some_iff.1 hperform
    exact hother ⟨v, w, hv, (Option.some.inj hr).symm⟩
  | call f es =>
    obtain ⟨⟨v, w⟩, hv, hr⟩ := Option.bind_eq_some_iff.1 hperform
    exact hother ⟨v, w, hv, (Option.some.inj hr).symm⟩

end Converse

end Probe

end Kelp.Wat
