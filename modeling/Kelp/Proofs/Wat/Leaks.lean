import Kelp.Proofs.Wat.Probe
import Kelp.Proofs.Wat.Progress

/-!
# Leaks in valid modules

Which functions of a valid module do not leak values from one statement into another: exactly those
whose statements are balanced up to the first `return`. What comes after it is never reached.

- `Func.described_start`: a function starts with a value in every parameter and local.
- `Module.exists_reached`: since a checked body does not get stuck, every statement that no `return`
  precedes is reached, and it runs.
- `Module.leakFree_iff` is the equivalence.
-/

namespace Kelp.Wat

open Wasm (TypeStack)

/-! ## Where a function starts -/

/-- A name in the list has a value. -/
theorem Cells.isSome_ofList {V : Type} {l : List (String × V)} {x : String}
    (h : x ∈ l.map Prod.fst) : (Cells.ofList l x).isSome = true := by
  induction l with
  | nil => exact nomatch h
  | cons p l ih =>
    show (if x = p.1 then some p.2 else Cells.ofList l x).isSome = true
    split
    next => rfl
    next hx =>
      rcases List.mem_cons.1 h with rfl | h
      · exact absurd rfl hx
      · exact ih h

theorem Cells.mem_of_ofList {V : Type} {l : List (String × V)} {x : String} {v : V}
    (h : Cells.ofList l x = some v) : (x, v) ∈ l := by
  induction l with
  | nil => cases h
  | cons p l ih =>
    change (if x = p.1 then some p.2 else Cells.ofList l x) = some v at h
    split at h
    next hx =>
      cases h
      rw [hx]
      exact List.mem_cons_self
    next => exact List.mem_cons_of_mem _ (ih h)

theorem Func.described_start {V W : Type} (M : Machine V W) (g : Func) {arguments : List V}
    (h : arguments.length = g.params.length) (w : W) :
    (g.start M arguments w).Described g.localNames TypeStack.empty := by
  refine ⟨rfl, rfl, ?_⟩
  intro x hx
  refine Cells.isSome_ofList ?_
  rw [List.map_append, List.map_fst_zip (by rw [List.length_map, h]), List.map_map]
  simpa [Func.localNames] using hx

/-- On the machine of truth values, a function starts with `true` everywhere. -/
theorem Func.truthful_start (Γ : String → Option Arity) (g : Func) (n : Nat) :
    Truthful (g.start (probe Γ) (List.replicate n true) true) := by
  refine ⟨nofun, ?_, rfl⟩
  intro x v hv
  rcases List.mem_append.1 (Cells.mem_of_ofList hv) with hmem | hmem
  · exact List.eq_of_mem_replicate (List.of_mem_zip hmem).2
  · obtain ⟨_, -, hpair⟩ := List.mem_map.1 hmem
    cases hpair
    rfl

/-! ## Statements that are reached -/

/-- The statements up to the first `return`. Those after it are never run. -/
def Instr.reached : List Instr → List Instr
  | [] => []
  | .ret e :: _ => [.ret e]
  | i :: rest => i :: Instr.reached rest

/-- A statement other than `return` does not end what is reached. -/
theorem Instr.reached_cons {i : Instr} (hi : ∀ e, i ≠ .ret e) (rest : List Instr) :
    Instr.reached (i :: rest) = i :: Instr.reached rest := by
  cases i with
  | ret e => exact absurd rfl (hi e)
  | _ => rfl

section Reached

variable {Γ : String → Option Arity} {hasResult : Bool}

mutual

/-- An instruction that leaves one value does not return. -/
theorem Instr.Fits.ret_notMem : ∀ {i : Instr}, i.Fits Γ → .ret ∉ i.flatten
  | .const n, _ => by simp [Instr.flatten]
  | .localGet x, _ => by simp [Instr.flatten]
  | .binary op a b, h => by
    simp [Instr.flatten, Instr.Fits.ret_notMem h.1, Instr.Fits.ret_notMem h.2]
  | .call f es, h => by simp [Instr.flatten, Instr.AllFit.ret_notMem h.2.2]

theorem Instr.AllFit.ret_notMem : ∀ {es : List Instr}, Instr.AllFit Γ es →
    .ret ∉ Instr.flattenAll es
  | [], _ => by simp [Instr.flattenAll]
  | e :: es, h => by
    simp [Instr.flattenAll, Instr.Fits.ret_notMem h.1, Instr.AllFit.ret_notMem h.2]

end

/-- Nor does a balanced statement, unless it is a `return`. -/
theorem Instr.Balanced.ret_notMem {i : Instr} (h : i.Balanced Γ hasResult)
    (hret : ∀ e, i ≠ .ret e) : .ret ∉ i.flatten := by
  cases i with
  | localSet x e =>
    have he : e.Fits Γ := h
    simp [Instr.flatten, he.ret_notMem]
  | call f es => simp [Instr.flatten, h.2.1.ret_notMem]
  | ret e => exact absurd rfl (hret e)
  | const n => exact h.elim
  | localGet x => exact h.elim
  | structGet f e => exact h.elim
  | binary op a b => exact h.elim

/-- The first statement is reached, and the later ones are if it does not return. -/
theorem forall_split_cons {P : Instr → Prop} {i : Instr} {is : List Instr} :
    (∀ before j after, i :: is = before ++ j :: after → .ret ∉ Instr.flattenAll before → P j) ↔
      P i ∧ (.ret ∉ i.flatten → ∀ before j after, is = before ++ j :: after →
        .ret ∉ Instr.flattenAll before → P j) := by
  constructor
  · intro h
    refine ⟨h [] i is rfl List.not_mem_nil, ?_⟩
    intro hret before j after his hbefore
    refine h (i :: before) j after (by rw [his]; rfl) ?_
    rw [Instr.flattenAll, List.mem_append, not_or]
    exact ⟨hret, hbefore⟩
  · rintro ⟨hi, his⟩ before j after hsplit hret
    cases before with
    | nil =>
      cases hsplit
      exact hi
    | cons b before =>
      rw [List.cons_append, List.cons.injEq] at hsplit
      obtain ⟨rfl, hsplit⟩ := hsplit
      rw [Instr.flattenAll, List.mem_append, not_or] at hret
      exact his hret.1 before j after hsplit hret.2

/-- Balance at every place that no `return` precedes is balance up to the first `return`. -/
theorem forall_split_iff {is : List Instr} :
    (∀ before i after, is = before ++ i :: after → .ret ∉ Instr.flattenAll before →
        i.Balanced Γ hasResult) ↔
      ∀ i ∈ Instr.reached is, i.Balanced Γ hasResult := by
  induction is with
  | nil =>
    refine iff_of_true ?_ nofun
    intro before i after hsplit
    exact absurd hsplit.symm (List.append_ne_nil_of_right_ne_nil before (List.cons_ne_nil i after))
  | cons i is ih =>
    rw [forall_split_cons]
    by_cases hret : ∃ e, i = .ret e
    · obtain ⟨e, rfl⟩ := hret
      have hmem : .ret ∈ (Instr.ret e).flatten := by simp [Instr.flatten]
      show _ ↔ ∀ i ∈ [Instr.ret e], _
      rw [List.forall_mem_singleton]
      exact and_iff_left fun hnot => absurd hmem hnot
    · have hne : ∀ e, i ≠ .ret e := fun e he => hret ⟨e, he⟩
      rw [Instr.reached_cons hne, List.forall_mem_cons, ← ih]
      -- a balanced statement that is no `return` has none inside
      exact and_congr_right fun hi => ⟨fun h => h (hi.ret_notMem hne), fun h _ => h⟩

end Reached

/-- Statements are flattened one by one. -/
theorem Instr.flattenAll_append (is js : List Instr) :
    Instr.flattenAll (is ++ js) = Instr.flattenAll is ++ Instr.flattenAll js := by
  induction is with
  | nil => rfl
  | cons i is ih =>
    rw [List.cons_append, Instr.flattenAll, Instr.flattenAll, ih, List.append_assoc]

/-- The machine of truth values runs the bodies of a module. -/
theorem Module.supports_probe {m : Module} {sigs : List Wasm.FuncType}
    (hsigs : m.signatures? = some sigs) {g : Func} {t : Wasm.FuncType}
    (ht : g.signature? = some t) (locals : List Wasm.ValueType) :
    (probe m.arity).Supports g.result.isSome m.functionNames ⟨locals, sigs, t.result⟩ := by
  refine ⟨?_, ?_, ?_⟩
  · exact (congrArg Arity.hasResult (Func.typeArity_signature? ht)).symm
  · intro f n t' hn ht'
    have harity := Module.arity_of_idxOf? hsigs hn
    rw [show sigs[n]? = some t' from ht'] at harity
    exact harity
  · intro f vs w harity
    show ((m.arity f).map _).isSome = true
    rw [Option.isSome_map]
    exact harity

/-- **Every statement is reached** that no `return` precedes, on the machine of truth values, and it
runs. -/
theorem Module.exists_reached {m : Module} {r : Wasm.Module} (h : m.resolve? = some r)
    (hvalid : r.isValid = true) {g : Func} (hg : g ∈ m.functions) {before after : List Instr}
    {i : Instr} (hbody : g.body = before ++ i :: after) (hret : .ret ∉ Instr.flattenAll before)
    {arguments : List Bool} (hlength : arguments.length = g.params.length) (w : Bool) :
    ∃ c o, (probe m.arity).run g.result.isSome (Instr.flattenAll before)
        (g.start (probe m.arity) arguments w) = some (.finished c) ∧
      (probe m.arity).run g.result.isSome i.flatten c = some o := by
  obtain ⟨-, sigs, hsigs, -, -, -⟩ := Module.resolve?_eq_some h
  obtain ⟨t, body, ht, hresolve, hcheck⟩ := Module.exists_valid_body h hvalid hsigs hg
  have hM := Module.supports_probe hsigs ht (t.params ++ List.replicate g.locals.length .i32)
  -- the resolved body falls into the same three parts
  rw [hbody, Instr.flattenAll_append, Instr.flattenAll, mapM_eq_some_iff] at hresolve
  obtain ⟨bs, rest, rfl, hbs, hrest⟩ := exists_append_of_forall₂ hresolve
  obtain ⟨is, as, rfl, his, -⟩ := exists_append_of_forall₂ hrest
  unfold Wasm.bodyIsValid at hcheck
  split at hcheck
  next => cases hcheck
  next s hs =>
    simp only [List.foldlM_append, Option.bind_eq_bind, Option.bind_eq_some_iff] at hs
    obtain ⟨s₁, hs₁, s₂, hs₂, -⟩ := hs
    obtain ⟨o₁, ho₁, hend⟩ :=
      run_of_check hM hbs hs₁ (g.described_start (probe m.arity) hlength w)
    obtain ⟨c, rfl, hc⟩ := hend hret
    obtain ⟨o, ho, -⟩ := run_of_check hM his hs₂ hc
    exact ⟨c, o, ho₁, ho⟩

/-- **Leaks**: a function of a valid module does not leak exactly when its statements up to the
first `return` are balanced. -/
theorem Module.leakFree_iff {m : Module} {r : Wasm.Module} (h : m.resolve? = some r)
    (hvalid : r.isValid = true) {g : Func} (hg : g ∈ m.functions) :
    g.LeakFree m.arity ↔ ∀ i ∈ Instr.reached g.body, i.Balanced m.arity g.result.isSome := by
  rw [← forall_split_iff]
  constructor
  · intro hleak before i after hbody hret
    have hlength : (List.replicate g.params.length true).length = g.params.length :=
      List.length_replicate
    -- a place that is reached, with all arguments `true`
    obtain ⟨c, o, hc, ho⟩ := Module.exists_reached h hvalid hg hbody hret hlength true
    have hself := hleak Bool Bool (probe m.arity) rfl _ true hlength before i after hbody c hc
    exact balanced_of_selfContained ((g.truthful_start m.arity _).run hc) hself ho
  · rintro hbalanced V W M harity arguments w - before i after hbody c hrun
    have hi := hbalanced before i after hbody (Machine.ret_notMem_of_run hrun)
    rw [← harity] at hi
    exact hi.selfContained c

end Kelp.Wat
