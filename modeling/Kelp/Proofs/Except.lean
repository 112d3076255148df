import Mathlib.Data.List.Forall2

/-!
# Computations that may fail

When a computation that may fail succeeds: in terms of its parts, and item by item for lists. When
it fails, the first part that fails gives the error: `FirstFailure` says so for lists.
-/

namespace Kelp

variable {ε α β : Type}

/-- A sequence of two computations succeeds through a success of the first. -/
theorem bind_eq_ok_iff {x : Except ε α} {f : α → Except ε β} {b : β} :
    x >>= f = .ok b ↔ ∃ a, x = .ok a ∧ f a = .ok b := by
  cases x with
  | error e => simp [bind, Except.bind]
  | ok a => simp [bind, Except.bind]

theorem ok_bind {a : α} {f : α → Except ε β} : Except.ok a >>= f = f a := rfl

theorem exists_of_isOk {x : Except ε α} (h : x.isOk = true) : ∃ a, x = .ok a := by
  cases x with
  | error e => cases h
  | ok a => exact ⟨a, rfl⟩

/-- Forgetting the error keeps successes, and makes none. -/
theorem toOption_eq_some_iff {x : Except ε α} {a : α} : x.toOption = some a ↔ x = .ok a := by
  cases x with
  | error e => simp [Except.toOption]
  | ok b => simp [Except.toOption]

theorem map_toOption_eq_some_iff {x : Except ε α} {f : α → β} {b : β} :
    x.toOption.map f = some b ↔ ∃ a, x = .ok a ∧ f a = b := by
  simp only [Option.map_eq_some_iff, toOption_eq_some_iff]

theorem pure_eq_ok_iff {a b : α} : (pure a : Except ε α) = .ok b ↔ a = b := by
  simp [pure, Except.pure]

/-- A list is mapped by its first item and then by the others. Both have to succeed. -/
theorem mapM_cons_eq_ok_iff {f : α → Except ε β} {a : α} {as : List α} {bs : List β} :
    (a :: as).mapM f = .ok bs ↔
      ∃ b cs, f a = .ok b ∧ as.mapM f = .ok cs ∧ bs = b :: cs := by
  rw [List.mapM_cons, bind_eq_ok_iff]
  simp only [bind_eq_ok_iff, pure_eq_ok_iff]
  constructor
  · rintro ⟨b, hb, cs, hcs, rfl⟩
    exact ⟨b, cs, hb, hcs, rfl⟩
  · rintro ⟨b, cs, hb, hcs, rfl⟩
    exact ⟨b, hb, cs, hcs, rfl⟩

theorem mapM_nil_eq_ok_iff {f : α → Except ε β} {bs : List β} :
    ([] : List α).mapM f = .ok bs ↔ bs = [] := by
  rw [List.mapM_nil, pure_eq_ok_iff]
  exact eq_comm

/-- A list is mapped successfully exactly when every item is. -/
theorem mapM_eq_ok_iff {f : α → Except ε β} {as : List α} {bs : List β} :
    as.mapM f = .ok bs ↔ List.Forall₂ (fun a b => f a = .ok b) as bs := by
  induction as generalizing bs with
  | nil => rw [mapM_nil_eq_ok_iff, List.forall₂_nil_left_iff]
  | cons a as ih =>
    rw [mapM_cons_eq_ok_iff, List.forall₂_cons_left_iff]
    constructor
    · rintro ⟨b, cs, hb, hcs, rfl⟩
      exact ⟨b, cs, hb, ih.1 hcs, rfl⟩
    · rintro ⟨b, cs, hb, hcs, rfl⟩
      exact ⟨b, cs, hb, ih.2 hcs, rfl⟩

/-- Lists whose items are mapped alike are mapped alike. -/
theorem mapM_eq_mapM_of_forall₂ {γ : Type} {f : α → Except ε γ} {g : β → Except ε γ}
    {as : List α} {bs : List β} (h : List.Forall₂ (fun a b => f a = g b) as bs) :
    as.mapM f = bs.mapM g := by
  induction h with
  | nil => rfl
  | cons hab _ ih => rw [List.mapM_cons, List.mapM_cons, hab, ih]

/-- The same for computations that fail without an error. -/
theorem mapM_eq_some_iff {f : α → Option β} {as : List α} {bs : List β} :
    as.mapM f = some bs ↔ List.Forall₂ (fun a b => f a = some b) as bs := by
  induction as generalizing bs with
  | nil =>
    rw [List.mapM_nil, List.forall₂_nil_left_iff]
    simp [eq_comm]
  | cons a as ih =>
    rw [List.mapM_cons, List.forall₂_cons_left_iff, Option.bind_eq_bind, Option.bind_eq_some_iff]
    constructor
    · rintro ⟨b, hb, h⟩
      rw [Option.bind_eq_bind, Option.bind_eq_some_iff] at h
      obtain ⟨cs, hcs, h⟩ := h
      cases h
      exact ⟨b, cs, hb, ih.1 hcs, rfl⟩
    · rintro ⟨b, cs, hb, hcs, rfl⟩
      refine ⟨b, hb, ?_⟩
      rw [ih.2 hcs]
      rfl

/-- Where every item is mapped without effects, the list is. -/
theorem mapM_eq_pure {μ : Type → Type} [Monad μ] [LawfulMonad μ] {f : α → μ β} {as : List α}
    {bs : List β} (h : List.Forall₂ (fun a b => f a = pure b) as bs) : as.mapM f = pure bs := by
  induction h with
  | nil => rfl
  | cons hab _ ih => rw [List.mapM_cons, hab, ih, pure_bind, pure_bind]

/-- Without an error to tell, it is enough to know that every item is mapped. -/
theorem isSome_mapM_iff {f : α → Option β} {as : List α} :
    (as.mapM f).isSome = true ↔ ∀ a ∈ as, (f a).isSome = true := by
  induction as with
  | nil => simp
  | cons a as ih =>
    rw [List.mapM_cons, List.forall_mem_cons, ← ih]
    cases f a <;> cases as.mapM f <;> simp

/-- The same where `P` says of which items that is so. -/
theorem exists_mapM_eq_some_iff {f : α → Option β} {P : α → Prop}
    (hP : ∀ {a}, (f a).isSome = true ↔ P a) {as : List α} :
    (∃ bs, as.mapM f = some bs) ↔ ∀ a ∈ as, P a := by
  rw [← Option.isSome_iff_exists, isSome_mapM_iff]
  simp only [hP]

/-! ## Items of lists that correspond -/

section Corresponding

variable {R : α → β → Prop} {as : List α} {bs : List β} (h : List.Forall₂ R as bs)

include h

/-- Every item has a partner. -/
theorem exists_right_of_mem {a : α} (ha : a ∈ as) : ∃ b ∈ bs, R a b := by
  induction h with
  | nil => exact nomatch ha
  | @cons a' b as bs hab _ ih =>
    rcases List.mem_cons.1 ha with rfl | ha
    · exact ⟨b, List.mem_cons_self, hab⟩
    · obtain ⟨c, hc, hac⟩ := ih ha
      exact ⟨c, List.mem_cons_of_mem _ hc, hac⟩

/-- Every item is a partner. -/
theorem exists_left_of_mem {b : β} (hb : b ∈ bs) : ∃ a ∈ as, R a b :=
  exists_right_of_mem (R := flip R) h.flip hb

/-- To weaken a correspondence, only items of the two lists need to be looked at. -/
theorem forall₂_imp_of_mem {S : α → β → Prop} (hRS : ∀ a b, a ∈ as → b ∈ bs → R a b → S a b) :
    List.Forall₂ S as bs := by
  induction h with
  | nil => exact .nil
  | cons hab _ ih =>
    refine .cons (hRS _ _ List.mem_cons_self List.mem_cons_self hab) (ih ?_)
    intro a b ha hb
    exact hRS a b (List.mem_cons_of_mem _ ha) (List.mem_cons_of_mem _ hb)

/-- Items all have a property exactly when their partners all have the corresponding one. -/
theorem forall_mem_iff_of_forall₂ {P : α → Prop} {Q : β → Prop}
    (hPQ : ∀ a ∈ as, ∀ b, R a b → (Q b ↔ P a)) : (∀ b ∈ bs, Q b) ↔ ∀ a ∈ as, P a := by
  constructor
  · intro hQ a ha
    obtain ⟨b, hb, hab⟩ := exists_right_of_mem h ha
    exact (hPQ a ha b hab).1 (hQ b hb)
  · intro hP b hb
    obtain ⟨a, ha, hab⟩ := exists_left_of_mem h hb
    exact (hPQ a ha b hab).2 (hP a ha)

/-- Partners of partners. -/
theorem forall₂_comp {γ : Type} {S : β → γ → Prop} {T : α → γ → Prop} {cs : List γ}
    (h₂ : List.Forall₂ S bs cs) (hT : ∀ a b c, a ∈ as → b ∈ bs → R a b → S b c → T a c) :
    List.Forall₂ T as cs := by
  induction h generalizing cs with
  | nil =>
    cases h₂
    exact .nil
  | cons hab _ ih =>
    cases h₂ with
    | cons hbc h₂ =>
      refine .cons (hT _ _ _ List.mem_cons_self List.mem_cons_self hab hbc) (ih h₂ ?_)
      intro a b c ha hb
      exact hT a b c (List.mem_cons_of_mem _ ha) (List.mem_cons_of_mem _ hb)

end Corresponding

/-- Where partners are equal exactly when their origins have the same key, lists of partners are
equal exactly when the lists of their origins' keys are. -/
theorem forall₂_eq_iff {γ : Type*} {R : α → β → Prop} (key : α → γ) {as as' : List α}
    {bs bs' : List β} (h : List.Forall₂ R as bs) (h' : List.Forall₂ R as' bs')
    (hkey : ∀ a a' b b', R a b → R a' b' → (b = b' ↔ key a = key a')) :
    bs = bs' ↔ as.map key = as'.map key := by
  induction h generalizing as' bs' with
  | nil => cases h' <;> simp
  | cons hab _ ih =>
    cases h' with
    | nil => simp
    | cons hab' h' =>
      rw [List.cons.injEq, List.map_cons, List.map_cons, List.cons.injEq, ih h',
        hkey _ _ _ _ hab hab']

/-- What corresponds to two lists in a row is two lists in a row. -/
theorem exists_append_of_forall₂ {R : α → β → Prop} {as as' : List α} {bs : List β}
    (h : List.Forall₂ R (as ++ as') bs) :
    ∃ cs cs', bs = cs ++ cs' ∧ List.Forall₂ R as cs ∧ List.Forall₂ R as' cs' := by
  induction as generalizing bs with
  | nil => exact ⟨[], bs, rfl, .nil, h⟩
  | cons a as ih =>
    cases h with
    | cons hab h =>
      obtain ⟨cs, cs', rfl, hcs, hcs'⟩ := ih h
      exact ⟨_ :: cs, cs', rfl, .cons hab hcs, hcs'⟩

/-- What stands at a key that occurs once is found. -/
theorem lookup_eq_some_of_mem [BEq α] [LawfulBEq α] {l : List (α × β)}
    (hl : (l.map Prod.fst).Nodup) {a : α} {b : β} (h : (a, b) ∈ l) : l.lookup a = some b := by
  induction l with
  | nil => cases h
  | cons p l ih =>
    obtain ⟨hp, hl⟩ := List.nodup_cons.1 hl
    rcases List.mem_cons.1 h with rfl | h
    · exact List.lookup_cons_self
    · -- the key of the head stands there only, so it is not `a`
      have hne : (a == p.1) = false := beq_false_of_ne fun heq =>
        hp (heq ▸ List.mem_map_of_mem h)
      rw [List.lookup_cons, hne]
      exact ih hl h

/-! ## First failures -/

/-- A sequence of two computations fails as the first one, or as the second after a success. -/
theorem bind_eq_error_iff {x : Except ε α} {f : α → Except ε β} {e : ε} :
    x >>= f = .error e ↔ x = .error e ∨ ∃ a, x = .ok a ∧ f a = .error e := by
  cases x with
  | error e' => simp [bind, Except.bind]
  | ok a => simp [bind, Except.bind]

/-- To succeed is to fail with no error. -/
theorem exists_ok_iff {x : Except ε α} : (∃ a, x = .ok a) ↔ ∀ e, x ≠ .error e := by
  cases x with
  | error e => simp
  | ok a => simp

/-- The first item of a list that fails, where `Fails a e` says that `a` fails with the error `e`:
no item before it fails in any way. -/
def FirstFailure (Fails : α → ε → Prop) (as : List α) (e : ε) : Prop :=
  ∃ before a after, as = before ++ a :: after ∧ (∀ b ∈ before, ∀ e', ¬ Fails b e') ∧ Fails a e

section FirstFailure

variable {Fails : α → ε → Prop}

theorem not_firstFailure_nil {e : ε} : ¬ FirstFailure Fails [] e := by
  rintro ⟨before, a, after, h, -⟩
  exact absurd h.symm (by simp)

/-- The first item is the first to fail, or it does not fail at all and the first failure is behind
it. -/
theorem firstFailure_cons {a : α} {as : List α} {e : ε} :
    FirstFailure Fails (a :: as) e ↔
      Fails a e ∨ (∀ e', ¬ Fails a e') ∧ FirstFailure Fails as e := by
  constructor
  · rintro ⟨before, b, after, h, hbefore, hb⟩
    cases before with
    | nil =>
      cases h
      exact Or.inl hb
    | cons a' before =>
      cases h
      rw [List.forall_mem_cons] at hbefore
      exact Or.inr ⟨hbefore.1, before, b, after, rfl, hbefore.2, hb⟩
  · rintro (ha | ⟨ha, before, b, after, rfl, hbefore, hb⟩)
    · exact ⟨[], a, as, rfl, nofun, ha⟩
    · exact ⟨a :: before, b, after, rfl, List.forall_mem_cons.2 ⟨ha, hbefore⟩, hb⟩

/-- Nothing fails first exactly when nothing fails. -/
theorem forall_not_firstFailure_iff {as : List α} :
    (∀ e, ¬ FirstFailure Fails as e) ↔ ∀ a ∈ as, ∀ e, ¬ Fails a e := by
  induction as with
  | nil => simp [not_firstFailure_nil]
  | cons a as ih =>
    rw [List.forall_mem_cons, ← ih]
    constructor
    · intro h
      have ha : ∀ e, ¬ Fails a e := fun e he => h e (firstFailure_cons.2 (Or.inl he))
      exact ⟨ha, fun e he => h e (firstFailure_cons.2 (Or.inr ⟨ha, he⟩))⟩
    · rintro ⟨ha, has⟩ e he
      rcases firstFailure_cons.1 he with he | ⟨-, he⟩
      · exact ha e he
      · exact has e he

/-- The first failure of two lists is that of the first one, if it has any. -/
theorem firstFailure_append {as bs : List α} {e : ε} :
    FirstFailure Fails (as ++ bs) e ↔
      FirstFailure Fails as e ∨ (∀ e', ¬ FirstFailure Fails as e') ∧ FirstFailure Fails bs e := by
  induction as with
  | nil => simp [not_firstFailure_nil]
  | cons a as ih =>
    rw [List.cons_append, firstFailure_cons, ih, firstFailure_cons]
    simp only [firstFailure_cons, not_or, not_and, forall_and]
    -- a failure of `a` hides all others, whatever they are
    by_cases ha : ∀ e', ¬ Fails a e'
    · simp [ha]
    · simp [ha]

/-- The first failure among the parts of the items is that of the first item with a part that fails.
-/
theorem firstFailure_flatMap {g : β → List α} {bs : List β} {e : ε} :
    FirstFailure Fails (bs.flatMap g) e ↔
      FirstFailure (fun b e => FirstFailure Fails (g b) e) bs e := by
  induction bs with
  | nil => simp [not_firstFailure_nil]
  | cons b bs ih => rw [List.flatMap_cons, firstFailure_append, firstFailure_cons, ih]

/-- Mapping a list fails with the error of the first item that fails. -/
theorem mapM_eq_error_iff {f : α → Except ε β} {as : List α} {e : ε} :
    as.mapM f = .error e ↔ FirstFailure (fun a e => f a = .error e) as e := by
  induction as with
  | nil => simp [not_firstFailure_nil, pure, Except.pure]
  | cons a as ih =>
    rw [List.mapM_cons, bind_eq_error_iff, firstFailure_cons, ← exists_ok_iff]
    -- past a success of `a`, the result is only put together
    refine or_congr_right ?_
    simp only [bind_eq_error_iff, pure, Except.pure, reduceCtorEq, and_false, exists_false,
      or_false, ih, exists_and_right]

end FirstFailure

end Kelp
