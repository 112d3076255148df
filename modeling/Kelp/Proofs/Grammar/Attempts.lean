import Kelp.Proofs.Grammar.Reading

/-!
# Failed attempts

What the state that runs along while a rule is matched keeps, whatever the rule and the text.

- `Pattern.run_invariant` and `Rule.run_invariant`: a property of the state that named rules keep is
  kept by patterns, and one that is kept when a failure is recorded is kept by named rules.
- `matchProgram_expected`: a text that does not match leaves a rule that was expected.
-/

namespace Kelp.Grammar

/-! ## Invariants of the state -/

section Invariants

variable {σ : Type} {I : σ → Prop}

/-- Repetitions keep what a round keeps. -/
theorem rounds_invariant {α : Type} {item : Matcher σ α} (h : ∀ c s, I s → I (item c s).2) :
    ∀ (fuel : Nat) (c : Cursor) (s : σ), I s → I (rounds item fuel c s).2
  | 0, _, _, hs => hs
  | fuel + 1, c, s, hs => by
    have hround := h c.skip s hs
    rw [rounds]
    generalize item c.skip s = m at hround ⊢
    rcases m with ⟨_ | ⟨x, c'⟩, s'⟩
    · exact hround
    · exact rounds_invariant h fuel c' s' hround

/-- Patterns keep what the named rules keep. -/
theorem Pattern.run_invariant {call : (r : Rule) → Matcher σ r.Value}
    (h : ∀ r c s, I s → I (call r c s).2) {α : Type} (p : Pattern α) (c : Cursor) (s : σ)
    (hs : I s) : I (p.run call c s).2 := by
  induction p generalizing c s with
  | empty => exact hs
  | lexeme l => exact hs
  | rule r => exact h r c s hs
  | seq first second ih₁ ih₂ =>
    have hfirst := ih₁ c s hs
    rw [Pattern.run]
    generalize first.run call c s = m at hfirst ⊢
    rcases m with ⟨_ | ⟨x, c'⟩, s'⟩
    · exact hfirst
    · have hsecond := ih₂ c'.skip s' hfirst
      simp only
      generalize second.run call c'.skip s' = m at hsecond ⊢
      rcases m with ⟨_ | ⟨y, c''⟩, s''⟩
      · exact hsecond
      · exact hsecond
  | alt first second ih₁ ih₂ =>
    have hfirst := ih₁ c s hs
    rw [Pattern.run]
    generalize first.run call c s = m at hfirst ⊢
    rcases m with ⟨_ | m, s'⟩
    · -- the second alternative starts at the same place, but in the state that the first one left
      exact ih₂ c s' hfirst
    · exact hfirst
  | opt body ih =>
    have hbody := ih c s hs
    rw [Pattern.run]
    generalize body.run call c s = m at hbody ⊢
    rcases m with ⟨_ | ⟨x, c'⟩, s'⟩
    · exact hbody
    · exact hbody
  | many body ih =>
    have hbody := ih c s hs
    rw [Pattern.run]
    generalize body.run call c s = m at hbody ⊢
    rcases m with ⟨_ | ⟨x, c'⟩, s'⟩
    · exact hbody
    · exact rounds_invariant ih (c'.rest.length + 1) c' s' hbody
  | map f body ih =>
    have hbody := ih c s hs
    rw [Pattern.run]
    generalize body.run call c s = m at hbody ⊢
    rcases m with ⟨_ | ⟨x, c'⟩, s'⟩
    · exact hbody
    · exact hbody

/-- Named rules keep what is kept when a failure is recorded. -/
theorem Rule.run_invariant (failed : Rule → Nat → σ → σ → σ)
    (h : ∀ r offset before after, I after → I (failed r offset before after)) :
    ∀ (fuel : Nat) (r : Rule) (c : Cursor) (s : σ), I s → I (Rule.run failed fuel r c s).2
  | 0, _, _, _, hs => hs
  | fuel + 1, r, c, s, hs => by
    have hpattern := Pattern.run_invariant (Rule.run_invariant failed h fuel) r.pattern c s hs
    rw [Rule.run]
    generalize r.pattern.run (Rule.run failed fuel) c s = m at hpattern ⊢
    rcases m with ⟨_ | m, s'⟩
    · exact h r c.offset s s' hpattern
    · exact hpattern

end Invariants

/-! ## Expected rules -/

/-- Only at the beginning of the text is nothing recorded. -/
def Attempts.Settled (a : Attempts) : Prop := a.rules = [] → a.offset = 0

/-- Once a failure is recorded, some rule is. -/
theorem Attempts.record_ne_nil {r : Rule} {offset : Nat} {before after : Attempts}
    (h : after.Settled) : (Attempts.record r offset before after).rules ≠ [] := by
  unfold Attempts.record
  extract_lets earlier
  split
  next hcount =>
    -- the parts recorded one rule at this place
    intro hnil
    rw [Attempts.countAt, hnil] at hcount
    split at hcount <;> cases hcount
  next =>
    split
    next => simp
    next hne =>
      split
      next => simp
      next hbehind =>
        -- the furthest place is behind this one, and so not the beginning
        intro hnil
        have hzero := h hnil
        omega

theorem Attempts.settled_record {r : Rule} {offset : Nat} {before after : Attempts}
    (h : after.Settled) : (Attempts.record r offset before after).Settled :=
  fun hnil => absurd hnil (Attempts.record_ne_nil h)

theorem Rule.mem_all (r : Rule) : r ∈ Rule.all := by
  cases r with
  | keyword k =>
    exact List.mem_cons_of_mem _ (List.mem_append_left _ (List.mem_map_of_mem k.mem_all))
  | _ => decide

/-- A rule that fails leaves some rule recorded. -/
theorem Rule.run_ne_nil {fuel : Nat} {r : Rule} {c : Cursor} {a : Attempts} (ha : a.Settled)
    (h : (Rule.run Attempts.record (fuel + 1) r c a).1 = none) :
    (Rule.run Attempts.record (fuel + 1) r c a).2.rules ≠ [] := by
  have hrules := Rule.run_invariant (I := Attempts.Settled) Attempts.record
    (fun _ _ _ _ => Attempts.settled_record) fuel
  have hpattern := Pattern.run_invariant hrules r.pattern c a ha
  rw [Rule.run] at h ⊢
  generalize r.pattern.run (Rule.run Attempts.record fuel) c a = m at hpattern h ⊢
  rcases m with ⟨_ | x, after⟩
  · exact Attempts.record_ne_nil hpattern
  · cases h

/-- **A text that does not match** leaves a rule that was expected. -/
theorem matchProgram_expected {text : List Char} {attempts : Attempts}
    (h : matchProgram text = .error attempts) : attempts.expected ≠ [] := by
  have hrun := @Rule.run_ne_nil (depthBound text - 1) .program (.start text) .start fun _ => rfl
  have hpos : 0 < Rule.all.length := by decide
  have hfuel : depthBound text - 1 + 1 = depthBound text :=
    Nat.succ_pred_eq_of_pos (Nat.mul_pos hpos (Nat.succ_pos _))
  rw [hfuel] at hrun
  unfold matchProgram at h
  generalize Rule.run Attempts.record (depthBound text) .program (.start text) .start = m at hrun h
  rcases m with ⟨_ | x, after⟩
  · cases h
    obtain ⟨r, hr⟩ := List.exists_mem_of_ne_nil _ (hrun rfl)
    exact List.ne_nil_of_mem (List.mem_filter.2 ⟨r.mem_all, decide_eq_true hr⟩)
  · cases h

end Kelp.Grammar
