import Kelp.Grammar.Parse
import Kelp.Proofs.Grammar.Lookahead

/-!
# The height of derivations

Rules are matched inside each other only up to a depth that is computed from the text. This is
enough: a rule stands inside itself only where another part of the derivation has a token.

- `Rule.rank` orders the rules by what they can stand for without any token beside them, and
  `Pattern.grounded` checks a pattern against that order.
- `Rule.Derives.bounded`: every derivation is one of a height that is linear in the number of
  tokens.
-/

namespace Kelp.Grammar

/-- A rule that can stand for another one alone has a greater rank. -/
def Rule.rank : Rule → Nat
  | .program => 1
  | .typeName => 1
  | .binders => 1
  | .dotted => 1
  | .call => 2
  | .product => 3
  | .sum => 4
  | _ => 0

theorem Rule.rank_lt (r : Rule) : r.rank < Rule.all.length := by
  cases r with
  | keyword k => cases k <;> decide
  | _ => decide

/-- Whether everything that the pattern derives has a token. -/
def Pattern.takesToken {α : Type} (p : Pattern α) : Bool :=
  [] ∉ p.openings Rule.openings

/-- Whether each rule in the pattern either has a rank below `k` or stands beside a part that takes
a token. -/
def Pattern.grounded (k : Nat) : {α : Type} → Pattern α → Bool
  | _, .empty => true
  | _, .lexeme _ => true
  | _, .rule r => r.rank < k
  | _, .seq first second =>
    (first.grounded k || second.takesToken) && (second.grounded k || first.takesToken)
  | _, .alt first second => first.grounded k && second.grounded k
  | _, .opt body => body.grounded k
  | _, .many body => body.grounded k
  | _, .map _ body => body.grounded k

/-- The ranks fit the productions. -/
theorem Rule.pattern_grounded (r : Rule) : r.pattern.grounded r.rank = true := by
  cases r with
  | keyword k => cases k <;> decide +kernel
  | _ => decide +kernel

/-- What takes a token derives nothing without one. -/
theorem Pattern.DerivesBy.ne_nil {n : Nat} {α : Type} {p : Pattern α} {ts : List Token} {v : α}
    (h : p.DerivesBy (Rule.DerivesIn n) ts v) (hp : p.takesToken = true) : ts ≠ [] := by
  rintro rfl
  have hcall : ∀ r ts v, Rule.DerivesIn n r ts v → (lexemes ts).take 2 ∈ r.openings :=
    fun _ _ _ => Rule.DerivesIn.mem_openings
  have hmem := Pattern.mem_openings hcall h
  exact of_decide_eq_true hp hmem

/-- The height that is enough for a pattern over `length` tokens, if its rules have a rank below
`k`. -/
def heightBound (length k : Nat) : Nat := Rule.all.length * length + k

/-- One more level is paid for by the rank, or by a token beside the rule. -/
theorem heightBound_succ_le {l k m : Nat} {r : Rule} (h : l ≤ m) (h' : r.rank < k ∨ l < m) :
    heightBound l r.rank + 1 ≤ heightBound m k := by
  unfold heightBound
  have hrank := r.rank_lt
  rcases h' with h' | h'
  · have := Nat.mul_le_mul_left Rule.all.length h
    omega
  · have := Nat.mul_le_mul_left Rule.all.length (Nat.succ_le_of_lt h')
    rw [Nat.mul_succ] at this
    omega

/-- If the rules in a pattern are derived within their bounds, so is the pattern. It has at most `m`
tokens, and fewer if one of its rules may stand alone. -/
theorem Pattern.DerivesBy.bounded {n : Nat}
    (hcall : ∀ r ts v, Rule.DerivesIn n r ts v →
      Rule.DerivesIn (heightBound ts.length r.rank + 1) r ts v)
    {k m : Nat} {α : Type} {p : Pattern α} {ts : List Token} {v : α}
    (h : p.DerivesBy (Rule.DerivesIn n) ts v) (hlength : ts.length ≤ m)
    (hground : p.grounded k = true ∨ ts.length < m) :
    p.DerivesBy (Rule.DerivesIn (heightBound m k)) ts v := by
  induction p generalizing ts with
  | empty => exact h
  | lexeme l => exact h
  | rule r =>
    refine (hcall r ts v h).mono (heightBound_succ_le hlength ?_)
    rcases hground with hground | hground
    · exact Or.inl (of_decide_eq_true hground)
    · exact Or.inr hground
  | seq first second ih₁ ih₂ =>
    obtain ⟨us, ws, rfl, h₁, h₂⟩ := h
    rw [List.length_append] at hlength hground
    -- a part that is not grounded stands beside one that takes a token
    have hparts : (first.grounded k = true ∨ us.length < m) ∧
        (second.grounded k = true ∨ ws.length < m) := by
      rcases hground with hground | hground
      · rw [Pattern.grounded, Bool.and_eq_true, Bool.or_eq_true, Bool.or_eq_true] at hground
        refine ⟨hground.1.imp_right fun htakes => ?_, hground.2.imp_right fun htakes => ?_⟩
        · have := List.length_pos_of_ne_nil (h₂.ne_nil htakes)
          omega
        · have := List.length_pos_of_ne_nil (h₁.ne_nil htakes)
          omega
      · exact ⟨Or.inr (by omega), Or.inr (by omega)⟩
    exact ⟨us, ws, rfl, ih₁ h₁ (by omega) hparts.1, ih₂ h₂ (by omega) hparts.2⟩
  | alt first second ih₁ ih₂ =>
    rw [Pattern.grounded, Bool.and_eq_true] at hground
    rcases h with h | h
    · exact Or.inl (ih₁ h hlength (hground.imp_left And.left))
    · exact Or.inr (ih₂ h hlength (hground.imp_left And.right))
  | opt body ih =>
    rcases h with h | ⟨x, hx, h⟩
    · exact Or.inl h
    · exact Or.inr ⟨x, hx, ih h hlength hground⟩
  | many body ih =>
    obtain ⟨tss, rfl, hrounds⟩ := h
    refine ⟨tss, rfl, ?_⟩
    have hround : ∀ us ∈ tss, us.length ≤ tss.flatten.length :=
      fun us hus => (List.sublist_flatten_of_mem hus).length_le
    refine ((List.forall₂_and_left _ _).2 ⟨hround, hrounds⟩).imp fun us x hx => ?_
    exact ih hx.2 (Nat.le_trans hx.1 hlength) (hground.imp_right (Nat.lt_of_le_of_lt hx.1))
  | map f body ih =>
    obtain ⟨x, hx, hf⟩ := h
    exact ⟨x, ih hx hlength hground, hf⟩

/-- By induction on the height: the rules inside have bounds of their own, which are smaller. -/
theorem Rule.DerivesIn.bounded : ∀ {n : Nat} {r : Rule} {ts : List Token} {v : r.Value},
    Rule.DerivesIn n r ts v → Rule.DerivesIn (heightBound ts.length r.rank + 1) r ts v
  | 0, _, _, _, h => h.elim
  | _ + 1, r, _, _, h =>
    Pattern.DerivesBy.bounded (fun _ _ _ => Rule.DerivesIn.bounded) h (Nat.le_refl _)
      (Or.inl r.pattern_grounded)

/-- **Derivations are not high**: in a text with at least as many characters as there are tokens,
the depth to which rules are matched is enough. -/
theorem Rule.Derives.bounded {r : Rule} {ts : List Token} {v : r.Value} (h : r.Derives ts v)
    {text : List Char} (hlength : ts.length ≤ text.length) :
    Rule.DerivesIn (depthBound text) r ts v := by
  obtain ⟨n, hn⟩ := h
  refine hn.bounded.mono ?_
  have hrank := r.rank_lt
  have := Nat.mul_le_mul_left Rule.all.length hlength
  rw [heightBound, depthBound, Nat.mul_succ]
  omega

end Kelp.Grammar
