import Mathlib.Data.List.Forall2
import Kelp.Grammar.Productions
import Kelp.Proofs.Grammar.Language

/-!
# Derivations

The context-free reading of patterns: which token sequences a pattern derives, and with what value.
Alternatives, options and repetitions are read freely here. Any alternative may be taken, an option
may be left out, and a repetition may have any number of rounds.

- `Token` is a token as it stands in a text.
- `Pattern.DerivesBy` reads a pattern, where a given relation says what the named rules derive.
- `Rule.DerivesIn n` has derivation trees of height at most `n`, and `Rule.Derives` those of any
  height. `Rule.derives_iff` is the defining equation of the latter.
-/

namespace Kelp.Grammar

/-- The lexeme that a token is an instance of. -/
def Terminal.lexeme : Terminal → Lexeme
  | .mark m => .mark m
  | .keyword k => .keyword k
  | .ident _ => .ident
  | .number _ => .number
  | .hostPath _ => .hostPath

/-- A token in a text, with the offset of its first character. -/
structure Token where
  offset : Nat
  terminal : Terminal
deriving DecidableEq, Repr, Inhabited

/-- The lexeme of a token in a text. -/
def Token.lexeme (t : Token) : Lexeme := t.terminal.lexeme

/-- The characters of a token in a text. -/
def Token.chars (t : Token) : List Char := t.terminal.chars

/-- The tokens that a lexeme derives: a single one of its kind. The end of the text is no token. -/
def Lexeme.Yields (l : Lexeme) (ts : List Token) (v : l.Value) : Prop :=
  if l = .endOfText then ts = []
  else ∃ t, ts = [t] ∧ t.lexeme = l ∧ v = l.value t.offset t.chars

/-- The tokens that a pattern derives with a value, where `call` says what named rules derive. -/
def Pattern.DerivesBy (call : (r : Rule) → List Token → r.Value → Prop) :
    {α : Type} → Pattern α → List Token → α → Prop
  | _, .empty, ts, _ => ts = []
  | _, .lexeme l, ts, v => l.Yields ts v
  | _, .rule r, ts, v => call r ts v
  | _, .seq first second, ts, v =>
    ∃ us ws, ts = us ++ ws ∧ first.DerivesBy call us v.1 ∧ second.DerivesBy call ws v.2
  | _, .alt first second, ts, v => first.DerivesBy call ts v ∨ second.DerivesBy call ts v
  | _, .opt body, ts, v => ts = [] ∧ v = none ∨ ∃ x, v = some x ∧ body.DerivesBy call ts x
  | _, .many body, ts, v => ∃ tss, ts = tss.flatten ∧ List.Forall₂ (body.DerivesBy call) tss v
  | _, .map f body, ts, v => ∃ x, body.DerivesBy call ts x ∧ f x = v

/-- The tokens that a rule derives with a value, by a derivation of height at most `n`. -/
def Rule.DerivesIn : (n : Nat) → (r : Rule) → List Token → r.Value → Prop
  | 0, _, _, _ => False
  | n + 1, r, ts, v => r.pattern.DerivesBy (Rule.DerivesIn n) ts v

/-- The tokens that a rule derives with a value. -/
def Rule.Derives (r : Rule) (ts : List Token) (v : r.Value) : Prop :=
  ∃ n, Rule.DerivesIn n r ts v

/-! ## Height -/

/-- A pattern derives no less where the rules do. -/
theorem Pattern.DerivesBy.mono {call call' : (r : Rule) → List Token → r.Value → Prop}
    (h : ∀ r ts v, call r ts v → call' r ts v) {α : Type} {p : Pattern α} {ts : List Token} {v : α}
    (hp : p.DerivesBy call ts v) : p.DerivesBy call' ts v := by
  induction p generalizing ts with
  | empty => exact hp
  | lexeme l => exact hp
  | rule r => exact h r ts v hp
  | seq first second ih₁ ih₂ =>
    obtain ⟨us, ws, hts, h₁, h₂⟩ := hp
    exact ⟨us, ws, hts, ih₁ h₁, ih₂ h₂⟩
  | alt first second ih₁ ih₂ =>
    rcases hp with h₁ | h₂
    · exact Or.inl (ih₁ h₁)
    · exact Or.inr (ih₂ h₂)
  | opt body ih =>
    rcases hp with h₁ | ⟨x, hx, h₂⟩
    · exact Or.inl h₁
    · exact Or.inr ⟨x, hx, ih h₂⟩
  | many body ih =>
    obtain ⟨tss, hts, hrounds⟩ := hp
    exact ⟨tss, hts, hrounds.imp fun _ _ => ih⟩
  | map f body ih =>
    obtain ⟨x, hx, hf⟩ := hp
    exact ⟨x, ih hx, hf⟩

theorem Rule.DerivesIn.succ : ∀ {n : Nat} {r : Rule} {ts : List Token} {v : r.Value},
    Rule.DerivesIn n r ts v → Rule.DerivesIn (n + 1) r ts v
  | 0, _, _, _, h => h.elim
  | _ + 1, _, _, _, h => Pattern.DerivesBy.mono (fun _ _ _ => Rule.DerivesIn.succ) h

/-- Derivations may be counted higher than they are. -/
theorem Rule.DerivesIn.mono {n m : Nat} (hnm : n ≤ m) {r : Rule} {ts : List Token} {v : r.Value}
    (h : Rule.DerivesIn n r ts v) : Rule.DerivesIn m r ts v := by
  induction hnm with
  | refl => exact h
  | step _ ih => exact ih.succ

/-- The rules that a derivation uses have derivations of a common height. -/
theorem Pattern.DerivesBy.exists_height {α : Type} {p : Pattern α} {ts : List Token} {v : α}
    (hp : p.DerivesBy Rule.Derives ts v) : ∃ n, p.DerivesBy (Rule.DerivesIn n) ts v := by
  -- a derivation of some height is one of every greater height
  have grow : ∀ {β : Type} {q : Pattern β} {us : List Token} {w : β} {n m : Nat}, n ≤ m →
      q.DerivesBy (Rule.DerivesIn n) us w → q.DerivesBy (Rule.DerivesIn m) us w :=
    fun hnm => Pattern.DerivesBy.mono fun _ _ _ => Rule.DerivesIn.mono hnm
  induction p generalizing ts with
  | empty => exact ⟨0, hp⟩
  | lexeme l => exact ⟨0, hp⟩
  | rule r => exact hp
  | seq first second ih₁ ih₂ =>
    obtain ⟨us, ws, hts, h₁, h₂⟩ := hp
    obtain ⟨n, hn⟩ := ih₁ h₁
    obtain ⟨m, hm⟩ := ih₂ h₂
    exact ⟨max n m, us, ws, hts, grow (Nat.le_max_left n m) hn, grow (Nat.le_max_right n m) hm⟩
  | alt first second ih₁ ih₂ =>
    rcases hp with h₁ | h₂
    · obtain ⟨n, hn⟩ := ih₁ h₁
      exact ⟨n, Or.inl hn⟩
    · obtain ⟨n, hn⟩ := ih₂ h₂
      exact ⟨n, Or.inr hn⟩
  | opt body ih =>
    rcases hp with h₁ | ⟨x, hx, h₂⟩
    · exact ⟨0, Or.inl h₁⟩
    · obtain ⟨n, hn⟩ := ih h₂
      exact ⟨n, Or.inr ⟨x, hx, hn⟩⟩
  | many body ih =>
    obtain ⟨tss, hts, hrounds⟩ := hp
    suffices h : ∃ n, List.Forall₂ (body.DerivesBy (Rule.DerivesIn n)) tss v by
      obtain ⟨n, hn⟩ := h
      exact ⟨n, tss, hts, hn⟩
    clear hts
    induction hrounds with
    | nil => exact ⟨0, .nil⟩
    | cons hround _ ihr =>
      obtain ⟨n, hn⟩ := ih hround
      obtain ⟨m, hm⟩ := ihr
      exact ⟨max n m, .cons (grow (Nat.le_max_left n m) hn)
        (hm.imp fun _ _ => grow (Nat.le_max_right n m))⟩
  | map f body ih =>
    obtain ⟨x, hx, hf⟩ := hp
    obtain ⟨n, hn⟩ := ih hx
    exact ⟨n, x, hn, hf⟩

/-- A rule derives what its pattern derives. -/
theorem Rule.derives_iff {r : Rule} {ts : List Token} {v : r.Value} :
    r.Derives ts v ↔ r.pattern.DerivesBy Rule.Derives ts v := by
  constructor
  · rintro ⟨_ | n, hn⟩
    · exact hn.elim
    · exact Pattern.DerivesBy.mono (fun _ _ _ h => ⟨n, h⟩) hn
  · intro h
    obtain ⟨n, hn⟩ := h.exists_height
    exact ⟨n + 1, hn⟩

end Kelp.Grammar
