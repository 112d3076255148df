import Kelp.Grammar.Parse

/-!
# Matching without a state

The state that runs along while a pattern is matched never decides whether it matches.
`Pattern.read` and `Rule.read` match without one, and `Rule.run_fst` says that they give the same
values and the same places.
-/

namespace Kelp.Grammar

/-- A way to match something at a cursor that keeps no state. -/
abbrev Reader (α : Type) : Type := Cursor → Option (α × Cursor)

/-- Rounds of `item` without a state, as in `rounds`. -/
def readRounds {α : Type} (item : Reader α) : (fuel : Nat) → Cursor → List α × Cursor
  | 0, c => ([], c)
  | fuel + 1, c =>
    match item c.skip with
    | none => ([], c)
    | some (x, c) => (x :: (readRounds item fuel c).1, (readRounds item fuel c).2)

/-- Match a pattern without a state, as in `Pattern.run`. -/
def Pattern.read (call : (r : Rule) → Reader r.Value) : {α : Type} → Pattern α → Reader α
  | _, .empty, c => some ((), c)
  | _, .lexeme l, c => l.scan c
  | _, .rule r, c => call r c
  | _, .seq first second, c =>
    (first.read call c).bind fun (x, c) =>
      (second.read call c.skip).map fun (y, c) => ((x, y), c)
  | _, .alt first second, c => (first.read call c).or (second.read call c)
  | _, .opt body, c =>
    match body.read call c with
    | none => some (none, c)
    | some (x, c) => some (some x, c)
  | _, .many body, c =>
    match body.read call c with
    | none => some ([], c)
    | some (x, c) =>
      let (xs, c) := readRounds (body.read call) (c.rest.length + 1) c
      some (x :: xs, c)
  | _, .map f body, c => (body.read call c).map fun (x, c) => (f x, c)

/-- Match a named rule without a state, as in `Rule.run`. -/
def Rule.read : (fuel : Nat) → (r : Rule) → Reader r.Value
  | 0, _, _ => none
  | fuel + 1, r, c => r.pattern.read (Rule.read fuel) c

/-! ## Agreement -/

section Agreement

variable {σ : Type}

/-- Rounds match alike, if one round does. -/
theorem rounds_fst {α : Type} {item : Matcher σ α} {item' : Reader α}
    (h : ∀ c s, (item c s).1 = item' c) :
    ∀ (fuel : Nat) (c : Cursor) (s : σ), (rounds item fuel c s).1 = readRounds item' fuel c
  | 0, c, s => rfl
  | fuel + 1, c, s => by
    rw [rounds, readRounds, ← h c.skip s]
    rcases item c.skip s with ⟨_ | ⟨x, c'⟩, s'⟩
    · rfl
    · show (x :: (rounds item fuel c' s').1.1, (rounds item fuel c' s').1.2) =
        (x :: (readRounds item' fuel c').1, (readRounds item' fuel c').2)
      rw [rounds_fst h fuel c' s']

/-- Patterns match alike, if the named rules do. -/
theorem Pattern.run_fst {call : (r : Rule) → Matcher σ r.Value}
    {call' : (r : Rule) → Reader r.Value} (h : ∀ r c s, (call r c s).1 = call' r c)
    {α : Type} (p : Pattern α) (c : Cursor) (s : σ) : (p.run call c s).1 = p.read call' c := by
  induction p generalizing c s with
  | empty => rfl
  | lexeme l => rfl
  | rule r => exact h r c s
  | seq first second ih₁ ih₂ =>
    rw [Pattern.run, Pattern.read, ← ih₁ c s]
    rcases first.run call c s with ⟨_ | ⟨x, c'⟩, s'⟩
    · rfl
    · show _ = (second.read call' c'.skip).map _
      rw [← ih₂ c'.skip s']
      rcases hrun : second.run call c'.skip s' with ⟨_ | ⟨y, c''⟩, s''⟩
      · simp only [hrun]
        rfl
      · simp only [hrun]
        rfl
  | alt first second ih₁ ih₂ =>
    rw [Pattern.run, Pattern.read, ← ih₁ c s]
    rcases first.run call c s with ⟨_ | m, s'⟩
    · exact ih₂ c s'
    · rfl
  | opt body ih =>
    rw [Pattern.run, Pattern.read, ← ih c s]
    rcases body.run call c s with ⟨_ | ⟨x, c'⟩, s'⟩
    · rfl
    · rfl
  | many body ih =>
    rw [Pattern.run, Pattern.read, ← ih c s]
    rcases body.run call c s with ⟨_ | ⟨x, c'⟩, s'⟩
    · rfl
    · show some (x :: (rounds (body.run call) (c'.rest.length + 1) c' s').1.1,
        (rounds (body.run call) (c'.rest.length + 1) c' s').1.2) = _
      rw [rounds_fst ih]
  | map f body ih =>
    rw [Pattern.run, Pattern.read, ← ih c s]
    rcases body.run call c s with ⟨_ | ⟨x, c'⟩, s'⟩
    · rfl
    · rfl

/-- **The state does not matter**: what a rule matches, and where it ends, is the same without the
state and whatever is done with it on failures. -/
theorem Rule.run_fst (failed : Rule → Nat → σ → σ → σ) :
    ∀ (fuel : Nat) (r : Rule) (c : Cursor) (s : σ),
      (Rule.run failed fuel r c s).1 = Rule.read fuel r c
  | 0, _, _, _ => rfl
  | fuel + 1, r, c, s => by
    have h := Pattern.run_fst (Rule.run_fst failed fuel) r.pattern c s
    rw [Rule.run, Rule.read, ← h]
    rcases r.pattern.run (Rule.run failed fuel) c s with ⟨_ | m, s'⟩
    · rfl
    · rfl

/-- A text matches the grammar exactly when it does without a state. -/
theorem matchProgram_eq_ok_iff {text : List Char} {program : Program Literal} :
    matchProgram text = .ok program ↔
      ∃ c, Rule.read (depthBound text) .program (.start text) = some (program, c) := by
  have h := Rule.run_fst Attempts.record (depthBound text) .program (.start text) .start
  revert h
  unfold matchProgram
  generalize Rule.run Attempts.record (depthBound text) .program (.start text) .start = r
  generalize Rule.read (depthBound text) .program (.start text) = r'
  rintro rfl
  rcases r with ⟨_ | ⟨p, c⟩, s⟩
  · simp
  · simp

end Agreement

end Kelp.Grammar
