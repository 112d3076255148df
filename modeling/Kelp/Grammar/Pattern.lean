import Kelp.Grammar.Cursor
import Kelp.Grammar.Rule

/-!
# Patterns

The right-hand sides of grammar rules, as data, and how they are matched.

- `Pattern α` describes a piece of text that yields an `α`.
- `Pattern.run` matches one from left to right: the first alternative that matches is taken, and
  options and repetitions take as much as they can. Layout may stand between the parts of a sequence
  and between the rounds of a repetition. A failing part gives back all the text that it took, but
  what it left in the accompanying state stays.
-/

namespace Kelp.Grammar

/-- A piece of text that yields an `α`. -/
inductive Pattern : Type → Type 1 where
  /-- The empty text. -/
  | empty : Pattern Unit
  /-- A single lexeme. -/
  | lexeme (l : Lexeme) : Pattern l.Value
  /-- What the named rule describes. -/
  | rule (r : Rule) : Pattern r.Value
  /-- One pattern after the other, with layout between them. -/
  | seq {α β : Type} (first : Pattern α) (second : Pattern β) : Pattern (α × β)
  /-- The first pattern, or the second where the first does not match. -/
  | alt {α : Type} (first second : Pattern α) : Pattern α
  /-- The pattern, or nothing. -/
  | opt {α : Type} (body : Pattern α) : Pattern (Option α)
  /-- Any number of rounds of the pattern, with layout between them. -/
  | many {α : Type} (body : Pattern α) : Pattern (List α)
  /-- The pattern with its value transformed. -/
  | map {α β : Type} (f : α → β) (body : Pattern α) : Pattern β

namespace Pattern

/-- A punctuation mark. -/
def mark (m : Mark) : Pattern Unit := .lexeme (.mark m)

/-- A keyword, through the rule of its name. -/
def keyword (k : Keyword) : Pattern Unit := .rule (.keyword k)

/-- A sequence that keeps the value of its second part. -/
def right {α β : Type} (first : Pattern α) (second : Pattern β) : Pattern β :=
  .map Prod.snd (.seq first second)

/-- A sequence that keeps the value of its first part. -/
def left {α β : Type} (first : Pattern α) (second : Pattern β) : Pattern α :=
  .map Prod.fst (.seq first second)

/-- One or more items, each two separated by `separator`. -/
def separated {α : Type} (separator : Mark) (item : Pattern α) : Pattern (List α) :=
  .map (fun (first, rest) => first :: rest) (.seq item (.many (.right (.mark separator) item)))

/-- Any number of items, each two separated by a comma. A comma may also follow the last one. -/
def commaList {α : Type} (item : Pattern α) : Pattern (List α) :=
  .map (fun items => items.getD []) (.opt (.left (.separated .comma item) (.opt (.mark .comma))))

/-- One or more rounds of the pattern, with layout between them. -/
def many1 {α : Type} (item : Pattern α) : Pattern (List α) :=
  .map (fun (first, rest) => first :: rest) (.seq item (.many item))

end Pattern

/-! ## Matching -/

/-- A way to match something at a cursor: on success it gives the value and the place after the
matched text. A state of type `σ` runs along and is never taken back. -/
abbrev Matcher (σ α : Type) : Type := Cursor → σ → Option (α × Cursor) × σ

/-- Rounds of `item`, each after layout, until one fails or `fuel` rounds are done. The layout
before a failing round is given back. -/
def rounds {σ α : Type} (item : Matcher σ α) :
    (fuel : Nat) → Cursor → σ → (List α × Cursor) × σ
  | 0, c, s => (([], c), s)
  | fuel + 1, c, s =>
    match item c.skip s with
    | (none, s) => (([], c), s)
    | (some (x, c), s) =>
      let ((xs, c), s) := rounds item fuel c s
      ((x :: xs, c), s)

/-- Match a pattern, where `call` matches the named rules. A repetition is bounded by one round for
each character left and a last one that fails, which is enough where every round that matches takes
a character. -/
def Pattern.run {σ : Type} (call : (r : Rule) → Matcher σ r.Value) :
    {α : Type} → Pattern α → Matcher σ α
  | _, .empty, c, s => (some ((), c), s)
  | _, .lexeme l, c, s => (l.scan c, s)
  | _, .rule r, c, s => call r c s
  | _, .seq first second, c, s =>
    match first.run call c s with
    | (none, s) => (none, s)
    | (some (x, c), s) =>
      match second.run call c.skip s with
      | (none, s) => (none, s)
      | (some (y, c), s) => (some ((x, y), c), s)
  | _, .alt first second, c, s =>
    match first.run call c s with
    | (none, s) => second.run call c s
    | (some m, s) => (some m, s)
  | _, .opt body, c, s =>
    match body.run call c s with
    | (none, s) => (some (none, c), s)
    | (some (x, c), s) => (some (some x, c), s)
  | _, .many body, c, s =>
    -- layout stands between rounds, so there is none before the first one
    match body.run call c s with
    | (none, s) => (some ([], c), s)
    | (some (x, c), s) =>
      let ((xs, c), s) := rounds (body.run call) (c.rest.length + 1) c s
      (some (x :: xs, c), s)
  | _, .map f body, c, s =>
    match body.run call c s with
    | (none, s) => (none, s)
    | (some (x, c), s) => (some (f x, c), s)

end Kelp.Grammar
