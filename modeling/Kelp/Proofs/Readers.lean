import Mathlib.Data.List.Forall2

/-!
# Readers

Reading something from the front of a list of symbols, bytes of a file or characters of a script.

- `Reader` is a way to do so, and `next`, `mark`, `items` and `many` are the ones that the others
  are put together from.
- `Reads r front x` says that a reader finds `x` in `front`, whatever stands behind it. The lemmas
  `reads_…` follow the ways to build readers.
-/

namespace Kelp

/-- A way to read something from the front of a list of symbols. -/
abbrev Reader (τ : Type) : Type → Type := StateT (List τ) Option

namespace Reader

variable {τ α β : Type}

/-- The next symbol. -/
def next : Reader τ τ
  | [] => none
  | t :: rest => some (t, rest)

/-- The given symbol. -/
def mark [DecidableEq τ] (t : τ) : Reader τ Unit := do
  if (← next) = t then return () else failure

/-- The given symbols, one after the other. -/
def expect [DecidableEq τ] : List τ → Reader τ Unit
  | [] => return ()
  | t :: ts => do
    mark t
    expect ts

/-- The whole of a list of symbols. -/
def exactly (r : Reader τ α) (symbols : List τ) : Option α := do
  let (x, rest) ← r symbols
  if rest.isEmpty then some x else none

/-- The given number of items. -/
def items (r : Reader τ α) : Nat → Reader τ (List α)
  | 0 => return []
  | n + 1 => do
    let x ← r
    return x :: (← items r n)

/-- Symbols of the given kind, as many as there are. -/
def many (p : τ → Bool) : Reader τ (List τ) := fun symbols =>
  some (symbols.takeWhile p, symbols.dropWhile p)

/-- One or more symbols of the given kind, as many as there are. -/
def run (p : τ → Bool) : Reader τ (List τ) := do
  let symbols ← many p
  if symbols.isEmpty then failure else return symbols

/-! ## What readers read -/

/-- The reader finds `x` in the symbols, and leaves alone what stands behind them. -/
def Reads (r : Reader τ α) (front : List τ) (x : α) : Prop :=
  ∀ rest, r (front ++ rest) = some (x, rest)

section Reads

variable {r : Reader τ α} {front front' : List τ} {x : α} {y : β}

theorem reads_pure (x : α) : Reads (pure x : Reader τ α) [] x := fun _ => rfl

theorem reads_some (x : α) : Reads (liftM (some x) : Reader τ α) [] x := fun _ => rfl

/-- Readers run one after the other, each on what the one before left. -/
theorem bind_of_eq {f : α → Reader τ β} {symbols rest : List τ} (h : r symbols = some (x, rest)) :
    (r >>= f) symbols = f x rest := by
  show (r symbols).bind (fun p => f p.1 p.2) = _
  rw [h]
  rfl

theorem Reads.bind_apply {f : α → Reader τ β} (h : Reads r front x) (rest : List τ) :
    (r >>= f) (front ++ rest) = f x rest :=
  bind_of_eq (h rest)

/-- What two readers find one behind the other is found by both in sequence. -/
theorem Reads.bind {f : α → Reader τ β} (h : Reads r front x) (hf : Reads (f x) front' y) :
    Reads (r >>= f) (front ++ front') y := by
  intro rest
  rw [List.append_assoc, h.bind_apply]
  exact hf rest

/-- What is done after the last symbol was read. -/
theorem Reads.finish {f : α → Reader τ β} (h : Reads r front x) (hf : Reads (f x) [] y) :
    Reads (r >>= f) front y := by
  have hbind := h.bind hf
  rwa [List.append_nil] at hbind

theorem reads_next (t : τ) : Reads next [t] t := fun _ => rfl

theorem reads_mark [DecidableEq τ] (t : τ) : Reads (mark t) [t] () := by
  refine (reads_next t).finish ?_
  rw [if_pos rfl]
  exact reads_pure ()

/-- Given symbols are found where they stand. -/
theorem reads_expect [DecidableEq τ] : ∀ ts : List τ, Reads (expect ts) ts ()
  | [] => reads_pure ()
  | t :: ts => (reads_mark t).bind (reads_expect ts)

/-- What is found in front of anything is found by itself. -/
theorem exactly_of_reads (h : Reads r front x) : exactly r front = some x := by
  have hr := h []
  rw [List.append_nil] at hr
  simp [exactly, hr]

/-- Items are found one by one, if each is found where it stands. -/
theorem reads_items {item : β → List τ} {ys : List β} {xs : List α}
    (h : List.Forall₂ (fun y x => Reads r (item y) x) ys xs) :
    Reads (items r ys.length) (ys.flatMap item) xs := by
  induction h with
  | nil => exact reads_pure []
  | cons hx _ ih => exact hx.bind (ih.finish (reads_pure _))

section Runs

variable {p : τ → Bool} {symbols rest : List τ}

/-- Symbols of a kind end where a symbol of another kind follows. -/
theorem many_append (hsymbols : ∀ t ∈ symbols, p t = true)
    (hrest : ∀ t ∈ rest.head?, p t = false) :
    many p (symbols ++ rest) = some (symbols, rest) := by
  have htake : rest.takeWhile p = [] ∧ rest.dropWhile p = rest := by
    cases rest with
    | nil => exact ⟨rfl, rfl⟩
    | cons t rest => simp [hrest t rfl]
  rw [many, List.takeWhile_append_of_pos hsymbols, List.dropWhile_append_of_pos hsymbols, htake.1,
    htake.2, List.append_nil]

/-- The same where at least one such symbol is asked for. -/
theorem run_append (hne : symbols ≠ []) (hsymbols : ∀ t ∈ symbols, p t = true)
    (hrest : ∀ t ∈ rest.head?, p t = false) : run p (symbols ++ rest) = some (symbols, rest) := by
  rw [run, bind_of_eq (many_append hsymbols hrest)]
  cases symbols with
  | nil => exact absurd rfl hne
  | cons => rfl

end Runs

end Reads

end Reader

end Kelp
