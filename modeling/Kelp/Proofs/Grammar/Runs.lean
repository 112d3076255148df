import Kelp.Proofs.Grammar.Reading

/-!
# Runs of the grammar

How a text is matched, step by step and without a bound on how deep rules stand inside each other:
what is tried, in which order, and which rules fail on the way. A rule that failed counts even if
the text then matches in another way.

- `Pattern.RunsBy` gives the runs of a pattern, where a given relation has those of the named rules.
  `Rule.RunsIn n` has runs with at most `n` rules inside each other, and `Rule.Runs` those of any
  depth.
- `Rule.Runs.unique`: a rule has at most one run at a place.
- `Rule.RunsIn.staysWithin`: a run and its failures stay in the text that it starts in.
- `Pattern.paced` checks that a pattern takes a token before it comes back to a rule, and in each
  round of a repetition. All productions pass this check.
- `Rule.run_traced`: so matching with a state, which is bounded in its depth and in its rounds,
  follows the run. What one failure does to the state is enough to know what a whole run does to it.
-/

namespace Kelp.Grammar

/-- A rule that was tried at an offset and failed there. -/
structure RuleFailure where
  rule : Rule
  offset : Nat
deriving DecidableEq, Repr, Inhabited

/-- The runs of something: where it starts, what it matches or that it does not, and the rules that
fail meanwhile, in order. -/
abbrev RunRelation (α : Type) : Type :=
  Cursor → Option (α × Cursor) → List RuleFailure → Prop

/-- Rounds of `item`, each after layout, until one fails. The layout before the failing round is
given back. -/
inductive Rounds {α : Type} (item : RunRelation α) :
    Cursor → List α × Cursor → List RuleFailure → Prop where
  | stop {c : Cursor} {fs : List RuleFailure} : item c.skip none fs → Rounds item c ([], c) fs
  | round {c c' : Cursor} {x : α} {m : List α × Cursor} {fs gs : List RuleFailure} :
      item c.skip (some (x, c')) fs → Rounds item c' m gs →
      Rounds item c (x :: m.1, m.2) (fs ++ gs)

/-- The runs of a pattern, where `call` has those of the named rules. -/
def Pattern.RunsBy (call : (r : Rule) → RunRelation r.Value) :
    {α : Type} → Pattern α → RunRelation α
  | _, .empty, c, m, fs => m = some ((), c) ∧ fs = []
  | _, .lexeme l, c, m, fs => m = l.scan c ∧ fs = []
  | _, .rule r, c, m, fs => call r c m fs
  | _, .seq first second, c, m, fs =>
    (first.RunsBy call c none fs ∧ m = none) ∨
      ∃ x c' m' gs hs, first.RunsBy call c (some (x, c')) gs ∧ second.RunsBy call c'.skip m' hs ∧
        m = m'.map (Prod.map (x, ·) id) ∧ fs = gs ++ hs
  | _, .alt first second, c, m, fs =>
    (∃ v, first.RunsBy call c (some v) fs ∧ m = some v) ∨
      ∃ gs hs, first.RunsBy call c none gs ∧ second.RunsBy call c m hs ∧ fs = gs ++ hs
  | _, .opt body, c, m, fs =>
    (body.RunsBy call c none fs ∧ m = some (none, c)) ∨
      ∃ x c', body.RunsBy call c (some (x, c')) fs ∧ m = some (some x, c')
  | _, .many body, c, m, fs =>
    (body.RunsBy call c none fs ∧ m = some ([], c)) ∨
      ∃ x c' m' gs hs, body.RunsBy call c (some (x, c')) gs ∧
        Rounds (body.RunsBy call) c' m' hs ∧ m = some (x :: m'.1, m'.2) ∧ fs = gs ++ hs
  | _, .map f body, c, m, fs =>
    ∃ m', body.RunsBy call c m' fs ∧ m = m'.map (Prod.map f id)

/-- The runs of a named rule, with at most `n` rules inside each other. Where the pattern of the
rule fails, the rule fails after all that it tried. -/
def Rule.RunsIn : (n : Nat) → (r : Rule) → RunRelation r.Value
  | 0, _, _, _, _ => False
  | n + 1, r, c, some v, fs => r.pattern.RunsBy (Rule.RunsIn n) c (some v) fs
  | n + 1, r, c, none, fs =>
    ∃ gs, r.pattern.RunsBy (Rule.RunsIn n) c none gs ∧ fs = gs ++ [⟨r, c.offset⟩]

/-- The runs of a named rule. -/
def Rule.Runs (r : Rule) : RunRelation r.Value := fun c m fs => ∃ n, Rule.RunsIn n r c m fs

/-! ## Depth -/

/-- More runs of an item make more rounds. -/
theorem Rounds.mono {α : Type} {item item' : RunRelation α}
    (h : ∀ c m fs, item c m fs → item' c m fs) {c : Cursor} {m : List α × Cursor}
    {fs : List RuleFailure} (hr : Rounds item c m fs) : Rounds item' c m fs := by
  induction hr with
  | stop hstop => exact .stop (h _ _ _ hstop)
  | round hround _ ih => exact .round (h _ _ _ hround) ih

/-- More runs of the rules make more runs of patterns. -/
theorem Pattern.RunsBy.mono {call call' : (r : Rule) → RunRelation r.Value}
    (h : ∀ r c m fs, call r c m fs → call' r c m fs) {α : Type} {p : Pattern α} {c : Cursor}
    {m : Option (α × Cursor)} {fs : List RuleFailure} (hp : p.RunsBy call c m fs) :
    p.RunsBy call' c m fs := by
  induction p generalizing c fs with
  | empty => exact hp
  | lexeme l => exact hp
  | rule r => exact h r c m fs hp
  | seq first second ih₁ ih₂ =>
    rcases hp with ⟨h₁, hm⟩ | ⟨x, c', m', gs, hs, h₁, h₂, hm, hfs⟩
    · exact .inl ⟨ih₁ h₁, hm⟩
    · exact .inr ⟨x, c', m', gs, hs, ih₁ h₁, ih₂ h₂, hm, hfs⟩
  | alt first second ih₁ ih₂ =>
    rcases hp with ⟨v, h₁, hm⟩ | ⟨gs, hs, h₁, h₂, hfs⟩
    · exact .inl ⟨v, ih₁ h₁, hm⟩
    · exact .inr ⟨gs, hs, ih₁ h₁, ih₂ h₂, hfs⟩
  | opt body ih =>
    rcases hp with ⟨h₁, hm⟩ | ⟨x, c', h₁, hm⟩
    · exact .inl ⟨ih h₁, hm⟩
    · exact .inr ⟨x, c', ih h₁, hm⟩
  | many body ih =>
    rcases hp with ⟨h₁, hm⟩ | ⟨x, c', m', gs, hs, h₁, h₂, hm, hfs⟩
    · exact .inl ⟨ih h₁, hm⟩
    · exact .inr ⟨x, c', m', gs, hs, ih h₁, h₂.mono fun _ _ _ => ih, hm, hfs⟩
  | map f body ih =>
    obtain ⟨m', h₁, hm⟩ := hp
    exact ⟨m', ih h₁, hm⟩

/-- A run is also one of a greater depth. -/
theorem Rule.RunsIn.succ : ∀ {n : Nat} {r : Rule} {c : Cursor} {m : Option (r.Value × Cursor)}
    {fs : List RuleFailure}, Rule.RunsIn n r c m fs → Rule.RunsIn (n + 1) r c m fs
  | 0, _, _, _, _, h => h.elim
  | _ + 1, _, _, some _, _, h => Pattern.RunsBy.mono (fun _ _ _ _ => Rule.RunsIn.succ) h
  | _ + 1, _, _, none, _, ⟨gs, h, hfs⟩ =>
    ⟨gs, Pattern.RunsBy.mono (fun _ _ _ _ => Rule.RunsIn.succ) h, hfs⟩

theorem Rule.RunsIn.mono {n k : Nat} (hnk : n ≤ k) {r : Rule} {c : Cursor}
    {m : Option (r.Value × Cursor)} {fs : List RuleFailure} (h : Rule.RunsIn n r c m fs) :
    Rule.RunsIn k r c m fs := by
  induction hnk with
  | refl => exact h
  | step _ ih => exact ih.succ

/-! ## Runs are unique -/

/-- At most one run starts at each place. -/
def Deterministic {α : Type} (R : RunRelation α) : Prop :=
  ∀ ⦃c m fs m' fs'⦄, R c m fs → R c m' fs' → m = m' ∧ fs = fs'

/-- Rounds are unique, if those of the item are. -/
theorem Rounds.unique {α : Type} {item : RunRelation α} (h : Deterministic item) {c : Cursor}
    {m m' : List α × Cursor} {fs fs' : List RuleFailure} (hr : Rounds item c m fs)
    (hr' : Rounds item c m' fs') : m = m' ∧ fs = fs' := by
  induction hr generalizing m' fs' with
  | stop hstop =>
    -- both stop or both go on, since the item has one run here
    cases hr' with
    | stop hstop' => exact ⟨rfl, (h hstop hstop').2⟩
    | round hround' _ => cases (h hstop hround').1
  | round hround _ ih =>
    cases hr' with
    | stop hstop' => cases (h hround hstop').1
    | round hround' hrest' =>
      obtain ⟨heq, rfl⟩ := h hround hround'
      cases heq
      obtain ⟨rfl, rfl⟩ := ih hrest'
      exact ⟨rfl, rfl⟩

/-- The runs of a pattern are unique, if those of the rules are. In each case, the first part of the
two runs settles how they go on. -/
theorem Pattern.RunsBy.deterministic {call : (r : Rule) → RunRelation r.Value}
    (h : ∀ r, Deterministic (call r)) {α : Type} (p : Pattern α) :
    Deterministic (p.RunsBy call) := by
  induction p with
  | empty =>
    rintro c m fs m' fs' ⟨rfl, rfl⟩ ⟨rfl, rfl⟩
    exact ⟨rfl, rfl⟩
  | lexeme l =>
    rintro c m fs m' fs' ⟨rfl, rfl⟩ ⟨rfl, rfl⟩
    exact ⟨rfl, rfl⟩
  | rule r => exact h r
  | seq first second ih₁ ih₂ =>
    rintro c m fs m' fs' (⟨h₁, rfl⟩ | ⟨x, c₁, n, gs, hs, h₁, h₂, rfl, rfl⟩)
      (⟨h₁', rfl⟩ | ⟨x', c₁', n', gs', hs', h₁', h₂', rfl, rfl⟩)
    · exact ⟨rfl, (ih₁ h₁ h₁').2⟩
    · cases (ih₁ h₁ h₁').1
    · cases (ih₁ h₁ h₁').1
    · obtain ⟨heq, rfl⟩ := ih₁ h₁ h₁'
      cases heq
      obtain ⟨rfl, rfl⟩ := ih₂ h₂ h₂'
      exact ⟨rfl, rfl⟩
  | alt first second ih₁ ih₂ =>
    rintro c m fs m' fs' (⟨v, h₁, rfl⟩ | ⟨gs, hs, h₁, h₂, rfl⟩)
      (⟨v', h₁', rfl⟩ | ⟨gs', hs', h₁', h₂', rfl⟩)
    · exact ih₁ h₁ h₁'
    · cases (ih₁ h₁ h₁').1
    · cases (ih₁ h₁ h₁').1
    · obtain ⟨-, rfl⟩ := ih₁ h₁ h₁'
      obtain ⟨rfl, rfl⟩ := ih₂ h₂ h₂'
      exact ⟨rfl, rfl⟩
  | opt body ih =>
    rintro c m fs m' fs' (⟨h₁, rfl⟩ | ⟨x, c₁, h₁, rfl⟩) (⟨h₁', rfl⟩ | ⟨x', c₁', h₁', rfl⟩)
    · exact ⟨rfl, (ih h₁ h₁').2⟩
    · cases (ih h₁ h₁').1
    · cases (ih h₁ h₁').1
    · obtain ⟨heq, rfl⟩ := ih h₁ h₁'
      cases heq
      exact ⟨rfl, rfl⟩
  | many body ih =>
    rintro c m fs m' fs' (⟨h₁, rfl⟩ | ⟨x, c₁, n, gs, hs, h₁, h₂, rfl, rfl⟩)
      (⟨h₁', rfl⟩ | ⟨x', c₁', n', gs', hs', h₁', h₂', rfl, rfl⟩)
    · exact ⟨rfl, (ih h₁ h₁').2⟩
    · cases (ih h₁ h₁').1
    · cases (ih h₁ h₁').1
    · obtain ⟨heq, rfl⟩ := ih h₁ h₁'
      cases heq
      obtain ⟨rfl, rfl⟩ := h₂.unique ih h₂'
      exact ⟨rfl, rfl⟩
  | map f body ih =>
    rintro c m fs m' fs' ⟨n, h₁, rfl⟩ ⟨n', h₁', rfl⟩
    obtain ⟨rfl, rfl⟩ := ih h₁ h₁'
    exact ⟨rfl, rfl⟩

/-- By induction on the depth: where a rule fails, its pattern has failed. -/
theorem Rule.RunsIn.deterministic : ∀ (n : Nat) (r : Rule), Deterministic (Rule.RunsIn n r)
  | 0, _ => fun _ _ _ _ _ h => h.elim
  | n + 1, r => by
    have hpattern := Pattern.RunsBy.deterministic (Rule.RunsIn.deterministic n) r.pattern
    intro c m fs m' fs' h h'
    cases m with
    | some v =>
      cases m' with
      | some v' => exact hpattern h h'
      | none =>
        obtain ⟨gs', h', -⟩ := h'
        cases (hpattern h h').1
    | none =>
      obtain ⟨gs, h, rfl⟩ := h
      cases m' with
      | some v' => cases (hpattern h h').1
      | none =>
        obtain ⟨gs', h', rfl⟩ := h'
        exact ⟨rfl, by rw [(hpattern h h').2]⟩

/-- **One run**: a rule has at most one run at a place. -/
theorem Rule.Runs.unique {r : Rule} : Deterministic r.Runs := by
  rintro c m fs m' fs' ⟨n, h⟩ ⟨k, h'⟩
  exact Rule.RunsIn.deterministic (max n k) r (h.mono (Nat.le_max_left n k))
    (h'.mono (Nat.le_max_right n k))

/-! ## Places of failures -/

/-- The place belongs to a text of the given length. -/
def Cursor.Within (length : Nat) (c : Cursor) : Prop := c.offset + c.rest.length = length

/-- Skipping layout stays in the text. -/
theorem Cursor.Within.skip {length : Nat} {c : Cursor} (h : c.Within length) :
    c.skip.Within length := by
  obtain ⟨g, rest, hrest, hskip, -⟩ := exists_gap_skipLayout c.offset c.rest
  rw [Cursor.Within, hrest, List.length_append] at h
  rw [Cursor.skip, hskip]
  show c.offset + g.length + rest.length = length
  omega

/-- Lexemes take characters of the text. -/
theorem Cursor.Within.scan {length : Nat} {c c' : Cursor} (h : c.Within length) {l : Lexeme}
    {v : l.Value} (hscan : l.scan c = some (v, c')) : c'.Within length := by
  obtain ⟨chars, hchars, heq⟩ := Option.map_eq_some_iff.1 hscan
  cases heq
  have hle := (Lexeme.matched_isPrefix hchars).length_le
  rw [Cursor.Within] at h
  show c.offset + chars.length + (c.rest.drop chars.length).length = length
  rw [List.length_drop]
  omega

/-- Runs that start in a text end in it where they match, and fail only in it. -/
def StaysWithin (length : Nat) {α : Type} (R : RunRelation α) : Prop :=
  ∀ ⦃c m fs⦄, R c m fs → c.Within length →
    (∀ v c', m = some (v, c') → c'.Within length) ∧ ∀ f ∈ fs, f.offset ≤ length

/-- Rounds stay in the text, if the item does. -/
theorem Rounds.staysWithin {length : Nat} {α : Type} {item : RunRelation α}
    (h : StaysWithin length item) {c : Cursor} {m : List α × Cursor} {fs : List RuleFailure}
    (hr : Rounds item c m fs) (hc : c.Within length) :
    m.2.Within length ∧ ∀ f ∈ fs, f.offset ≤ length := by
  induction hr with
  | stop hstop => exact ⟨hc, (h hstop hc.skip).2⟩
  | round hround _ ih =>
    obtain ⟨hc', hfs⟩ := h hround hc.skip
    obtain ⟨hm, hgs⟩ := ih (hc' _ _ rfl)
    exact ⟨hm, List.forall_mem_append.2 ⟨hfs, hgs⟩⟩

/-- Patterns stay in the text, if the rules do. -/
theorem Pattern.RunsBy.staysWithin {length : Nat} {call : (r : Rule) → RunRelation r.Value}
    (h : ∀ r, StaysWithin length (call r)) {α : Type} (p : Pattern α) :
    StaysWithin length (p.RunsBy call) := by
  induction p with
  | empty =>
    rintro c m fs ⟨rfl, rfl⟩ hc
    refine ⟨fun v c' heq => ?_, List.forall_mem_nil _⟩
    cases heq
    exact hc
  | lexeme l =>
    rintro c m fs ⟨rfl, rfl⟩ hc
    exact ⟨fun v c' hscan => hc.scan hscan, List.forall_mem_nil _⟩
  | rule r => exact h r
  | seq first second ih₁ ih₂ =>
    rintro c m fs (⟨h₁, rfl⟩ | ⟨x, c₁, n, gs, hs, h₁, h₂, rfl, rfl⟩) hc
    · refine ⟨fun v c' heq => ?_, (ih₁ h₁ hc).2⟩
      cases heq
    · obtain ⟨hc₁, hgs⟩ := ih₁ h₁ hc
      obtain ⟨hn, hhs⟩ := ih₂ h₂ (hc₁ _ _ rfl).skip
      refine ⟨fun v c' heq => ?_, List.forall_mem_append.2 ⟨hgs, hhs⟩⟩
      obtain ⟨w, hw, heq⟩ := Option.map_eq_some_iff.1 heq
      cases heq
      exact hn _ _ hw
  | alt first second ih₁ ih₂ =>
    rintro c m fs (⟨v, h₁, rfl⟩ | ⟨gs, hs, h₁, h₂, rfl⟩) hc
    · exact ih₁ h₁ hc
    · obtain ⟨hm, hhs⟩ := ih₂ h₂ hc
      exact ⟨hm, List.forall_mem_append.2 ⟨(ih₁ h₁ hc).2, hhs⟩⟩
  | opt body ih =>
    rintro c m fs (⟨h₁, rfl⟩ | ⟨x, c₁, h₁, rfl⟩) hc
    · refine ⟨fun v c' heq => ?_, (ih h₁ hc).2⟩
      cases heq
      exact hc
    · obtain ⟨hc₁, hfs⟩ := ih h₁ hc
      refine ⟨fun v c' heq => ?_, hfs⟩
      cases heq
      exact hc₁ _ _ rfl
  | many body ih =>
    rintro c m fs (⟨h₁, rfl⟩ | ⟨x, c₁, n, gs, hs, h₁, h₂, rfl, rfl⟩) hc
    · refine ⟨fun v c' heq => ?_, (ih h₁ hc).2⟩
      cases heq
      exact hc
    · obtain ⟨hc₁, hgs⟩ := ih h₁ hc
      obtain ⟨hn, hhs⟩ := h₂.staysWithin ih (hc₁ _ _ rfl)
      refine ⟨fun v c' heq => ?_, List.forall_mem_append.2 ⟨hgs, hhs⟩⟩
      cases heq
      exact hn
  | map f body ih =>
    rintro c m fs ⟨n, h₁, rfl⟩ hc
    obtain ⟨hn, hfs⟩ := ih h₁ hc
    refine ⟨fun v c' heq => ?_, hfs⟩
    obtain ⟨w, hw, heq⟩ := Option.map_eq_some_iff.1 heq
    cases heq
    exact hn _ _ hw

/-- By induction on the depth: a rule fails where it starts, which is in the text. -/
theorem Rule.RunsIn.staysWithin (length : Nat) :
    ∀ (n : Nat) (r : Rule), StaysWithin length (Rule.RunsIn n r)
  | 0, _ => fun _ _ _ h => h.elim
  | n + 1, r => by
    have hpattern := Pattern.RunsBy.staysWithin (Rule.RunsIn.staysWithin length n) r.pattern
    intro c m fs h hc
    cases m with
    | some v => exact hpattern h hc
    | none =>
      obtain ⟨gs, h, rfl⟩ := h
      obtain ⟨hm, hgs⟩ := hpattern h hc
      refine ⟨hm, List.forall_mem_append.2 ⟨hgs, List.forall_mem_singleton.2 ?_⟩⟩
      rw [Cursor.Within] at hc
      show c.offset ≤ length
      omega

/-! ## Pace -/

/-- How many characters are left behind layout. -/
def Cursor.left (c : Cursor) : Nat := c.skip.rest.length

@[simp] theorem Cursor.left_skip (c : Cursor) : c.skip.left = c.left := by
  rw [Cursor.left, c.skip_skip, Cursor.left]

/-- A rule that tries another one where it starts itself has a greater level. -/
def Rule.level : Rule → Nat
  | .typeName => 1
  | .binder => 1
  | .struct => 1
  | .function => 1
  | .hostFunction => 1
  | .letStmt => 1
  | .returnStmt => 1
  | .dotted => 1
  | .program => 2
  | .binders => 2
  | .call => 2
  | .callStmt => 2
  | .exprStmt => 3
  | .product => 3
  | .sum => 4
  | _ => 0

theorem Rule.level_lt (r : Rule) : r.level < Rule.all.length := by
  cases r with
  | keyword k => cases k <;> decide
  | _ => decide

/-- Whether the pattern tries only rules of a level below `k` before it takes a token, and takes one
in each round of a repetition. -/
def Pattern.paced : (k : Nat) → {α : Type} → Pattern α → Bool
  | _, _, .empty => true
  | _, _, .lexeme _ => true
  | k, _, .rule r => r.level < k
  | k, _, .seq first second =>
    first.paced k && second.paced (if first.takesToken then Rule.all.length else k)
  | k, _, .alt first second => first.paced k && second.paced k
  | k, _, .opt body => body.paced k
  | k, _, .many body => body.takesToken && body.paced k
  | k, _, .map _ body => body.paced k

/-- The levels fit the productions. -/
theorem Rule.pattern_paced (r : Rule) : r.pattern.paced r.level = true := by
  cases r with
  | keyword k => cases k <;> rfl
  | _ => rfl

/-- Matching goes forward, and a pattern that takes a token leaves fewer characters. -/
theorem Pattern.left_of_read {n : Nat} {α : Type} {p : Pattern α} {c c' : Cursor} {v : α}
    (h : p.read (Rule.read n) c = some (v, c')) :
    c'.left ≤ c.left ∧ (p.takesToken = true → c'.left < c.left) := by
  obtain ⟨ts, hts, hspans⟩ := Pattern.read_sound (Rule.read_sound n) p c v c' h
  have hlength : ts.length + c'.left ≤ c.left := hspans.length_le
  refine ⟨by omega, fun htakes => ?_⟩
  have hpos := List.length_pos_of_ne_nil (hts.ne_nil htakes)
  omega

/-! ## Matching follows the run -/

section Traced

variable {σ : Type} {failed : Rule → Nat → σ → σ → σ} {I : σ → List RuleFailure → Prop}

/-- What was matched is the outcome of a run. If the failures before it are known, and `I` says how
the state depends on the failures, then it also depends so on those of the run. -/
def Follows {α : Type} (I : σ → List RuleFailure → Prop)
    (R : α → List RuleFailure → Prop) (before : List RuleFailure) (outcome : α × σ) : Prop :=
  ∃ fs, R outcome.1 fs ∧ I outcome.2 (before ++ fs)

/-- Enough rounds are allowed where each one takes a character. -/
theorem rounds_traced {α : Type} {item : Matcher σ α} {R : RunRelation α} {bound : Nat}
    (hitem : ∀ c s before, c.left ≤ bound → I s before → Follows I (R c) before (item c s))
    (htakes : ∀ c s x c', (item c s).1 = some (x, c') → c'.left < c.left) :
    ∀ (fuel : Nat) (c : Cursor) (s : σ) (before : List RuleFailure), c.left < fuel →
      c.left ≤ bound → I s before → Follows I (Rounds R c) before (rounds item fuel c s)
  | 0, _, _, _, hfuel, _, _ => absurd hfuel (Nat.not_lt_zero _)
  | fuel + 1, c, s, before, hfuel, hbound, hs => by
    have hround := hitem c.skip s before (by rwa [c.left_skip]) hs
    have hless := htakes c.skip s
    rw [rounds]
    generalize item c.skip s = m at hround hless ⊢
    obtain ⟨fs, hfs, hI⟩ := hround
    rcases m with ⟨_ | ⟨x, c'⟩, s'⟩
    · exact ⟨fs, .stop hfs, hI⟩
    · have hleft := hless x c' rfl
      rw [c.left_skip] at hleft
      obtain ⟨gs, hgs, hI'⟩ := rounds_traced hitem htakes fuel c' s' (before ++ fs) (by omega)
        (by omega) hI
      refine ⟨fs ++ gs, .round hfs hgs, ?_⟩
      rw [← List.append_assoc]
      exact hI'

theorem heightBound_mono {l l' k : Nat} (h : l ≤ l') : heightBound l k ≤ heightBound l' k :=
  Nat.add_le_add_right (Nat.mul_le_mul_left _ h) k

/-- Matching a pattern follows its run, if matching the rules follows theirs. The depth that is left
pays for the rules: their levels where no token was taken yet, and any level behind a token. -/
theorem Pattern.run_traced {n : Nat}
    (hcall : ∀ r c s before, heightBound c.left r.level < n → I s before →
      Follows I (Rule.RunsIn n r c) before (Rule.run failed n r c s))
    {α : Type} (p : Pattern α) {k : Nat} (hp : p.paced k = true) {c : Cursor} {s : σ}
    {before : List RuleFailure} (hdepth : heightBound c.left k ≤ n) (hs : I s before) :
    Follows I (p.RunsBy (Rule.RunsIn n) c) before (p.run (Rule.run failed n) c s) := by
  induction p generalizing k c s before with
  | empty => exact ⟨[], ⟨rfl, rfl⟩, by rwa [List.append_nil]⟩
  | lexeme l => exact ⟨[], ⟨rfl, rfl⟩, by rwa [List.append_nil]⟩
  | rule r =>
    have hlevel : r.level < k := of_decide_eq_true hp
    exact hcall r c s before (Nat.lt_of_lt_of_le (Nat.add_lt_add_left hlevel _) hdepth) hs
  | seq first second ih₁ ih₂ =>
    rw [Pattern.paced, Bool.and_eq_true] at hp
    have hfirst := ih₁ hp.1 hdepth hs
    have hread := Pattern.run_fst (Rule.run_fst failed n) first c s
    rw [Pattern.run]
    generalize first.run (Rule.run failed n) c s = m at hfirst hread ⊢
    obtain ⟨fs, hfs, hI⟩ := hfirst
    rcases m with ⟨_ | ⟨x, c'⟩, s'⟩
    · exact ⟨fs, .inl ⟨hfs, rfl⟩, hI⟩
    · -- behind a token the second part may try any rule
      have hleft := Pattern.left_of_read hread.symm
      have hdepth' : heightBound c'.skip.left
          (if first.takesToken then Rule.all.length else k) ≤ n := by
        rw [c'.left_skip]
        refine Nat.le_trans ?_ hdepth
        split
        next htakes =>
          have := Nat.mul_le_mul_left Rule.all.length (Nat.succ_le_of_lt (hleft.2 htakes))
          rw [Nat.mul_succ] at this
          exact Nat.le_trans this (Nat.le_add_right _ _)
        next => exact heightBound_mono hleft.1
      have hsecond := ih₂ hp.2 hdepth' hI
      simp only
      generalize second.run (Rule.run failed n) c'.skip s' = m at hsecond ⊢
      obtain ⟨gs, hgs, hI'⟩ := hsecond
      rw [List.append_assoc] at hI'
      rcases m with ⟨_ | ⟨y, c''⟩, s''⟩
      · exact ⟨fs ++ gs, .inr ⟨x, c', none, fs, gs, hfs, hgs, rfl, rfl⟩, hI'⟩
      · exact ⟨fs ++ gs, .inr ⟨x, c', some (y, c''), fs, gs, hfs, hgs, rfl, rfl⟩, hI'⟩
  | alt first second ih₁ ih₂ =>
    rw [Pattern.paced, Bool.and_eq_true] at hp
    have hfirst := ih₁ hp.1 hdepth hs
    rw [Pattern.run]
    generalize first.run (Rule.run failed n) c s = m at hfirst ⊢
    obtain ⟨fs, hfs, hI⟩ := hfirst
    rcases m with ⟨_ | v, s'⟩
    · obtain ⟨gs, hgs, hI'⟩ := ih₂ hp.2 hdepth hI
      rw [List.append_assoc] at hI'
      exact ⟨fs ++ gs, .inr ⟨fs, gs, hfs, hgs, rfl⟩, hI'⟩
    · exact ⟨fs, .inl ⟨v, hfs, rfl⟩, hI⟩
  | opt body ih =>
    have hbody := ih hp hdepth hs
    rw [Pattern.run]
    generalize body.run (Rule.run failed n) c s = m at hbody ⊢
    obtain ⟨fs, hfs, hI⟩ := hbody
    rcases m with ⟨_ | ⟨x, c'⟩, s'⟩
    · exact ⟨fs, .inl ⟨hfs, rfl⟩, hI⟩
    · exact ⟨fs, .inr ⟨x, c', hfs, rfl⟩, hI⟩
  | many body ih =>
    rw [Pattern.paced, Bool.and_eq_true] at hp
    have hbody := ih hp.2 hdepth hs
    -- each round takes a token, so the bound on the rounds is never what ends them
    have hread := Pattern.run_fst (Rule.run_fst failed n) body
    have hless : ∀ c s x c', (body.run (Rule.run failed n) c s).1 = some (x, c') →
        c'.left < c.left := fun c s x c' h =>
      (Pattern.left_of_read ((hread c s).symm.trans h)).2 hp.1
    have hfirst := hless c s
    rw [Pattern.run]
    generalize body.run (Rule.run failed n) c s = m at hbody hfirst ⊢
    obtain ⟨fs, hfs, hI⟩ := hbody
    rcases m with ⟨_ | ⟨x, c'⟩, s'⟩
    · exact ⟨fs, .inl ⟨hfs, rfl⟩, hI⟩
    · have hleft := hfirst x c' rfl
      obtain ⟨gs, hgs, hI'⟩ := rounds_traced
        (fun c s before hc => ih hp.2 (Nat.le_trans (heightBound_mono hc) hdepth)) hless
        (c'.rest.length + 1) c' s' (before ++ fs) (Nat.lt_succ_of_le c'.length_skip_le)
        (Nat.le_of_lt hleft) hI
      rw [List.append_assoc] at hI'
      exact ⟨fs ++ gs, .inr ⟨x, c', _, fs, gs, hfs, hgs, rfl, rfl⟩, hI'⟩
  | map f body ih =>
    have hbody := ih hp hdepth hs
    rw [Pattern.run]
    generalize body.run (Rule.run failed n) c s = m at hbody ⊢
    obtain ⟨fs, hfs, hI⟩ := hbody
    rcases m with ⟨_ | ⟨x, c'⟩, s'⟩
    · exact ⟨fs, ⟨none, hfs, rfl⟩, hI⟩
    · exact ⟨fs, ⟨some (x, c'), hfs, rfl⟩, hI⟩

/-- **Matching follows the run**: with enough depth, what a rule matches is the outcome of its run.
A property of the state and the failures that is kept when a rule fails is kept by the whole
run. -/
theorem Rule.run_traced
    (hfailed : ∀ r offset before after fs, I after fs →
      I (failed r offset before after) (fs ++ [⟨r, offset⟩])) :
    ∀ (n : Nat) (r : Rule) (c : Cursor) (s : σ) (before : List RuleFailure),
      heightBound c.left r.level < n → I s before →
        Follows I (Rule.RunsIn n r c) before (Rule.run failed n r c s)
  | 0, _, _, _, _, hdepth, _ => absurd hdepth (Nat.not_lt_zero _)
  | n + 1, r, c, s, before, hdepth, hs => by
    have hpattern := Pattern.run_traced (Rule.run_traced hfailed n) r.pattern r.pattern_paced
      (Nat.le_of_lt_succ hdepth) hs
    rw [Rule.run]
    generalize r.pattern.run (Rule.run failed n) c s = m at hpattern ⊢
    obtain ⟨fs, hfs, hI⟩ := hpattern
    rcases m with ⟨_ | v, after⟩
    · -- the rule itself fails after all that its pattern tried
      refine ⟨fs ++ [⟨r, c.offset⟩], ⟨fs, hfs, rfl⟩, ?_⟩
      rw [← List.append_assoc]
      exact hfailed r c.offset s after _ hI
    · exact ⟨fs, hfs, hI⟩

end Traced

end Kelp.Grammar
