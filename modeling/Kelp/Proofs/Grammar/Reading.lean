import Kelp.Proofs.Grammar.Height
import Kelp.Proofs.Grammar.Recognition
import Kelp.Proofs.Grammar.Scanning

/-!
# Reading is deriving

Matching a pattern from left to right gives what the pattern derives. The first alternative that
matches is the only one that leads on, and a repetition that takes all the rounds it can takes none
that belongs to what follows.

- `Spans c ts c'` says that the tokens `ts` stand between two cursors, each after layout.
- `Pattern.read_sound`: what is read was derived.
- `Spans.meets`: tokens that are read at a place are found in front of the tokens that stand there.
  So a pattern is not read where its openings are avoided (`Pattern.read_eq_none`).
- `Pattern.read_complete`: what is derived is read, if nothing follows that must not.
- `matchProgram_iff_derives` puts these together for whole texts.
-/

namespace Kelp.Grammar

/-! ## Tokens between two cursors -/

/-- The tokens stand between two cursors, each after layout. Layout after the last one does not
count. -/
inductive Spans : Cursor → List Token → Cursor → Prop where
  | here {c c' : Cursor} : c.skip = c'.skip → Spans c [] c'
  | token {c c' : Cursor} {t : Token} {ts : List Token} :
      t.offset = c.skip.offset → t.lexeme.matched c.skip.rest = some t.chars →
      Spans (c.skip.advance t.chars.length) ts c' → Spans c (t :: ts) c'

/-- The cursor is at the end of the text, up to layout. -/
def Cursor.AtEnd (c : Cursor) : Prop := c.skip.rest = []

theorem Token.lexeme_ne_endOfText (t : Token) : t.lexeme ≠ .endOfText :=
  t.terminal.lexeme_ne_endOfText

namespace Spans

variable {c c' c'' cEnd : Cursor} {ts us : List Token}

/-- Layout in front does not count. -/
theorem of_skip_eq (h : c.skip = c'.skip) (hs : Spans c' ts c'') : Spans c ts c'' := by
  cases hs with
  | here h' => exact .here (h.trans h')
  | token hoffset hmatched hrest =>
    rw [← h] at hoffset hmatched hrest
    exact .token hoffset hmatched hrest

theorem skip (h : Spans c ts c') : Spans c.skip ts c' :=
  of_skip_eq c.skip_skip h

/-- Tokens up to a place, and then tokens from there on. -/
theorem append (h : Spans c ts c') (h' : Spans c' us c'') : Spans c (ts ++ us) c'' := by
  induction h with
  | here h => exact of_skip_eq h h'
  | token hoffset hmatched _ ih => exact .token hoffset hmatched (ih h')

/-- Each token takes a character. -/
theorem length_le (h : Spans c ts c') :
    ts.length + c'.skip.rest.length ≤ c.skip.rest.length := by
  induction h with
  | here h =>
    exact Nat.le_of_eq (by rw [h, List.length_nil, Nat.zero_add])
  | @token c c' t ts _ hmatched _ ih =>
    have hchars := List.length_pos_of_ne_nil (Lexeme.matched_ne_nil t.lexeme_ne_endOfText hmatched)
    have hfront := (Lexeme.matched_isPrefix hmatched).length_le
    have hskip := (c.skip.advance t.chars.length).length_skip_le
    rw [Cursor.advance, List.length_drop] at hskip
    rw [Cursor.advance] at ih
    rw [List.length_cons]
    omega

/-- **Collision**: tokens that can be read at a place are found in front of the tokens that stand
there up to the end of the text. -/
theorem meets (hus : Spans c us c') (hts : Spans c ts cEnd) (hEnd : cEnd.AtEnd) :
    Meets (lexemes us) (lexemes ts) = true := by
  induction hus generalizing ts with
  | here _ => rfl
  | @token c c' u us _ hu _ ih =>
    cases hts with
    | here h =>
      -- there is no token at the end of the text
      rw [h, hEnd] at hu
      obtain ⟨d, rest, hd, -⟩ := Lexeme.exists_startsToken u.lexeme_ne_endOfText hu
      cases hd
    | @token _ _ t ts _ ht hrest =>
      show Meets (u.lexeme :: lexemes us) (t.lexeme :: lexemes ts) = true
      rw [Meets]
      split
      · rename_i heq
        -- the same lexeme takes the same characters
        rw [heq, ht] at hu
        rw [Option.some.inj hu] at hrest
        exact ih hrest
      · rename_i hne
        exact Lexeme.overlaps_of_matched u.lexeme_ne_endOfText t.lexeme_ne_endOfText hne hu ht

end Spans

/-! ## What is read was derived -/

section Soundness

variable {call : (r : Rule) → Reader r.Value} {D : (r : Rule) → List Token → r.Value → Prop}

/-- What `item` reads, `R` derives from the tokens that stand there. -/
def Sound {α : Type} (item : Reader α) (R : List Token → α → Prop) : Prop :=
  ∀ c v c', item c = some (v, c') → ∃ ts, R ts v ∧ Spans c ts c'

/-- What a lexeme takes is a token of its kind. The end of the text takes none. -/
theorem Lexeme.scan_sound (l : Lexeme) : Sound l.scan l.Yields := by
  intro c v c' h
  obtain ⟨cs, hcs, heq⟩ := Option.map_eq_some_iff.1 h
  cases heq
  by_cases hl : l = .endOfText
  · subst hl
    obtain ⟨-, rfl⟩ := Lexeme.endOfText_matched_iff.1 hcs
    exact ⟨[], rfl, .here rfl⟩
  · obtain ⟨t, rfl, rfl⟩ := Lexeme.exists_terminal hl hcs
    have hskip := Cursor.skip_eq_self hl hcs
    refine ⟨[⟨c.offset, t⟩], ?_, .token ?_ ?_ (.here ?_)⟩
    · rw [Lexeme.Yields, if_neg hl]
      exact ⟨_, rfl, rfl, rfl⟩
    · rw [hskip]
    · rw [hskip]
      exact hcs
    · rw [hskip]
      rfl

/-- The rounds that are read are derived, one after the other. -/
theorem readRounds_sound {α : Type} {item : Reader α} {R : List Token → α → Prop}
    (h : Sound item R) : ∀ (fuel : Nat) (c : Cursor),
      ∃ tss, List.Forall₂ R tss (readRounds item fuel c).1 ∧
        Spans c tss.flatten (readRounds item fuel c).2
  | 0, c => ⟨[], .nil, .here rfl⟩
  | fuel + 1, c => by
    rw [readRounds]
    cases hitem : item c.skip with
    | none => exact ⟨[], .nil, .here rfl⟩
    | some m =>
      obtain ⟨x, c'⟩ := m
      obtain ⟨ts, hts, hspans⟩ := h _ _ _ hitem
      obtain ⟨tss, htss, hrest⟩ := readRounds_sound h fuel c'
      exact ⟨ts :: tss, .cons hts htss,
        Spans.append (.of_skip_eq c.skip_skip.symm hspans) hrest⟩

/-- **Soundness**: what a pattern reads, it derives from the tokens that stand there. -/
theorem Pattern.read_sound (hcall : ∀ r, Sound (call r) (D r)) {α : Type} (p : Pattern α) :
    Sound (p.read call) (p.DerivesBy D) := by
  induction p with
  | empty =>
    intro c v c' h
    cases h
    exact ⟨[], rfl, .here rfl⟩
  | lexeme l => exact l.scan_sound
  | rule r => exact hcall r
  | seq first second ih₁ ih₂ =>
    intro c v c' h
    obtain ⟨⟨x, c₁⟩, h₁, h⟩ := Option.bind_eq_some_iff.1 h
    obtain ⟨⟨y, c₂⟩, h₂, heq⟩ := Option.map_eq_some_iff.1 h
    cases heq
    obtain ⟨us, hus, hspans₁⟩ := ih₁ _ _ _ h₁
    obtain ⟨ws, hws, hspans₂⟩ := ih₂ _ _ _ h₂
    exact ⟨us ++ ws, ⟨us, ws, rfl, hus, hws⟩,
      hspans₁.append (.of_skip_eq c₁.skip_skip.symm hspans₂)⟩
  | alt first second ih₁ ih₂ =>
    intro c v c' h
    rcases Option.or_eq_some_iff.1 h with h | ⟨-, h⟩
    · obtain ⟨ts, hts, hspans⟩ := ih₁ _ _ _ h
      exact ⟨ts, Or.inl hts, hspans⟩
    · obtain ⟨ts, hts, hspans⟩ := ih₂ _ _ _ h
      exact ⟨ts, Or.inr hts, hspans⟩
  | opt body ih =>
    intro c v c' h
    rw [Pattern.read] at h
    cases hbody : body.read call c with
    | none =>
      rw [hbody] at h
      cases h
      exact ⟨[], Or.inl ⟨rfl, rfl⟩, .here rfl⟩
    | some m =>
      rw [hbody] at h
      cases h
      obtain ⟨ts, hts, hspans⟩ := ih _ _ _ hbody
      exact ⟨ts, Or.inr ⟨_, rfl, hts⟩, hspans⟩
  | many body ih =>
    intro c v c' h
    rw [Pattern.read] at h
    cases hbody : body.read call c with
    | none =>
      rw [hbody] at h
      cases h
      exact ⟨[], ⟨[], rfl, .nil⟩, .here rfl⟩
    | some m =>
      rw [hbody] at h
      obtain ⟨ts, hts, hspans⟩ := ih _ _ _ hbody
      obtain ⟨tss, htss, hrest⟩ := readRounds_sound ih (m.2.rest.length + 1) m.2
      cases h
      exact ⟨ts ++ tss.flatten, ⟨ts :: tss, rfl, .cons hts htss⟩, hspans.append hrest⟩
  | map f body ih =>
    intro c v c' h
    obtain ⟨⟨x, c₁⟩, hx, heq⟩ := Option.map_eq_some_iff.1 h
    cases heq
    obtain ⟨ts, hts, hspans⟩ := ih _ _ _ hx
    exact ⟨ts, ⟨x, hts, rfl⟩, hspans⟩

/-- By induction on the depth: what a rule reads, its pattern derives. -/
theorem Rule.read_sound : ∀ (n : Nat) (r : Rule), Sound (Rule.read n r) (Rule.DerivesIn n r)
  | 0, _ => fun _ _ _ h => nomatch h
  | n + 1, r => Pattern.read_sound (Rule.read_sound n) r.pattern

end Soundness

/-! ## What is derived is read -/

section Completeness

/-- Where `R` derives a value from the tokens in front, and nothing follows that must not, `item`
reads that value and leaves what follows. -/
def Complete {α : Type} (item : Reader α) (R : List Token → α → Prop)
    (extensions : List (List Lexeme)) : Prop :=
  ∀ ts v rest c cEnd, R ts v → Avoids extensions (lexemes rest) → c.skip = c →
    Spans c (ts ++ rest) cEnd → cEnd.AtEnd → ∃ c', item c = some (v, c') ∧ Spans c' rest cEnd

theorem Mark.mem_all (m : Mark) : m ∈ Mark.all := by
  cases m <;> decide

theorem Keyword.mem_all (k : Keyword) : k ∈ Keyword.all := by
  cases k <;> decide

/-- No token follows the end of the text. -/
theorem eq_nil_of_avoids_endOfText {ts : List Token}
    (h : Avoids Lexeme.endOfText.extensions (lexemes ts)) : ts = [] := by
  cases ts with
  | nil => rfl
  | cons t ts =>
    have hmem : [t.lexeme] ∈ Lexeme.endOfText.extensions := by
      refine List.mem_map.2 ⟨t.lexeme, ?_, rfl⟩
      rw [Token.lexeme]
      cases t.terminal with
      | mark m =>
        exact List.mem_cons_of_mem _ (List.mem_append_left _ (List.mem_map_of_mem m.mem_all))
      | keyword k =>
        exact List.mem_cons_of_mem _ (List.mem_append_right _ (List.mem_cons_of_mem _
          (List.mem_cons_of_mem _ (List.mem_map_of_mem k.mem_all))))
      | ident name =>
        exact List.mem_cons_of_mem _ (List.mem_append_right _ List.mem_cons_self)
      | number text => exact List.mem_cons_self
      | hostPath path =>
        exact List.mem_cons_of_mem _ (List.mem_append_right _ (List.mem_cons_of_mem _
          List.mem_cons_self))
    have hmeets : Meets [t.lexeme] (lexemes (t :: ts)) = false := h _ hmem
    rw [lexemes, List.map_cons, Meets, if_pos rfl] at hmeets
    cases hmeets

/-- A token is read by its lexeme, where none of the extensions of the lexeme follows. -/
theorem Lexeme.scan_complete (l : Lexeme) : Complete l.scan l.Yields l.extensions := by
  intro ts v rest c cEnd hts hrest hc hspans hEnd
  by_cases hl : l = .endOfText
  · subst hl
    rw [Lexeme.Yields, if_pos rfl] at hts
    subst hts
    have hrest := eq_nil_of_avoids_endOfText hrest
    subst hrest
    cases hspans with
    | here h =>
      rw [hc] at h
      have hempty : c.rest = [] := by
        rw [h]
        exact hEnd
      refine ⟨c, ?_, .here (hc.trans h)⟩
      rw [Lexeme.scan, hempty]
      show some ((), c.advance 0) = some ((), c)
      rw [Cursor.advance, Nat.add_zero, List.drop_zero]
  · rw [Lexeme.Yields, if_neg hl] at hts
    obtain ⟨t, rfl, rfl, rfl⟩ := hts
    cases hspans with
    | token hoffset hmatched hafter =>
      rw [hc] at hoffset hmatched hafter
      refine ⟨_, ?_, hafter⟩
      rw [Lexeme.scan, hmatched, hoffset]
      rfl

variable {call : (r : Rule) → Reader r.Value} {D : (r : Rule) → List Token → r.Value → Prop}

section Pattern

variable (hsound : ∀ r, Sound (call r) (D r))
  (hopenings : ∀ r ts v, D r ts v → (lexemes ts).take 2 ∈ r.openings)

include hsound hopenings

/-- A pattern is not read where its openings are avoided. -/
theorem Pattern.read_eq_none {α : Type} {p : Pattern α} {c cEnd : Cursor} {ts : List Token}
    (h : Avoids (p.openings Rule.openings) (lexemes ts)) (hspans : Spans c ts cEnd)
    (hEnd : cEnd.AtEnd) : p.read call c = none := by
  by_contra hne
  obtain ⟨⟨v, c'⟩, hread⟩ := Option.ne_none_iff_exists'.1 hne
  obtain ⟨us, hus, hspans'⟩ := Pattern.read_sound hsound p c v c' hread
  have hmeets := Meets.take 2 (hspans'.meets hspans hEnd)
  rw [h _ (Pattern.mem_openings hopenings hus)] at hmeets
  cases hmeets

/-- The rounds of a repetition are read one after the other, and then no further one is. -/
theorem Pattern.readRounds_complete {α : Type} {body : Pattern α}
    (hbody : Complete (body.read call) (body.DerivesBy D) (body.extensions Rule.extensions))
    {tss : List (List Token)} {vs : List α} (hrounds : List.Forall₂ (body.DerivesBy D) tss vs)
    {rest : List Token}
    (hrest : Avoids ((Pattern.many body).extensions Rule.extensions) (lexemes rest))
    {fuel : Nat} {c cEnd : Cursor} (hfuel : c.skip.rest.length < fuel)
    (hspans : Spans c (tss.flatten ++ rest) cEnd) (hEnd : cEnd.AtEnd) :
    ∃ c', readRounds (body.read call) fuel c = (vs, c') ∧ Spans c' rest cEnd := by
  induction hrounds generalizing fuel c with
  | nil =>
    cases fuel with
    | zero => exact absurd hfuel (Nat.not_lt_zero _)
    | succ fuel =>
      refine ⟨c, ?_, hspans⟩
      rw [readRounds, Pattern.read_eq_none hsound hopenings hrest.many_openings hspans.skip hEnd]
  | @cons ts v tss vs hround hrounds ih =>
    cases fuel with
    | zero => exact absurd hfuel (Nat.not_lt_zero _)
    | succ fuel =>
      have hmany : (Pattern.many body).DerivesBy D tss.flatten vs := ⟨_, rfl, hrounds⟩
      have hafter := hrest.many_body (Pattern.mem_openings hopenings hmany)
      rw [← lexemes_append] at hafter
      rw [List.flatten_cons, List.append_assoc] at hspans
      obtain ⟨c₁, hread, hspans₁⟩ := hbody _ _ _ _ _ hround hafter c.skip_skip hspans.skip hEnd
      -- the round took a token, since its openings are avoided after the last one
      obtain ⟨us, hus, hspans'⟩ := Pattern.read_sound hsound body _ _ _ hread
      have hne : us ≠ [] := by
        rintro rfl
        have h := hrest.many_openings _ (Pattern.mem_openings hopenings hus)
        rw [show (lexemes []).take 2 = [] from rfl, Meets] at h
        cases h
      have hlength := hspans'.length_le
      rw [c.skip_skip] at hlength
      have hpos := List.length_pos_of_ne_nil hne
      have hfuel₁ : c₁.skip.rest.length < fuel := by omega
      obtain ⟨c', hrounds', hspans''⟩ := ih hfuel₁ hspans₁
      refine ⟨c', ?_, hspans''⟩
      rw [readRounds, hread]
      show (v :: _, _) = _
      rw [hrounds']

/-- **Completeness**: a pattern reads what it derives from the tokens in front, if nothing follows
that must not. -/
theorem Pattern.read_complete (hcall : ∀ r, Complete (call r) (D r) r.extensions)
    {α : Type} (p : Pattern α) :
    Complete (p.read call) (p.DerivesBy D) (p.extensions Rule.extensions) := by
  induction p with
  | empty =>
    intro ts v rest c cEnd hts _ _ hspans _
    rw [Pattern.DerivesBy] at hts
    subst hts
    exact ⟨c, rfl, hspans⟩
  | lexeme l => exact l.scan_complete
  | rule r => exact hcall r
  | seq first second ih₁ ih₂ =>
    rintro _ ⟨x, y⟩ rest c cEnd ⟨us, ws, rfl, hus, hws⟩ hrest hc hspans hEnd
    have hafter := hrest.seq_left (Pattern.mem_openings hopenings hws)
    rw [← lexemes_append] at hafter
    rw [List.append_assoc] at hspans
    obtain ⟨c₁, hread₁, hspans₁⟩ := ih₁ _ _ _ _ _ hus hafter hc hspans hEnd
    obtain ⟨c₂, hread₂, hspans₂⟩ :=
      ih₂ _ _ _ _ _ hws hrest.seq_right c₁.skip_skip hspans₁.skip hEnd
    refine ⟨c₂, ?_, hspans₂⟩
    rw [Pattern.read, hread₁]
    show (second.read call c₁.skip).map _ = _
    rw [hread₂]
    rfl
  | alt first second ih₁ ih₂ =>
    intro ts v rest c cEnd hts hrest hc hspans hEnd
    rcases hts with hts | hts
    · obtain ⟨c', hread, hspans'⟩ := ih₁ _ _ _ _ _ hts hrest.alt_left hc hspans hEnd
      refine ⟨c', ?_, hspans'⟩
      rw [Pattern.read, hread, Option.some_or]
    · obtain ⟨c', hread, hspans'⟩ := ih₂ _ _ _ _ _ hts hrest.alt_right hc hspans hEnd
      refine ⟨c', ?_, hspans'⟩
      -- the first alternative must not be read by accident
      have hfirst := hrest.alt_openings (Pattern.mem_openings hopenings hts)
      rw [← lexemes_append] at hfirst
      rw [Pattern.read, Pattern.read_eq_none hsound hopenings hfirst hspans hEnd, Option.none_or,
        hread]
  | opt body ih =>
    intro ts v rest c cEnd hts hrest hc hspans hEnd
    rcases hts with ⟨rfl, rfl⟩ | ⟨x, rfl, hx⟩
    · refine ⟨c, ?_, hspans⟩
      -- what follows does not look like the option that was left out
      rw [Pattern.read, Pattern.read_eq_none hsound hopenings hrest.opt_openings hspans hEnd]
    · obtain ⟨c', hread, hspans'⟩ := ih _ _ _ _ _ hx hrest.opt_body hc hspans hEnd
      refine ⟨c', ?_, hspans'⟩
      rw [Pattern.read, hread]
  | many body ih =>
    rintro _ v rest c cEnd ⟨tss, rfl, hrounds⟩ hrest hc hspans hEnd
    cases hrounds with
    | nil =>
      refine ⟨c, ?_, hspans⟩
      rw [Pattern.read, Pattern.read_eq_none hsound hopenings hrest.many_openings hspans hEnd]
    | @cons ts v tss vs hround hrounds =>
      have hmany : (Pattern.many body).DerivesBy D tss.flatten vs := ⟨_, rfl, hrounds⟩
      have hafter := hrest.many_body (Pattern.mem_openings hopenings hmany)
      rw [← lexemes_append] at hafter
      rw [List.flatten_cons, List.append_assoc] at hspans
      obtain ⟨c₁, hread, hspans₁⟩ := ih _ _ _ _ _ hround hafter hc hspans hEnd
      obtain ⟨c', hrounds', hspans'⟩ := Pattern.readRounds_complete hsound hopenings ih hrounds
        hrest (Nat.lt_succ_of_le c₁.length_skip_le) hspans₁ hEnd
      refine ⟨c', ?_, hspans'⟩
      rw [Pattern.read, hread]
      simp only [hrounds']
  | map f body ih =>
    rintro ts _ rest c cEnd ⟨x, hx, rfl⟩ hrest hc hspans hEnd
    obtain ⟨c', hread, hspans'⟩ := ih _ _ _ _ _ hx hrest hc hspans hEnd
    refine ⟨c', ?_, hspans'⟩
    rw [Pattern.read, hread]
    rfl

end Pattern

/-- More may be forbidden to follow. -/
theorem Complete.mono {α : Type} {item : Reader α} {R : List Token → α → Prop}
    {words words' : List (List Lexeme)} (h : Complete item R words)
    (hsub : ∀ w ∈ words, w ∈ words') : Complete item R words' :=
  fun ts v rest c cEnd hts hrest => h ts v rest c cEnd hts (hrest.mono hsub)

/-- By induction on the height: what the pattern of a rule derives is read. -/
theorem Rule.read_complete : ∀ (n : Nat) (r : Rule),
    Complete (Rule.read n r) (Rule.DerivesIn n r) r.extensions
  | 0, _ => fun _ _ _ _ _ h => h.elim
  | n + 1, r =>
    (Pattern.read_complete (Rule.read_sound n) (fun _ _ _ => Rule.DerivesIn.mem_openings)
      (Rule.read_complete n) r.pattern).mono r.extensions_closed

end Completeness

/-! ## Whole texts -/

/-- A program may be read before or after the layout in front of it. -/
theorem Rule.read_program_skip (c : Cursor) :
    ∀ n : Nat, Rule.read n .program c.skip = Rule.read n .program c
  | 0 => rfl
  | n + 1 => by
    show (((Pattern.left (.many declaration) (.rule .endOfText)).read (Rule.read n)
      c.skip.skip).map _).map _ = (((Pattern.left (.many declaration) (.rule .endOfText)).read
        (Rule.read n) c.skip).map _).map _
    rw [c.skip_skip]

theorem Pattern.read_right_eq_some {call : (r : Rule) → Reader r.Value} {α β : Type}
    {first : Pattern α} {second : Pattern β} {c c' : Cursor} {y : β}
    (h : (Pattern.right first second).read call c = some (y, c')) :
    ∃ x c₁, first.read call c = some (x, c₁) ∧ second.read call c₁.skip = some (y, c') := by
  obtain ⟨m, hm, heq⟩ := Option.map_eq_some_iff.1 h
  obtain ⟨⟨x, c₁⟩, h₁, hm⟩ := Option.bind_eq_some_iff.1 hm
  obtain ⟨⟨y', c₂⟩, h₂, rfl⟩ := Option.map_eq_some_iff.1 hm
  cases heq
  exact ⟨x, c₁, h₁, h₂⟩

theorem Pattern.read_left_eq_some {call : (r : Rule) → Reader r.Value} {α β : Type}
    {first : Pattern α} {second : Pattern β} {c c' : Cursor} {x : α}
    (h : (Pattern.left first second).read call c = some (x, c')) :
    ∃ y c₁, first.read call c = some (x, c₁) ∧ second.read call c₁.skip = some (y, c') := by
  obtain ⟨m, hm, heq⟩ := Option.map_eq_some_iff.1 h
  obtain ⟨⟨x', c₁⟩, h₁, hm⟩ := Option.bind_eq_some_iff.1 hm
  obtain ⟨⟨y, c₂⟩, h₂, rfl⟩ := Option.map_eq_some_iff.1 hm
  cases heq
  exact ⟨y, c₁, h₁, h₂⟩

/-- Nothing is left where the end of the text was read. -/
theorem Rule.rest_of_read_endOfText {n : Nat} {c c' : Cursor}
    (h : Rule.read n .endOfText c = some ((), c')) : c'.rest = [] := by
  cases n with
  | zero => cases h
  | succ n =>
    obtain ⟨cs, hcs, heq⟩ := Option.map_eq_some_iff.1 (show Lexeme.endOfText.scan c = _ from h)
    obtain ⟨hrest, rfl⟩ := Lexeme.endOfText_matched_iff.1 hcs
    cases heq
    exact hrest

/-- A program is read up to the end of the text. -/
theorem Rule.atEnd_of_read_program {n : Nat} {c c' : Cursor} {program : Program Literal}
    (h : Rule.read n .program c = some (program, c')) : c'.AtEnd := by
  cases n with
  | zero => cases h
  | succ n =>
    obtain ⟨_, c₁, _, hmain⟩ := Pattern.read_right_eq_some h
    obtain ⟨_, c₂, _, hend⟩ := Pattern.read_left_eq_some hmain
    rw [Cursor.AtEnd, Cursor.skip, Rule.rest_of_read_endOfText hend]
    rfl

/-- **Reading a text**: the grammar accepts a text exactly when tokens stand in it, up to its end,
that the context-free reading of the grammar derives. -/
theorem matchProgram_iff_derives {text : List Char} {program : Program Literal} :
    matchProgram text = .ok program ↔
      ∃ ts cEnd, Spans (.start text) ts cEnd ∧ cEnd.AtEnd ∧ Rule.Derives .program ts program := by
  rw [matchProgram_eq_ok_iff]
  constructor
  · rintro ⟨c, hread⟩
    obtain ⟨ts, hts, hspans⟩ := Rule.read_sound _ _ _ _ _ hread
    exact ⟨ts, c, hspans, Rule.atEnd_of_read_program hread, _, hts⟩
  · rintro ⟨ts, cEnd, hspans, hEnd, hts⟩
    -- each token takes a character, so the depth that is computed from the text is enough
    have hlength : ts.length ≤ text.length := by
      have hskip := (Cursor.start text).length_skip_le
      have := hspans.length_le
      rw [show (Cursor.start text).rest = text from rfl] at hskip
      omega
    rw [← Rule.read_program_skip]
    have hall : Spans (Cursor.start text).skip (ts ++ []) cEnd := by
      rw [List.append_nil]
      exact hspans.skip
    obtain ⟨c', hread, -⟩ := Rule.read_complete (depthBound text) .program ts program [] _ cEnd
      (hts.bounded hlength) (Avoids.nil (Rule.nil_notMem_extensions _))
      (Cursor.start text).skip_skip hall hEnd
    exact ⟨c', hread⟩

end Kelp.Grammar
