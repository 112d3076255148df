import Kelp.Proofs.Grammar.Lookahead

/-!
# Scanning

What lexemes and layout take from the front of a text.

- `Lexeme.matched_isPrefix` and its companions: a lexeme takes a beginning of the text, at least one
  character, and none where layout stands.
- `Lexeme.overlaps_of_matched`: two lexemes match at the same place only if they overlap.
- `Cursor.skip_skip` and its companions: skipping layout once is enough.
-/

namespace Kelp.Grammar

/-! ## Characters

The classes of characters are told apart by the codes of their members. -/

theorem isWordChar_of_isWordStart {c : Char} (h : isWordStart c = true) : isWordChar c = true := by
  simp only [isWordStart, isWordChar, Char.isAlphanum, Bool.or_eq_true] at h ⊢
  rcases h with h | h
  · exact Or.inl (Or.inl h)
  · exact Or.inr h

theorem isWordChar_of_isDigit {c : Char} (h : c.isDigit = true) : isWordChar c = true := by
  simp only [isWordChar, Char.isAlphanum, Bool.or_eq_true]
  exact Or.inl (Or.inr h)

/-- No word starts with a digit. -/
theorem isDigit_eq_false_of_isWordStart {c : Char} (h : isWordStart c = true) :
    c.isDigit = false := by
  by_contra hd
  rw [Bool.not_eq_false] at hd
  change (decide (c.val ≥ 65 ∧ c.val ≤ 90) || (c.val ≥ 97 && c.val ≤ 122) || c == '_') = true at h
  simp only [Char.isDigit, Bool.or_eq_true, Bool.and_eq_true, decide_eq_true_eq, beq_iff_eq,
    ge_iff_le, UInt32.le_iff_toNat_le] at h hd
  change ((65 ≤ c.val.toNat ∧ c.val.toNat ≤ 90) ∨ (97 ≤ c.val.toNat ∧ c.val.toNat ≤ 122)) ∨ _ at h
  change 48 ≤ c.val.toNat ∧ c.val.toNat ≤ 57 at hd
  rcases h with (h | h) | rfl
  · omega
  · omega
  · exact absurd hd (by decide)

/-- A character class that is a range of codes. -/
theorem toNat_range {c : Char} {low high : UInt32}
    (h : (decide (low ≤ c.val) && decide (c.val ≤ high)) = true) :
    low.toNat ≤ c.toNat ∧ c.toNat ≤ high.toNat := by
  rw [Bool.and_eq_true, decide_eq_true_eq, decide_eq_true_eq] at h
  exact h

theorem toNat_range_of_isWordChar {c : Char} (h : isWordChar c = true) :
    48 ≤ c.toNat ∧ c.toNat ≤ 122 := by
  rw [isWordChar, Char.isAlphanum, Bool.or_eq_true, Bool.or_eq_true, beq_iff_eq] at h
  rcases h with (hletter | hdigit) | rfl
  · rcases Bool.or_eq_true_iff.1 hletter with hupper | hlower
    · obtain ⟨hl, hu⟩ : 65 ≤ c.toNat ∧ c.toNat ≤ 90 := of_decide_eq_true hupper
      omega
    · obtain ⟨hl, hu⟩ : 97 ≤ c.toNat ∧ c.toNat ≤ 122 := toNat_range hlower
      omega
  · obtain ⟨hl, hu⟩ : 48 ≤ c.toNat ∧ c.toNat ≤ 57 := toNat_range hdigit
    omega
  · decide

/-- A character that can start a token: neither a blank nor a slash. -/
def StartsToken (c : Char) : Prop := isBlank c = false ∧ c ≠ '/'

/-- The characters of words are no layout. -/
theorem startsToken_of_isWordChar {c : Char} (h : isWordChar c = true) : StartsToken c := by
  constructor
  · by_contra hb
    rw [Bool.not_eq_false] at hb
    simp only [isBlank, Bool.or_eq_true, beq_iff_eq] at hb
    rcases hb with ((rfl | rfl) | rfl) | rfl <;> exact absurd h (by decide)
  · rintro rfl
    exact absurd h (by decide)

/-! ## Matches -/

/-- An identifier is a whole word that starts with a letter and is no keyword. -/
theorem matchIdent_eq_some_iff {s cs : List Char} :
    matchIdent s = some cs ↔
      cs = leadingWord s ∧ cs.head?.any isWordStart = true ∧ isKeyword cs = false := by
  show (if _ then _ else _) = _ ↔ _
  rw [Option.ite_none_right_eq_some, Bool.and_eq_true, Bool.not_eq_true']
  constructor
  · rintro ⟨⟨hhead, hkey⟩, h⟩
    cases h
    exact ⟨rfl, hhead, hkey⟩
  · rintro ⟨rfl, hhead, hkey⟩
    exact ⟨⟨hhead, hkey⟩, rfl⟩

/-- What a word starts with. -/
theorem exists_head_of_matchIdent {s cs : List Char} (h : matchIdent s = some cs) :
    ∃ c rest, s = c :: rest ∧ isWordStart c = true := by
  obtain ⟨rfl, hhead, -⟩ := matchIdent_eq_some_iff.1 h
  cases s with
  | nil => simp [leadingWord] at hhead
  | cons c rest =>
    refine ⟨c, rest, rfl, ?_⟩
    unfold leadingWord at hhead
    rw [List.takeWhile_cons] at hhead
    split at hhead
    · simpa using hhead
    · simp at hhead

/-- A host path takes a beginning of the text. -/
theorem hostPathTail_isPrefix : ∀ s : List Char, hostPathTail s <+: s
  | [] => List.nil_prefix
  | c :: rest => by
    rw [hostPathTail]
    split
    · exact (List.prefix_cons_inj c).2 (hostPathTail_isPrefix rest)
    · exact List.nil_prefix

/-- A signed literal is a minus sign with the digits that follow it. -/
theorem leading_minus_eq_some_iff {rest cs : List Char} :
    Decimal.leading ('-' :: rest) = some cs ↔
      rest.takeWhile Char.isDigit ≠ [] ∧ cs = '-' :: rest.takeWhile Char.isDigit := by
  show (if (rest.takeWhile Char.isDigit).isEmpty then none
    else some ('-' :: rest.takeWhile Char.isDigit)) = _ ↔ _
  rw [Option.ite_none_left_eq_some, List.isEmpty_iff, Option.some_inj, eq_comm (a := cs)]

/-- A literal without a sign is the digits in front. -/
theorem leading_eq_some_iff {s cs : List Char} (h : s.head? ≠ some '-') :
    Decimal.leading s = some cs ↔
      s.takeWhile Char.isDigit ≠ [] ∧ cs = s.takeWhile Char.isDigit := by
  unfold Decimal.leading
  split
  rename_i sign rest hs
  split at hs
  · exact absurd rfl h
  · cases hs
    show (if (s.takeWhile Char.isDigit).isEmpty then none
      else some (s.takeWhile Char.isDigit)) = _ ↔ _
    rw [Option.ite_none_left_eq_some, List.isEmpty_iff, Option.some_inj, eq_comm (a := cs)]

/-- What a literal starts with: a digit, or a minus sign before a digit. -/
theorem exists_head_of_leading {s cs : List Char} (h : Decimal.leading s = some cs) :
    ∃ c rest, s = c :: rest ∧
      (c.isDigit = true ∨ c = '-' ∧ ∃ d rest', rest = d :: rest' ∧ d.isDigit = true) := by
  have hdigit : ∀ {r : List Char}, r.takeWhile Char.isDigit ≠ [] →
      ∃ d rest', r = d :: rest' ∧ d.isDigit = true := by
    intro r hr
    cases r with
    | nil => exact absurd rfl hr
    | cons d rest' =>
      refine ⟨d, rest', rfl, ?_⟩
      by_contra hd
      exact hr (List.takeWhile_cons_of_neg hd)
  by_cases hminus : s.head? = some '-'
  · obtain ⟨rest, rfl⟩ := List.head?_eq_some_iff.1 hminus
    exact ⟨'-', rest, rfl, Or.inr ⟨rfl, hdigit (leading_minus_eq_some_iff.1 h).1⟩⟩
  · obtain ⟨d, rest', rfl, hd⟩ := hdigit ((leading_eq_some_iff hminus).1 h).1
    exact ⟨d, rest', rfl, Or.inl hd⟩

theorem Mark.chars_ne_nil (m : Mark) : m.chars ≠ [] := by
  cases m <;> decide

/-- Different marks start with different characters. -/
theorem Mark.eq_of_head_eq {m m' : Mark} (h : m.chars.head? = m'.chars.head?) : m = m' := by
  revert h
  cases m <;> cases m' <;> decide

theorem Keyword.isKeyword_spelling (k : Keyword) : isKeyword k.spelling.toList = true := by
  cases k <;> decide

/-- Keywords are told apart by their spelling. -/
theorem Keyword.eq_of_spelling_eq {k k' : Keyword}
    (h : k.spelling.toList = k'.spelling.toList) : k = k' := by
  revert h
  cases k <;> cases k' <;> decide

/-- A keyword is a word that starts with a letter. -/
theorem Keyword.exists_spelling (k : Keyword) :
    ∃ c rest, k.spelling.toList = c :: rest ∧ isWordStart c = true := by
  cases k <;> exact ⟨_, _, rfl, by decide⟩

/-- Whether the lexeme is written as a word. -/
def Lexeme.isWord : Lexeme → Bool
  | .keyword _ => true
  | .ident => true
  | .hostPath => true
  | _ => false

theorem Lexeme.mark_matched_iff {m : Mark} {s cs : List Char} :
    (Lexeme.mark m).matched s = some cs ↔ m.chars <+: s ∧ cs = m.chars := by
  rw [Lexeme.matched, Option.ite_none_right_eq_some, List.isPrefixOf_iff_prefix, Option.some_inj,
    eq_comm (a := cs)]

theorem Lexeme.keyword_matched_iff {k : Keyword} {s cs : List Char} :
    (Lexeme.keyword k).matched s = some cs ↔
      leadingWord s = k.spelling.toList ∧ cs = k.spelling.toList := by
  rw [Lexeme.matched, Option.ite_none_right_eq_some, Option.some_inj, eq_comm (a := cs)]

theorem Lexeme.hostPath_matched_iff {s cs : List Char} :
    Lexeme.hostPath.matched s = some cs ↔
      (∃ word, matchIdent s = some word) ∧ cs = hostPathTail s := by
  rw [Lexeme.matched, matchHostPath, Option.ite_none_right_eq_some, Option.isSome_iff_exists,
    Option.some_inj, eq_comm (a := cs)]

theorem Lexeme.endOfText_matched_iff {s cs : List Char} :
    Lexeme.endOfText.matched s = some cs ↔ s = [] ∧ cs = [] := by
  rw [Lexeme.matched, Option.ite_none_right_eq_some, List.isEmpty_iff, Option.some_inj,
    eq_comm (a := cs)]

/-- Where a word is found, the text starts with a letter or an underscore. -/
theorem Lexeme.exists_wordStart {l : Lexeme} (hl : l.isWord = true) {s cs : List Char}
    (h : l.matched s = some cs) : ∃ c rest, s = c :: rest ∧ isWordStart c = true := by
  cases l with
  | keyword k =>
    obtain ⟨hword, -⟩ := Lexeme.keyword_matched_iff.1 h
    obtain ⟨c, rest, hspelling, hc⟩ := k.exists_spelling
    cases s with
    | nil =>
      rw [hspelling] at hword
      cases hword
    | cons d rest' =>
      unfold leadingWord at hword
      rw [hspelling, List.takeWhile_cons] at hword
      split at hword
      · cases hword
        exact ⟨c, rest', rfl, hc⟩
      · cases hword
  | ident => exact exists_head_of_matchIdent h
  | hostPath =>
    obtain ⟨⟨word, hword⟩, -⟩ := Lexeme.hostPath_matched_iff.1 h
    exact exists_head_of_matchIdent hword
  | mark m => cases hl
  | number => cases hl
  | endOfText => cases hl

/-- The characters that a mark starts with do not occur in words. -/
theorem Mark.exists_head (m : Mark) :
    ∃ c rest, m.chars = c :: rest ∧ isWordChar c = false ∧ StartsToken c := by
  cases m <;> exact ⟨_, _, rfl, by decide, by decide, by decide⟩

/-! ## Lexemes that match at the same place -/

/-- Marks and words start with different characters. -/
theorem Lexeme.not_mark_and_word {m : Mark} {l : Lexeme} (hl : l.isWord = true)
    {s a b : List Char} (hm : (Lexeme.mark m).matched s = some a) (h : l.matched s = some b) :
    False := by
  obtain ⟨c, rest, rfl, hc⟩ := l.exists_wordStart hl h
  obtain ⟨d, rest', hchars, hd, -⟩ := m.exists_head
  obtain ⟨t, ht⟩ := (Lexeme.mark_matched_iff.1 hm).1
  rw [hchars] at ht
  cases ht
  rw [isWordChar_of_isWordStart hc] at hd
  cases hd

/-- Marks and numbers are told apart by their first two characters. -/
theorem Lexeme.not_mark_and_number {m : Mark} {s a b : List Char}
    (hm : (Lexeme.mark m).matched s = some a) (h : Lexeme.number.matched s = some b) : False := by
  obtain ⟨t, ht⟩ := (Lexeme.mark_matched_iff.1 hm).1
  obtain ⟨c, rest, rfl, hc⟩ := exists_head_of_leading h
  obtain ⟨d, rest', hchars, hd, -⟩ := m.exists_head
  rcases hc with hc | ⟨rfl, e, rest'', rfl, he⟩
  · rw [hchars] at ht
    cases ht
    rw [isWordChar_of_isDigit hc] at hd
    cases hd
  · -- only the arrow starts with a minus sign, and it goes on with no digit
    have hm : m = .arrow := by
      rw [hchars, List.cons_append] at ht
      refine Mark.eq_of_head_eq ?_
      rw [hchars, List.head?_cons, (List.cons.inj ht).1]
      rfl
    subst hm
    cases ht
    exact absurd he (by decide)

/-- Numbers and words start with different characters. -/
theorem Lexeme.not_number_and_word {l : Lexeme} (hl : l.isWord = true) {s a b : List Char}
    (hn : Lexeme.number.matched s = some a) (h : l.matched s = some b) : False := by
  obtain ⟨c, rest, rfl, hc⟩ := l.exists_wordStart hl h
  obtain ⟨d, rest', hs, hd⟩ := exists_head_of_leading hn
  cases hs
  rcases hd with hd | ⟨rfl, -⟩
  · rw [isDigit_eq_false_of_isWordStart hc] at hd
    cases hd
  · exact absurd hc (by decide)

/-- No identifier is a keyword. -/
theorem Lexeme.not_keyword_and_ident {k : Keyword} {s a word : List Char}
    (hk : (Lexeme.keyword k).matched s = some a) (h : matchIdent s = some word) : False := by
  obtain ⟨rfl, -, hkey⟩ := matchIdent_eq_some_iff.1 h
  rw [(Lexeme.keyword_matched_iff.1 hk).1, k.isKeyword_spelling] at hkey
  cases hkey

/-- **Lexemes are told apart by what stands in front**: two different lexemes match at the same
place only if they overlap. -/
theorem Lexeme.overlaps_of_matched {l k : Lexeme} (hl : l ≠ .endOfText) (hk : k ≠ .endOfText)
    (hne : l ≠ k) {s a b : List Char} (ha : l.matched s = some a) (hb : k.matched s = some b) :
    l.overlaps k = true := by
  cases l with
  | endOfText => exact absurd rfl hl
  | mark m =>
    cases k with
    | endOfText => exact absurd rfl hk
    | mark m' =>
      obtain ⟨t, ht⟩ := (Lexeme.mark_matched_iff.1 ha).1
      obtain ⟨t', ht'⟩ := (Lexeme.mark_matched_iff.1 hb).1
      refine absurd (congrArg Lexeme.mark (Mark.eq_of_head_eq ?_)) hne
      obtain ⟨c, rest, hc, -⟩ := m.exists_head
      obtain ⟨c', rest', hc', -⟩ := m'.exists_head
      rw [hc, List.cons_append] at ht
      rw [hc', List.cons_append, ← ht] at ht'
      rw [hc, hc', List.head?_cons, List.head?_cons, (List.cons.inj ht').1]
    | number => exact (Lexeme.not_mark_and_number ha hb).elim
    | keyword _ => exact (Lexeme.not_mark_and_word rfl ha hb).elim
    | ident => exact (Lexeme.not_mark_and_word rfl ha hb).elim
    | hostPath => exact (Lexeme.not_mark_and_word rfl ha hb).elim
  | number =>
    cases k with
    | endOfText => exact absurd rfl hk
    | mark m => exact (Lexeme.not_mark_and_number hb ha).elim
    | number => exact absurd rfl hne
    | keyword _ => exact (Lexeme.not_number_and_word rfl ha hb).elim
    | ident => exact (Lexeme.not_number_and_word rfl ha hb).elim
    | hostPath => exact (Lexeme.not_number_and_word rfl ha hb).elim
  | keyword kw =>
    cases k with
    | endOfText => exact absurd rfl hk
    | mark m => exact (Lexeme.not_mark_and_word rfl hb ha).elim
    | number => exact (Lexeme.not_number_and_word rfl hb ha).elim
    | keyword kw' =>
      have h := (Lexeme.keyword_matched_iff.1 ha).1
      rw [(Lexeme.keyword_matched_iff.1 hb).1] at h
      exact absurd (congrArg Lexeme.keyword (Keyword.eq_of_spelling_eq h.symm)) hne
    | ident => exact (Lexeme.not_keyword_and_ident ha hb).elim
    | hostPath =>
      obtain ⟨⟨word, hword⟩, -⟩ := Lexeme.hostPath_matched_iff.1 hb
      exact (Lexeme.not_keyword_and_ident ha hword).elim
  | ident =>
    cases k with
    | endOfText => exact absurd rfl hk
    | mark m => exact (Lexeme.not_mark_and_word rfl hb ha).elim
    | number => exact (Lexeme.not_number_and_word rfl hb ha).elim
    | keyword kw => exact (Lexeme.not_keyword_and_ident hb ha).elim
    | ident => exact absurd rfl hne
    | hostPath => rfl
  | hostPath =>
    cases k with
    | endOfText => exact absurd rfl hk
    | mark m => exact (Lexeme.not_mark_and_word rfl hb ha).elim
    | number => exact (Lexeme.not_number_and_word rfl hb ha).elim
    | keyword kw =>
      obtain ⟨⟨word, hword⟩, -⟩ := Lexeme.hostPath_matched_iff.1 ha
      exact (Lexeme.not_keyword_and_ident hb hword).elim
    | ident => rfl
    | hostPath => exact absurd rfl hne

/-! ## Layout in front -/

/-- A lexeme other than the end of the text is found only where no layout stands. -/
theorem Lexeme.exists_startsToken {l : Lexeme} (hl : l ≠ .endOfText) {s cs : List Char}
    (h : l.matched s = some cs) : ∃ c rest, s = c :: rest ∧ StartsToken c := by
  cases l with
  | endOfText => exact absurd rfl hl
  | mark m =>
    obtain ⟨t, rfl⟩ := (Lexeme.mark_matched_iff.1 h).1
    obtain ⟨c, rest, hchars, -, hc⟩ := m.exists_head
    exact ⟨c, rest ++ t, by rw [hchars]; rfl, hc⟩
  | number =>
    obtain ⟨c, rest, rfl, hc⟩ := exists_head_of_leading h
    rcases hc with hc | ⟨rfl, -⟩
    · exact ⟨c, rest, rfl, startsToken_of_isWordChar (isWordChar_of_isDigit hc)⟩
    · exact ⟨'-', rest, rfl, by decide, by decide⟩
  | keyword k =>
    obtain ⟨c, rest, rfl, hc⟩ := Lexeme.exists_wordStart rfl h
    exact ⟨c, rest, rfl, startsToken_of_isWordChar (isWordChar_of_isWordStart hc)⟩
  | ident =>
    obtain ⟨c, rest, rfl, hc⟩ := Lexeme.exists_wordStart rfl h
    exact ⟨c, rest, rfl, startsToken_of_isWordChar (isWordChar_of_isWordStart hc)⟩
  | hostPath =>
    obtain ⟨c, rest, rfl, hc⟩ := Lexeme.exists_wordStart rfl h
    exact ⟨c, rest, rfl, startsToken_of_isWordChar (isWordChar_of_isWordStart hc)⟩

/-- A lexeme takes a beginning of the text. -/
theorem Lexeme.matched_isPrefix {l : Lexeme} {s cs : List Char} (h : l.matched s = some cs) :
    cs <+: s := by
  cases l with
  | mark m =>
    obtain ⟨hfront, rfl⟩ := Lexeme.mark_matched_iff.1 h
    exact hfront
  | keyword k =>
    obtain ⟨hword, rfl⟩ := Lexeme.keyword_matched_iff.1 h
    rw [← hword]
    exact List.takeWhile_prefix _
  | ident =>
    obtain ⟨rfl, -⟩ := matchIdent_eq_some_iff.1 h
    exact List.takeWhile_prefix _
  | number =>
    by_cases hminus : s.head? = some '-'
    · obtain ⟨rest, rfl⟩ := List.head?_eq_some_iff.1 hminus
      obtain ⟨-, rfl⟩ := leading_minus_eq_some_iff.1 h
      exact (List.prefix_cons_inj _).2 (List.takeWhile_prefix _)
    · obtain ⟨-, rfl⟩ := (leading_eq_some_iff hminus).1 h
      exact List.takeWhile_prefix _
  | hostPath =>
    obtain ⟨-, rfl⟩ := Lexeme.hostPath_matched_iff.1 h
    exact hostPathTail_isPrefix s
  | endOfText =>
    obtain ⟨rfl, rfl⟩ := Lexeme.endOfText_matched_iff.1 h
    exact List.prefix_refl _

/-- A lexeme other than the end of the text takes a character. -/
theorem Lexeme.matched_ne_nil {l : Lexeme} (hl : l ≠ .endOfText) {s cs : List Char}
    (h : l.matched s = some cs) : cs ≠ [] := by
  cases l with
  | endOfText => exact absurd rfl hl
  | mark m =>
    obtain ⟨-, rfl⟩ := Lexeme.mark_matched_iff.1 h
    exact m.chars_ne_nil
  | keyword k =>
    obtain ⟨-, rfl⟩ := Lexeme.keyword_matched_iff.1 h
    obtain ⟨c, rest, hspelling, -⟩ := k.exists_spelling
    rw [hspelling]
    exact List.cons_ne_nil _ _
  | ident =>
    obtain ⟨-, hhead, -⟩ := matchIdent_eq_some_iff.1 h
    rintro rfl
    cases hhead
  | number =>
    by_cases hminus : s.head? = some '-'
    · obtain ⟨rest, rfl⟩ := List.head?_eq_some_iff.1 hminus
      obtain ⟨-, rfl⟩ := leading_minus_eq_some_iff.1 h
      exact List.cons_ne_nil _ _
    · obtain ⟨hdigits, rfl⟩ := (leading_eq_some_iff hminus).1 h
      exact hdigits
  | hostPath =>
    obtain ⟨⟨word, hword⟩, rfl⟩ := Lexeme.hostPath_matched_iff.1 h
    obtain ⟨c, rest, rfl, hc⟩ := exists_head_of_matchIdent hword
    rw [hostPathTail, isWordChar_of_isWordStart hc]
    exact List.cons_ne_nil _ _

theorem Terminal.lexeme_ne_endOfText (t : Terminal) : t.lexeme ≠ .endOfText := by
  cases t <;> exact Lexeme.noConfusion

/-- What a lexeme takes from a text is a token. -/
theorem Lexeme.exists_terminal {l : Lexeme} (hl : l ≠ .endOfText) {s cs : List Char}
    (h : l.matched s = some cs) : ∃ t : Terminal, t.lexeme = l ∧ t.chars = cs := by
  cases l with
  | endOfText => exact absurd rfl hl
  | mark m => exact ⟨.mark m, rfl, (Lexeme.mark_matched_iff.1 h).2.symm⟩
  | keyword k => exact ⟨.keyword k, rfl, (Lexeme.keyword_matched_iff.1 h).2.symm⟩
  | ident => exact ⟨.ident (String.ofList cs), rfl, String.toList_ofList⟩
  | number => exact ⟨.number (String.ofList cs), rfl, String.toList_ofList⟩
  | hostPath => exact ⟨.hostPath (String.ofList cs), rfl, String.toList_ofList⟩

/-! ## Skipping layout -/

/-- No layout stands in front. -/
inductive Bare : List Char → Prop where
  | nil : Bare []
  | cons {c : Char} {rest : List Char} : isBlank c = false →
      (∀ rest', c :: rest ≠ '/' :: '/' :: rest') → Bare (c :: rest)

/-- Two slashes open a comment. -/
theorem skipLayout_slashes (n : Nat) (rest : List Char) :
    skipLayout n ('/' :: '/' :: rest) = skipComment (n + 2) rest := rfl

/-- Where no comment starts, layout goes on with a blank. -/
theorem skipLayout_cons {c : Char} {rest : List Char}
    (h : ∀ rest', c :: rest ≠ '/' :: '/' :: rest') (n : Nat) : skipLayout n (c :: rest) =
      if isBlank c then skipLayout (n + 1) rest else ⟨n, c :: rest⟩ := by
  rw [skipLayout]
  rintro rest' rfl rfl
  exact h rest' rfl

/-- A blank is skipped. -/
theorem skipLayout_blank {c : Char} (hc : isBlank c = true) (n : Nat) (rest : List Char) :
    skipLayout n (c :: rest) = skipLayout (n + 1) rest := by
  have hslash : c ≠ '/' := by
    rintro rfl
    exact absurd hc (by decide)
  rw [skipLayout_cons fun _ h => hslash (List.cons.inj h).1, if_pos hc]

/-- Where there is no layout, nothing is skipped. -/
theorem Bare.skipLayout {s : List Char} (h : Bare s) (n : Nat) :
    Grammar.skipLayout n s = ⟨n, s⟩ := by
  cases h with
  | nil => rfl
  | cons hblank hcomment =>
    rw [skipLayout_cons hcomment, hblank]
    rfl

theorem bare_of_startsToken {c : Char} (hc : StartsToken c) (rest : List Char) :
    Bare (c :: rest) :=
  .cons hc.1 fun _ h => hc.2 (List.cons.inj h).1

theorem skipComment_cons (n : Nat) (c : Char) (rest : List Char) : skipComment n (c :: rest) =
    if c = '\n' then skipLayout (n + 1) rest else skipComment (n + 1) rest := rfl

/-- A comment goes to the end of its line. -/
theorem skipComment_line : ∀ {body : List Char}, '\n' ∉ body → ∀ (n : Nat) (rest : List Char),
    skipComment n (body ++ '\n' :: rest) = skipLayout (n + body.length + 1) rest
  | [], _, _, _ => rfl
  | c :: body, h, n, rest => by
    have hc : c ≠ '\n' := fun hc => h (hc ▸ List.mem_cons_self)
    rw [List.cons_append, skipComment_cons, if_neg hc,
      skipComment_line fun hmem => h (List.mem_cons_of_mem c hmem), List.length_cons,
      Nat.add_right_comm n 1, Nat.add_assoc n]

/-- A comment without the end of its line goes to the end of the text. -/
theorem skipComment_last : ∀ {body : List Char}, '\n' ∉ body → ∀ n : Nat,
    skipComment n body = ⟨n + body.length, []⟩
  | [], _, _ => rfl
  | c :: body, h, n => by
    have hc : c ≠ '\n' := fun hc => h (hc ▸ List.mem_cons_self)
    rw [skipComment_cons, if_neg hc, skipComment_last fun hmem => h (List.mem_cons_of_mem c hmem),
      List.length_cons, Nat.add_right_comm n 1, Nat.add_assoc n]

/-- Layout is skipped as a whole, and so is more layout behind it. -/
theorem Gap.skipLayout_append {g : List Char} (h : Gap g) (n : Nat) (rest : List Char) :
    skipLayout n (g ++ rest) = skipLayout (n + g.length) rest := by
  induction h generalizing n with
  | nil => rfl
  | blank hc _ ih =>
    rw [List.cons_append, skipLayout_blank hc, ih, List.length_cons, Nat.add_right_comm n 1,
      Nat.add_assoc n]
  | @comment body g hbody _ ih =>
    have hlength : n + 2 + body.length + 1 + g.length =
        n + ('/' :: '/' :: (body ++ '\n' :: g)).length := by
      simp only [List.length_cons, List.length_append]
      omega
    rw [List.cons_append, List.cons_append, List.append_assoc, List.cons_append,
      skipLayout_slashes, skipComment_line hbody, ih, hlength]

/-- Layout at the end of the text is skipped up to the end. -/
theorem LastGap.skipLayout_eq {g : List Char} (h : LastGap g) (n : Nat) :
    skipLayout n g = ⟨n + g.length, []⟩ := by
  cases h with
  | gap hg =>
    have h := hg.skipLayout_append n []
    rwa [List.append_nil] at h
  | @comment g body hg hbody =>
    have hlength : n + g.length + 2 + body.length = n + (g ++ '/' :: '/' :: body).length := by
      simp only [List.length_cons, List.length_append]
      omega
    rw [hg.skipLayout_append, skipLayout_slashes, skipComment_last hbody, hlength]

/-- **What is skipped is layout**: either a gap before a place where no layout stands, or all that
is left of the text. -/
theorem exists_gap_skipLayout (n : Nat) (s : List Char) : ∃ g rest, s = g ++ rest ∧
    skipLayout n s = ⟨n + g.length, rest⟩ ∧ (Gap g ∧ Bare rest ∨ LastGap g ∧ rest = []) := by
  by_cases hcomment : ∃ rest, s = '/' :: '/' :: rest
  · obtain ⟨body, rfl⟩ := hcomment
    by_cases hline : '\n' ∈ body
    · -- the comment ends with its line, and more layout may follow
      obtain ⟨body, tail, rfl, hbody⟩ := List.eq_append_cons_of_mem hline
      obtain ⟨g, rest, rfl, hskip, hg⟩ := exists_gap_skipLayout (n + 2 + body.length + 1) tail
      refine ⟨'/' :: '/' :: (body ++ '\n' :: g), rest, ?_, ?_, ?_⟩
      · simp
      · rw [skipLayout_slashes, skipComment_line hbody, hskip]
        simp only [List.length_cons, List.length_append, Cursor.mk.injEq, and_true]
        omega
      · rcases hg with ⟨hg, hrest⟩ | ⟨hg, hrest⟩
        · exact Or.inl ⟨.comment hbody hg, hrest⟩
        · refine Or.inr ⟨?_, hrest⟩
          cases hg with
          | gap hg => exact .gap (.comment hbody hg)
          | @comment g last hg hlast =>
            have h := LastGap.comment (Gap.comment hbody hg) hlast
            rwa [List.cons_append, List.cons_append, List.append_assoc, List.cons_append] at h
    · refine ⟨'/' :: '/' :: body, [], (List.append_nil _).symm, ?_,
        Or.inr ⟨.comment .nil hline, rfl⟩⟩
      rw [skipLayout_slashes, skipComment_last hline, List.length_cons, List.length_cons,
        Nat.add_assoc n, Nat.add_comm 2]
  · cases s with
    | nil => exact ⟨[], [], rfl, rfl, Or.inl ⟨.nil, .nil⟩⟩
    | cons c tail =>
      cases hc : isBlank c with
      | true =>
        obtain ⟨g, rest, rfl, hskip, hg⟩ := exists_gap_skipLayout (n + 1) tail
        refine ⟨c :: g, rest, rfl, ?_, ?_⟩
        · rw [skipLayout_blank hc, hskip, List.length_cons, Nat.add_right_comm n 1, Nat.add_assoc n]
        · rcases hg with ⟨hg, hrest⟩ | ⟨hg, hrest⟩
          · exact Or.inl ⟨.blank hc hg, hrest⟩
          · refine Or.inr ⟨?_, hrest⟩
            cases hg with
            | gap hg => exact .gap (.blank hc hg)
            | comment hg hlast => exact .comment (.blank hc hg) hlast
      | false =>
        have hbare : Bare (c :: tail) := .cons hc fun rest h => hcomment ⟨rest, h⟩
        exact ⟨[], c :: tail, rfl, hbare.skipLayout n, Or.inl ⟨.nil, hbare⟩⟩
termination_by s.length
decreasing_by
  all_goals
    subst_vars
    simp only [List.length_cons, List.length_append]
    omega

/-- No layout is left where it was skipped. -/
theorem Cursor.bare_skip (c : Cursor) : Bare c.skip.rest := by
  obtain ⟨g, rest, -, hskip, hrest⟩ := exists_gap_skipLayout c.offset c.rest
  rw [Cursor.skip, hskip]
  rcases hrest with ⟨-, hrest⟩ | ⟨-, rfl⟩
  · exact hrest
  · exact .nil

/-- Skipping once is enough. -/
@[simp] theorem Cursor.skip_skip (c : Cursor) : c.skip.skip = c.skip :=
  c.bare_skip.skipLayout c.skip.offset

/-- Skipping only goes forward. -/
theorem Cursor.length_skip_le (c : Cursor) : c.skip.rest.length ≤ c.rest.length := by
  obtain ⟨g, rest, hrest, hskip, -⟩ := exists_gap_skipLayout c.offset c.rest
  rw [Cursor.skip, hskip, hrest, List.length_append]
  exact Nat.le_add_left _ _

/-- Where a lexeme is found there is nothing to skip. -/
theorem Cursor.skip_eq_self {l : Lexeme} (hl : l ≠ .endOfText) {c : Cursor} {cs : List Char}
    (h : l.matched c.rest = some cs) : c.skip = c := by
  obtain ⟨d, rest, hrest, hd⟩ := Lexeme.exists_startsToken hl h
  have hbare : Bare c.rest := hrest ▸ bare_of_startsToken hd rest
  exact hbare.skipLayout c.offset

end Kelp.Grammar
