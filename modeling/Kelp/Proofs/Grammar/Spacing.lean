import Kelp.Proofs.Grammar.Reading

/-!
# Layout and tokens

A text lays out a token sequence exactly when the tokens are found in it one after the other, as
long as nothing comes after a token that must not. Two cases need that condition: a word right after
a number would not be kept apart by the reader, and a dot right after a host path would be taken
into it.

- `Terminal.matched_chars`: a valid token is found in front of whatever it is kept apart from.
- `Terminal.valid_of_matched`: what is found is a valid token.
- `Layout.exists_spans` and `Spans.layout` are the two directions.
-/

namespace Kelp.Grammar

/-! ## What stands after a token -/

/-- No word goes on at the front. -/
def EndsWord (rest : List Char) : Prop := ∀ b ∈ rest.head?, isWordChar b = false

/-- What is kept apart from a word does not go on with it. -/
theorem Apart.endsWord {cs rest : List Char} (h : Apart cs rest)
    (hlast : ∃ a ∈ cs.getLast?, isWordChar a = true) : EndsWord rest := by
  obtain ⟨a, ha, hword⟩ := hlast
  intro b hb
  by_contra hne
  exact h a ha b hb ⟨hword, Bool.not_eq_false _ ▸ hne⟩

theorem EndsWord.apart {rest : List Char} (h : EndsWord rest) (cs : List Char) : Apart cs rest := by
  rintro a - b hb ⟨-, hword⟩
  rw [h b hb] at hword
  cases hword

theorem apart_nil (cs : List Char) : Apart cs [] := by
  rintro a - b hb
  cases hb

/-- A nonempty list of word characters ends with one. -/
theorem exists_getLast_isWordChar {cs : List Char} (hne : cs ≠ [])
    (h : ∀ c ∈ cs, isWordChar c = true) : ∃ a ∈ cs.getLast?, isWordChar a = true :=
  ⟨cs.getLast hne, List.getLast?_eq_some_getLast hne, h _ (List.getLast_mem hne)⟩

/-- The characters of a kind in front are taken up to the first one that is not. -/
theorem takeWhile_append_of_stop {p : Char → Bool} {w rest : List Char}
    (hw : ∀ c ∈ w, p c = true) (hrest : ∀ b ∈ rest.head?, p b = false) :
    (w ++ rest).takeWhile p = w := by
  rw [List.takeWhile_append_of_pos hw]
  cases rest with
  | nil => rw [List.takeWhile_nil, List.append_nil]
  | cons b rest =>
    rw [List.takeWhile_cons, hrest b rfl]
    exact List.append_nil w

theorem endsWord_dropWhile (s : List Char) : EndsWord (s.dropWhile isWordChar) := by
  intro b hb
  have h := List.head?_dropWhile_not isWordChar s
  rw [Option.mem_def.1 hb] at h
  exact h

/-- The text consists of the word in front and what ends it. -/
theorem exists_append_of_leadingWord (s : List Char) :
    ∃ rest, s = leadingWord s ++ rest ∧ EndsWord rest :=
  ⟨s.dropWhile isWordChar, List.takeWhile_append_dropWhile.symm, endsWord_dropWhile s⟩

theorem isWordChar_of_mem_leadingWord {s : List Char} {c : Char} (h : c ∈ leadingWord s) :
    isWordChar c = true :=
  List.all_eq_true.1 List.all_takeWhile c h

/-! ## Identifiers and host paths -/

/-- What is no keyword is spelled like none. -/
theorem isKeyword_eq_false_iff {cs : List Char} :
    isKeyword cs = false ↔ ∀ k : Keyword, cs ≠ k.spelling.toList := by
  rw [isKeyword, List.any_eq_false]
  constructor
  · rintro h k rfl
    exact h k k.mem_all (beq_self_eq_true _)
  · intro h k _ hk
    exact h k (beq_iff_eq.1 hk).symm

theorem IsIdentifier.ne_nil {x : List Char} (h : IsIdentifier x) : x ≠ [] := by
  rintro rfl
  exact absurd h.start (by decide)

/-- An identifier is found where no word goes on after it. -/
theorem IsIdentifier.matchIdent_append {x rest : List Char} (h : IsIdentifier x)
    (hrest : EndsWord rest) : matchIdent (x ++ rest) = some x := by
  have hword : leadingWord (x ++ rest) = x := takeWhile_append_of_stop h.word hrest
  exact matchIdent_eq_some_iff.2 ⟨hword.symm, h.start, isKeyword_eq_false_iff.2 h.reserved⟩

/-- What the reader takes for an identifier is one. -/
theorem isIdentifier_of_matchIdent {s x : List Char} (h : matchIdent s = some x) :
    IsIdentifier x := by
  obtain ⟨rfl, hstart, hkey⟩ := matchIdent_eq_some_iff.1 h
  exact ⟨hstart, fun _ => isWordChar_of_mem_leadingWord, isKeyword_eq_false_iff.1 hkey⟩

/-- A host path goes over the word in front. -/
theorem hostPathTail_append {w : List Char} (hw : ∀ c ∈ w, isWordChar c = true)
    (rest : List Char) : hostPathTail (w ++ rest) = w ++ hostPathTail rest := by
  induction w with
  | nil => rfl
  | cons c w ih =>
    rw [List.cons_append, hostPathTail, hw c List.mem_cons_self, Bool.true_or, if_pos rfl,
      ih fun d hd => hw d (List.mem_cons_of_mem c hd), List.cons_append]

/-- A host path stops where the word ends, unless a dot goes on to an identifier. -/
theorem hostPathTail_eq_nil {rest : List Char} (hrest : EndsWord rest)
    (hdot : rest.head? ≠ some '.') : hostPathTail rest = [] := by
  cases rest with
  | nil => rfl
  | cons c rest =>
    have hc : (c == '.') = false := by
      rw [beq_eq_false_iff_ne]
      rintro rfl
      exact hdot rfl
    rw [hostPathTail, hrest c rfl, hc]
    rfl

theorem endsWord_dot (rest : List Char) : EndsWord ('.' :: rest) := by
  intro b hb
  cases hb
  rfl

/-- A host path is found in front of anything but a dot that it is kept apart from. -/
theorem IsHostPath.matched_append {path rest : List Char} (h : IsHostPath path)
    (hrest : EndsWord rest) (hdot : rest.head? ≠ some '.') :
    (∃ x, matchIdent (path ++ rest) = some x) ∧ hostPathTail (path ++ rest) = path := by
  induction h with
  | @ident x hx =>
    refine ⟨⟨x, hx.matchIdent_append hrest⟩, ?_⟩
    rw [hostPathTail_append hx.word, hostPathTail_eq_nil hrest hdot, List.append_nil]
  | @dot x path hx _ ih =>
    -- the identifier ends at the dot, and the path goes on since another one is behind it
    rw [List.append_assoc, List.cons_append]
    refine ⟨⟨x, hx.matchIdent_append (endsWord_dot _)⟩, ?_⟩
    rw [hostPathTail_append hx.word, hostPathTail, ih.2,
      (Option.isSome_iff_exists.2 ih.1)]
    rfl

theorem IsHostPath.exists_getLast {path : List Char} (h : IsHostPath path) :
    ∃ a ∈ path.getLast?, isWordChar a = true := by
  induction h with
  | ident hx => exact exists_getLast_isWordChar hx.ne_nil hx.word
  | dot _ _ ih =>
    obtain ⟨a, ha, hword⟩ := ih
    refine ⟨a, ?_, hword⟩
    rw [List.getLast?_append, List.getLast?_cons, Option.mem_def.1 ha]
    rfl

/-- What the reader takes for a host path is one, and no word goes on after it. -/
theorem exists_hostPath {s x : List Char} (h : matchIdent s = some x) :
    IsHostPath (hostPathTail s) ∧ ∃ rest, s = hostPathTail s ++ rest ∧ EndsWord rest := by
  have hx := isIdentifier_of_matchIdent h
  obtain ⟨rest, hs, hrest⟩ := exists_append_of_leadingWord s
  rw [← (matchIdent_eq_some_iff.1 h).1] at hs
  subst hs
  rw [hostPathTail_append hx.word]
  -- the path goes on only over a dot with an identifier behind it
  by_cases hdot : ∃ rest', rest = '.' :: rest' ∧ (matchIdent rest').isSome
  · obtain ⟨rest', rfl, hsome⟩ := hdot
    obtain ⟨y, hy⟩ := Option.isSome_iff_exists.1 hsome
    obtain ⟨hpath, rest'', hrest'', hends⟩ := exists_hostPath hy
    have htail : hostPathTail ('.' :: rest') = '.' :: hostPathTail rest' := by
      rw [hostPathTail, hsome]
      rfl
    rw [htail]
    refine ⟨.dot hx hpath, rest'', ?_, hends⟩
    rw [List.append_assoc, List.cons_append, ← hrest'']
  · have htail : hostPathTail rest = [] := by
      cases rest with
      | nil => rfl
      | cons c rest' =>
        rw [hostPathTail, hrest c rfl, Bool.false_or, if_neg]
        intro hc
        rw [Bool.and_eq_true, beq_iff_eq] at hc
        exact hdot ⟨rest', by rw [hc.1], hc.2⟩
    rw [htail, List.append_nil]
    exact ⟨.ident hx, rest, rfl, hrest⟩
termination_by s.length
decreasing_by
  subst_vars
  have hlength := congrArg List.length hs
  rw [List.length_append, List.length_cons] at hlength
  omega

/-! ## Tokens in front -/

/-- A list of digits is one of word characters. -/
theorem isWordChar_of_digits {digits : List Char} (h : ∀ d ∈ digits, d.isDigit = true) :
    ∀ d ∈ digits, isWordChar d = true :=
  fun d hd => isWordChar_of_isDigit (h d hd)

theorem IsNumeral.exists_getLast {cs : List Char} (h : IsNumeral cs) :
    ∃ a ∈ cs.getLast?, isWordChar a = true := by
  obtain ⟨digits, hne, hdigits, hcs⟩ := h
  obtain ⟨a, ha, hword⟩ := exists_getLast_isWordChar hne (isWordChar_of_digits hdigits)
  refine ⟨a, ?_, hword⟩
  rcases hcs with rfl | rfl
  · exact ha
  · rw [List.getLast?_cons, Option.mem_def.1 ha]
    rfl

/-- A number is found where no word goes on after it. -/
theorem IsNumeral.leading_append {cs rest : List Char} (h : IsNumeral cs) (hrest : EndsWord rest) :
    Decimal.leading (cs ++ rest) = some cs := by
  obtain ⟨digits, hne, hdigits, hcs⟩ := h
  have hstop : ∀ b ∈ rest.head?, b.isDigit = false := by
    intro b hb
    by_contra hd
    rw [Bool.not_eq_false] at hd
    have h := hrest b hb
    rw [isWordChar_of_isDigit hd] at h
    cases h
  have htake : (digits ++ rest).takeWhile Char.isDigit = digits :=
    takeWhile_append_of_stop hdigits hstop
  rcases hcs with rfl | rfl
  · -- digits in front leave no room for a sign
    have hminus : (cs ++ rest).head? ≠ some '-' := by
      cases cs with
      | nil => exact absurd rfl hne
      | cons d ds =>
        intro h
        cases h
        exact absurd (hdigits '-' List.mem_cons_self) (by decide)
    rw [(leading_eq_some_iff hminus), htake]
    exact ⟨hne, rfl⟩
  · rw [List.cons_append, leading_minus_eq_some_iff, htake]
    exact ⟨hne, rfl⟩

theorem Keyword.isWordChar_spelling (k : Keyword) :
    ∀ c ∈ k.spelling.toList, isWordChar c = true := by
  rw [← List.all_eq_true]
  cases k <;> rfl

/-- **A valid token is found** in front of whatever it is kept apart from, where a host path is not
followed by a dot. -/
theorem Terminal.matched_chars {t : Terminal} (ht : t.Valid) {rest : List Char}
    (hrest : Apart t.chars rest) (hdot : t.lexeme = .hostPath → rest.head? ≠ some '.') :
    t.lexeme.matched (t.chars ++ rest) = some t.chars := by
  cases t with
  | mark m => exact Lexeme.mark_matched_iff.2 ⟨List.prefix_append _ _, rfl⟩
  | keyword k =>
    obtain ⟨c, cs, hspelling, -⟩ := k.exists_spelling
    have hne : k.spelling.toList ≠ [] := hspelling ▸ List.cons_ne_nil c cs
    have hends := hrest.endsWord (exists_getLast_isWordChar hne k.isWordChar_spelling)
    exact Lexeme.keyword_matched_iff.2
      ⟨takeWhile_append_of_stop k.isWordChar_spelling hends, rfl⟩
  | ident name =>
    exact IsIdentifier.matchIdent_append ht
      (hrest.endsWord (exists_getLast_isWordChar ht.ne_nil ht.word))
  | number text => exact IsNumeral.leading_append ht (hrest.endsWord (IsNumeral.exists_getLast ht))
  | hostPath path =>
    obtain ⟨hx, htail⟩ := IsHostPath.matched_append ht
      (hrest.endsWord (IsHostPath.exists_getLast ht)) (hdot rfl)
    exact Lexeme.hostPath_matched_iff.2 ⟨hx, htail.symm⟩

/-- What the reader takes for a number is one, and no digit goes on after it. -/
theorem exists_numeral {s cs : List Char} (h : Decimal.leading s = some cs) :
    IsNumeral cs ∧ ∃ rest, s = cs ++ rest ∧ ∀ b ∈ rest.head?, b.isDigit = false := by
  have hstop : ∀ s : List Char, ∀ b ∈ (s.dropWhile Char.isDigit).head?, b.isDigit = false := by
    intro s b hb
    have h := List.head?_dropWhile_not Char.isDigit s
    rw [Option.mem_def.1 hb] at h
    exact h
  by_cases hminus : s.head? = some '-'
  · obtain ⟨rest, rfl⟩ := List.head?_eq_some_iff.1 hminus
    obtain ⟨hne, rfl⟩ := leading_minus_eq_some_iff.1 h
    refine ⟨⟨_, hne, List.all_eq_true.1 List.all_takeWhile, Or.inr rfl⟩,
      rest.dropWhile Char.isDigit, ?_, hstop rest⟩
    rw [List.cons_append, List.takeWhile_append_dropWhile]
  · obtain ⟨hne, rfl⟩ := (leading_eq_some_iff hminus).1 h
    exact ⟨⟨_, hne, List.all_eq_true.1 List.all_takeWhile, Or.inl rfl⟩,
      s.dropWhile Char.isDigit, List.takeWhile_append_dropWhile.symm, hstop s⟩

/-- A word starts with any of its characters but the digits. -/
theorem isWordStart_of_isWordChar {c : Char} (h : isWordChar c = true) (hd : c.isDigit = false) :
    isWordStart c = true := by
  rw [isWordChar, Char.isAlphanum, hd, Bool.or_false] at h
  exact h

/-- **What is found is a valid token**. It is kept apart from what follows, unless it is a number
with a letter behind it. -/
theorem Terminal.valid_of_matched {t : Terminal} {s : List Char}
    (h : t.lexeme.matched s = some t.chars) :
    t.Valid ∧ ∃ rest, s = t.chars ++ rest ∧
      ((t.lexeme = .number → ∀ b ∈ rest.head?, isWordStart b = false) → Apart t.chars rest) := by
  cases t with
  | mark m =>
    obtain ⟨rest, rfl⟩ := (Lexeme.mark_matched_iff.1 h).1
    refine ⟨trivial, rest, rfl, fun _ a ha b _ hword => ?_⟩
    -- no mark ends with a character of words
    have hlast : ∀ a ∈ m.chars.getLast?, isWordChar a = false := by
      cases m <;> (intro a ha; cases ha; rfl)
    rw [hlast a ha] at hword
    cases hword.1
  | keyword k =>
    obtain ⟨rest, hs, hends⟩ := exists_append_of_leadingWord s
    rw [(Lexeme.keyword_matched_iff.1 h).1] at hs
    exact ⟨trivial, rest, hs, fun _ => hends.apart _⟩
  | ident name =>
    obtain ⟨rest, hs, hends⟩ := exists_append_of_leadingWord s
    rw [← (matchIdent_eq_some_iff.1 h).1] at hs
    exact ⟨isIdentifier_of_matchIdent h, rest, hs, fun _ => hends.apart _⟩
  | number text =>
    -- no digit is behind the number, and no letter by assumption
    obtain ⟨hnumeral, rest, hs, hstop⟩ := exists_numeral h
    refine ⟨hnumeral, rest, hs, fun hletter => EndsWord.apart ?_ _⟩
    intro b hb
    by_contra hword
    have hstart := isWordStart_of_isWordChar (Bool.not_eq_false _ ▸ hword) (hstop b hb)
    rw [hletter rfl b hb] at hstart
    cases hstart
  | hostPath path =>
    obtain ⟨⟨x, hx⟩, hchars⟩ := Lexeme.hostPath_matched_iff.1 h
    obtain ⟨hpath, rest, hs, hends⟩ := exists_hostPath hx
    rw [← hchars] at hpath hs
    exact ⟨hpath, rest, hs, fun _ => hends.apart _⟩

/-! ## From layout to tokens -/

/-- A gap in front of other text hides a dot. -/
theorem Gap.eq_nil_of_head_dot {g rest : List Char} (h : Gap g)
    (hdot : (g ++ rest).head? = some '.') : g = [] := by
  cases h with
  | nil => rfl
  | blank hc _ =>
    cases hdot
    exact absurd hc (by decide)
  | comment _ _ => cases hdot

/-- Only the dot starts with a dot. -/
theorem Terminal.lexeme_of_head_dot {t : Terminal} (ht : t.Valid) {rest : List Char}
    (h : (t.chars ++ rest).head? = some '.') : t.lexeme = .mark .dot := by
  have hmatched : t.lexeme.matched (t.chars ++ []) = some t.chars :=
    Terminal.matched_chars ht (apart_nil _) (fun _ => nofun)
  rw [List.append_nil] at hmatched
  have hne := Lexeme.matched_ne_nil t.lexeme_ne_endOfText hmatched
  rw [List.head?_append_of_ne_nil _ hne] at h
  obtain ⟨cs, hcs⟩ := List.head?_eq_some_iff.1 h
  have hdot : (Lexeme.mark .dot).matched t.chars = some ['.'] :=
    Lexeme.mark_matched_iff.2 ⟨hcs ▸ ⟨cs, rfl⟩, rfl⟩
  by_contra hlexeme
  have hoverlaps :=
    Lexeme.overlaps_of_matched t.lexeme_ne_endOfText Lexeme.noConfusion hlexeme hmatched hdot
  cases t <;> cases hoverlaps

/-- Where no dot may follow, the text does not go on with one. -/
theorem Layout.head_ne_dot {ts : List Terminal} {s : List Char} (h : Layout ts s)
    (havoids : Avoids Lexeme.hostPath.extensions (ts.map Terminal.lexeme)) :
    s.head? ≠ some '.' := by
  intro hdot
  cases h with
  | done hg =>
    cases hg with
    | gap hg =>
      rw [← List.append_nil s] at hdot
      have hnil := hg.eq_nil_of_head_dot hdot
      subst hnil
      cases hdot
    | comment hg _ =>
      have hnil := hg.eq_nil_of_head_dot hdot
      subst hnil
      cases hdot
  | token hg ht _ _ =>
    have hnil := hg.eq_nil_of_head_dot hdot
    subst hnil
    have hmeets := havoids _ List.mem_cons_self
    rw [List.map_cons, Terminal.lexeme_of_head_dot ht hdot, Meets, if_pos rfl] at hmeets
    cases hmeets

/-- A text that lays out tokens has them one after the other. -/
theorem Layout.exists_spans {ws : List Terminal} {s : List Char} (h : Layout ws s)
    (hfollowed : Followed (ws.map Terminal.lexeme) []) (n : Nat) :
    ∃ ts cEnd, ts.map Token.terminal = ws ∧ Spans ⟨n, s⟩ ts cEnd ∧ cEnd.AtEnd := by
  induction h generalizing n with
  | @done g hg =>
    refine ⟨[], ⟨n, g⟩, rfl, .here rfl, ?_⟩
    show (skipLayout n g).rest = []
    rw [hg.skipLayout_eq]
  | @token g rest t ws hg ht hapart hrest ih =>
    have hmatched : t.lexeme.matched (t.chars ++ rest) = some t.chars := by
      refine Terminal.matched_chars ht hapart fun hpath => hrest.head_ne_dot ?_
      have havoids := hfollowed.1
      rwa [hpath, List.append_nil] at havoids
    -- after the gap the token is found at once
    have hskip : Cursor.skip ⟨n, g ++ (t.chars ++ rest)⟩ = ⟨n + g.length, t.chars ++ rest⟩ := by
      rw [Cursor.skip, hg.skipLayout_append]
      exact Cursor.skip_eq_self (c := ⟨n + g.length, t.chars ++ rest⟩) t.lexeme_ne_endOfText
        hmatched
    obtain ⟨ts, cEnd, rfl, hspans, hEnd⟩ := ih hfollowed.2 (n + g.length + t.chars.length)
    refine ⟨⟨n + g.length, t⟩ :: ts, cEnd, rfl, .token ?_ ?_ ?_, hEnd⟩
    · rw [hskip]
    · rw [hskip]
      exact hmatched
    · rw [hskip, Cursor.advance]
      show Spans ⟨n + g.length + t.chars.length, (t.chars ++ rest).drop t.chars.length⟩ ts cEnd
      rw [List.drop_left]
      exact hspans

/-! ## From tokens to layout -/

/-- Where a letter stands in front, a lexeme is a word. -/
theorem Lexeme.isWord_of_matched {l : Lexeme} {c : Char} {rest cs : List Char}
    (hl : l ≠ .endOfText) (h : l.matched (c :: rest) = some cs) (hc : isWordStart c = true) :
    l.isWord = true := by
  cases l with
  | endOfText => exact absurd rfl hl
  | keyword k => rfl
  | ident => rfl
  | hostPath => rfl
  | mark m =>
    obtain ⟨d, ds, hchars, hd, -⟩ := m.exists_head
    obtain ⟨t, ht⟩ := (Lexeme.mark_matched_iff.1 h).1
    rw [hchars, List.cons_append] at ht
    rw [(List.cons.inj ht).1, isWordChar_of_isWordStart hc] at hd
    cases hd
  | number =>
    obtain ⟨d, ds, hds, hd⟩ := exists_head_of_leading h
    cases hds
    rcases hd with hd | ⟨rfl, -⟩
    · rw [isDigit_eq_false_of_isWordStart hc] at hd
      cases hd
    · exact absurd hc (by decide)

theorem Lexeme.mem_wordLexemes {l : Lexeme} (h : l.isWord = true) : l ∈ wordLexemes := by
  cases l with
  | keyword k =>
    exact List.mem_cons_of_mem _ (List.mem_cons_of_mem _ (List.mem_map_of_mem k.mem_all))
  | ident => exact List.mem_cons_self
  | hostPath => exact List.mem_cons_of_mem _ List.mem_cons_self
  | _ => cases h

/-- Where the tokens may follow a number, no letter does. -/
theorem Spans.isWordStart_eq_false {c cEnd : Cursor} {ts : List Token} (h : Spans c ts cEnd)
    (hEnd : cEnd.AtEnd) (havoids : Avoids Lexeme.number.extensions (lexemes ts)) :
    ∀ b ∈ c.rest.head?, isWordStart b = false := by
  intro b hb
  by_contra hstart
  rw [Bool.not_eq_false] at hstart
  obtain ⟨rest, hrest⟩ := List.head?_eq_some_iff.1 (Option.mem_def.1 hb)
  have hbare : Bare c.rest :=
    hrest ▸ bare_of_startsToken (startsToken_of_isWordChar (isWordChar_of_isWordStart hstart)) rest
  have hskip : c.skip = c := hbare.skipLayout c.offset
  cases h with
  | here h =>
    have hnil : c.skip.rest = [] := by
      rw [h]
      exact hEnd
    rw [hskip, hrest] at hnil
    cases hnil
  | @token _ _ t ts _ hmatched _ =>
    rw [hskip, hrest] at hmatched
    have hword := Lexeme.isWord_of_matched t.lexeme_ne_endOfText hmatched hstart
    have hmeets := havoids _ (List.mem_map_of_mem (Lexeme.mem_wordLexemes hword))
    rw [lexemes, List.map_cons, Meets, if_pos rfl] at hmeets
    cases hmeets

/-- Only layout is left at the end of the text. -/
theorem Cursor.AtEnd.lastGap {c : Cursor} (h : c.AtEnd) : LastGap c.rest := by
  obtain ⟨g, rest, hrest, hskip, hg⟩ := exists_gap_skipLayout c.offset c.rest
  rw [Cursor.AtEnd, Cursor.skip, hskip] at h
  subst h
  rw [hrest, List.append_nil]
  rcases hg with ⟨hg, -⟩ | ⟨hg, -⟩
  · exact .gap hg
  · exact hg

/-- Where there is no token, there is only layout. -/
theorem Spans.atEnd {c cEnd : Cursor} (h : Spans c [] cEnd) (hEnd : cEnd.AtEnd) : c.AtEnd := by
  cases h with
  | here h => rwa [Cursor.AtEnd, h]

/-- The first token stands behind a gap, and is kept apart from the text of the others. -/
theorem Spans.exists_token {c cEnd : Cursor} {t : Token} {ts : List Token}
    (h : Spans c (t :: ts) cEnd) (hEnd : cEnd.AtEnd) (hfollowed : Followed (lexemes (t :: ts)) []) :
    ∃ g rest, c.rest = g ++ (t.chars ++ rest) ∧ t.offset = c.offset + g.length ∧ Gap g ∧
      t.terminal.Valid ∧ Apart t.chars rest ∧
      Spans ⟨t.offset + t.chars.length, rest⟩ ts cEnd := by
  cases h with
  | token hoffset hmatched hspans =>
    obtain ⟨g, rest, hrest, hskip, hg⟩ := exists_gap_skipLayout c.offset c.rest
    have hskip : c.skip = ⟨c.offset + g.length, rest⟩ := hskip
    rw [hskip] at hoffset hmatched hspans
    obtain ⟨hvalid, rest, rfl, hapart⟩ := Terminal.valid_of_matched hmatched
    have hafter : Cursor.advance ⟨c.offset + g.length, t.chars ++ rest⟩ t.chars.length =
        ⟨t.offset + t.chars.length, rest⟩ := by
      rw [Cursor.advance, List.drop_left, hoffset]
    rw [show t.terminal.chars = t.chars from rfl, hafter] at hspans
    have hletter : t.terminal.lexeme = .number → ∀ b ∈ rest.head?, isWordStart b = false := by
      intro hnumber
      have havoids := hfollowed.1
      rw [List.append_nil, Token.lexeme, hnumber] at havoids
      exact hspans.isWordStart_eq_false hEnd havoids
    refine ⟨g, rest, hrest, hoffset, ?_, hvalid, hapart hletter, hspans⟩
    rcases hg with ⟨hg, -⟩ | ⟨-, hnil⟩
    · exact hg
    · -- a token was found, so the layout in front did not go to the end
      exact absurd (List.append_eq_nil_iff.1 hnil).1
        (Lexeme.matched_ne_nil t.lexeme_ne_endOfText hmatched)

/-- A text that has tokens one after the other lays them out. -/
theorem Spans.layout {c cEnd : Cursor} {ts : List Token} (h : Spans c ts cEnd) (hEnd : cEnd.AtEnd)
    (hfollowed : Followed (lexemes ts) []) : Layout (ts.map Token.terminal) c.rest := by
  induction ts generalizing c with
  | nil => exact .done (h.atEnd hEnd).lastGap
  | cons t ts ih =>
    obtain ⟨g, rest, hrest, -, hg, hvalid, hapart, hspans⟩ := h.exists_token hEnd hfollowed
    rw [hrest]
    exact .token hg hvalid hapart (ih hspans hfollowed.2)

end Kelp.Grammar
