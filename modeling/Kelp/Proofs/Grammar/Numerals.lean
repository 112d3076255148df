import Kelp.Proofs.Grammar.Literals

/-!
# Numerals of texts

The integer literals of a text, found without the grammar.

- `numerals` goes over a text from left to right. It passes over comments and words, and takes note
  of each run of digits that no word has in front of it, with the minus sign right before it.
- `exists_append_of_mem_numerals`: a numeral stands in the text at its offset.
- `Spans.numeralsFrom_eq`: where the text consists of tokens of a program, its numerals are the
  literals among them. `numerals_eq_constants`: so they are the constants of the program.
-/

namespace Kelp.Grammar

/-! ## Definitions -/

/-- What a place in a text belongs to. -/
inductive Region where
  | plain
  | word
  | comment
deriving DecidableEq, Repr, Inhabited

/-- Whether a numeral starts with the character, where `rest` comes after it. -/
def startsNumeral (c : Char) (rest : List Char) : Bool :=
  c.isDigit || c == '-' && rest.head?.any Char.isDigit

/-- The numerals of a text that begins at the given offset and in the given region. -/
def numeralsFrom : Region → (offset : Nat) → List Char → List Literal
  | _, _, [] => []
  | region, offset, c :: rest =>
    if region = .comment then
      numeralsFrom (if c = '\n' then .plain else .comment) (offset + 1) rest
    else if region = .word ∧ isWordChar c = true then numeralsFrom .word (offset + 1) rest
    else if c = '/' ∧ rest.head? = some '/' then numeralsFrom .comment (offset + 1) rest
    else if startsNumeral c rest = true then
      ⟨offset, String.ofList (c :: rest.takeWhile Char.isDigit)⟩ ::
        numeralsFrom .word (offset + 1) rest
    else numeralsFrom (if isWordChar c = true then .word else .plain) (offset + 1) rest

/-- The numerals of a text. -/
def numerals (text : List Char) : List Literal := numeralsFrom .plain 0 text

/-! ## Places of numerals -/

/-- A numeral that is found behind an offset stands in the text there. -/
theorem exists_append_of_mem_numeralsFrom {region : Region} {offset : Nat} {text : List Char}
    {l : Literal} (h : l ∈ numeralsFrom region offset text) :
    ∃ front rest, text = front ++ (l.text.toList ++ rest) ∧ l.offset = offset + front.length := by
  induction text generalizing region offset with
  | nil => cases h
  | cons c text ih =>
    -- wherever the numeral is found later, it stands in the rest
    have hlater : ∀ {region : Region}, l ∈ numeralsFrom region (offset + 1) text →
        ∃ front rest, c :: text = front ++ (l.text.toList ++ rest) ∧
          l.offset = offset + front.length := by
      intro region h
      obtain ⟨front, rest, rfl, hoffset⟩ := ih h
      exact ⟨c :: front, rest, rfl, by rw [hoffset, List.length_cons]; omega⟩
    rw [numeralsFrom] at h
    split_ifs at h
    · exact hlater h
    · exact hlater h
    · exact hlater h
    · exact hlater h
    · rcases List.mem_cons.1 h with rfl | h
      · refine ⟨[], text.dropWhile Char.isDigit, ?_, rfl⟩
        rw [String.toList_ofList, List.nil_append, List.cons_append,
          List.takeWhile_append_dropWhile]
      · exact hlater h
    · exact hlater h
    · exact hlater h

/-- **A numeral stands in the text**, at its offset and with its characters. -/
theorem exists_append_of_mem_numerals {text : List Char} {l : Literal} (h : l ∈ numerals text) :
    ∃ front rest, text = front ++ (l.text.toList ++ rest) ∧ l.offset = front.length := by
  obtain ⟨front, rest, htext, hoffset⟩ := exists_append_of_mem_numeralsFrom h
  exact ⟨front, rest, htext, hoffset.trans (Nat.zero_add _)⟩

/-! ## Layout -/

section Layout

variable {offset : Nat} {rest : List Char}

/-- Nothing in a comment counts, up to the end of its line. -/
theorem numeralsFrom_comment {body : List Char} (h : '\n' ∉ body) :
    numeralsFrom .comment offset (body ++ '\n' :: rest) =
      numeralsFrom .plain (offset + body.length + 1) rest := by
  induction body generalizing offset with
  | nil => rfl
  | cons c body ih =>
    rw [List.mem_cons, not_or] at h
    rw [List.cons_append, numeralsFrom, if_pos rfl, if_neg (Ne.symm h.1), ih h.2, List.length_cons,
      Nat.add_right_comm offset 1, Nat.add_assoc offset]

theorem numeralsFrom_lastComment {body : List Char} (h : '\n' ∉ body) :
    numeralsFrom .comment offset body = [] := by
  induction body generalizing offset with
  | nil => rfl
  | cons c body ih =>
    rw [List.mem_cons, not_or] at h
    rw [numeralsFrom, if_pos rfl, if_neg (Ne.symm h.1), ih h.2]

theorem numeralsFrom_slashes (text : List Char) : numeralsFrom .plain offset ('/' :: '/' :: text) =
    numeralsFrom .comment (offset + 2) text := by
  rw [numeralsFrom, if_neg Region.noConfusion, if_neg (by simp), if_pos ⟨rfl, rfl⟩, numeralsFrom,
    if_pos rfl, if_neg (by decide)]

/-- A character that is part of no word and starts neither a comment nor a numeral. -/
theorem numeralsFrom_other {c : Char} (hword : isWordChar c = false) (hslash : c ≠ '/')
    (hminus : c = '-' → rest.head?.any Char.isDigit = false) :
    numeralsFrom .plain offset (c :: rest) = numeralsFrom .plain (offset + 1) rest := by
  have hdigit : c.isDigit = false := by
    by_contra hd
    rw [isWordChar_of_isDigit (Bool.not_eq_false _ ▸ hd)] at hword
    cases hword
  have hstarts : ¬ startsNumeral c rest = true := by
    simpa [startsNumeral, hdigit] using hminus
  rw [numeralsFrom, if_neg Region.noConfusion, if_neg (by simp), if_neg (by simp [hslash]),
    if_neg hstarts, hword, if_neg Bool.false_ne_true]

theorem numeralsFrom_skip {c : Char} (hc : isWordChar c = false ∧ c ≠ '/' ∧ c ≠ '-') :
    numeralsFrom .plain offset (c :: rest) = numeralsFrom .plain (offset + 1) rest :=
  numeralsFrom_other hc.1 hc.2.1 fun hminus => absurd hminus hc.2.2

theorem numeralsFrom_blank {c : Char} (hc : isBlank c = true) :
    numeralsFrom .plain offset (c :: rest) = numeralsFrom .plain (offset + 1) rest := by
  refine numeralsFrom_skip ?_
  simp only [isBlank, Bool.or_eq_true, beq_iff_eq] at hc
  rcases hc with ((rfl | rfl) | rfl) | rfl <;> decide

/-- Layout holds no numerals. -/
theorem Gap.numeralsFrom_append {g : List Char} (h : Gap g) :
    numeralsFrom .plain offset (g ++ rest) = numeralsFrom .plain (offset + g.length) rest := by
  induction h generalizing offset with
  | nil => rfl
  | blank hc _ ih =>
    rw [List.cons_append, numeralsFrom_blank hc, ih, List.length_cons, Nat.add_right_comm offset 1,
      Nat.add_assoc offset]
  | @comment body g hbody _ ih =>
    have hlength : offset + 2 + body.length + 1 + g.length =
        offset + ('/' :: '/' :: (body ++ '\n' :: g)).length := by
      simp only [List.length_cons, List.length_append]
      omega
    rw [List.cons_append, List.cons_append, List.append_assoc, List.cons_append,
      numeralsFrom_slashes, numeralsFrom_comment hbody, ih, hlength]

theorem LastGap.numeralsFrom_eq {g : List Char} (h : LastGap g) :
    numeralsFrom .plain offset g = [] := by
  cases h with
  | gap hg =>
    rw [← List.append_nil g, hg.numeralsFrom_append]
    rfl
  | comment hg hbody =>
    rw [hg.numeralsFrom_append, numeralsFrom_slashes, numeralsFrom_lastComment hbody]

end Layout

/-! ## Tokens -/

section Tokens

variable {offset : Nat} {rest : List Char}

/-- Where no word goes on, a word has ended. -/
theorem EndsWord.numeralsFrom_eq (h : EndsWord rest) :
    numeralsFrom .word offset rest = numeralsFrom .plain offset rest := by
  cases rest with
  | nil => rfl
  | cons c rest =>
    have hc : isWordChar c = false := h c rfl
    rw [numeralsFrom, numeralsFrom, hc]
    simp

/-- A word goes on over its characters, so that digits in it do not count. -/
theorem numeralsFrom_word {cs : List Char} (hcs : ∀ c ∈ cs, isWordChar c = true) :
    numeralsFrom .word offset (cs ++ rest) = numeralsFrom .word (offset + cs.length) rest := by
  induction cs generalizing offset with
  | nil => rfl
  | cons c cs ih =>
    rw [List.forall_mem_cons] at hcs
    rw [List.cons_append, numeralsFrom, if_neg Region.noConfusion, if_pos ⟨rfl, hcs.1⟩, ih hcs.2,
      List.length_cons, Nat.add_right_comm offset 1, Nat.add_assoc offset]

/-- A word that starts with a letter holds no numeral. -/
theorem numeralsFrom_letters {cs : List Char} (hstart : cs.head?.any isWordStart = true)
    (hcs : ∀ c ∈ cs, isWordChar c = true) (hrest : EndsWord rest) :
    numeralsFrom .plain offset (cs ++ rest) =
      numeralsFrom .plain (offset + cs.length) rest := by
  obtain ⟨c, cs, rfl⟩ : ∃ c cs', cs = c :: cs' := by
    cases cs with
    | nil => cases hstart
    | cons c cs => exact ⟨c, cs, rfl⟩
  have hc : isWordStart c = true := hstart
  rw [List.forall_mem_cons] at hcs
  obtain ⟨hword, hcs⟩ := hcs
  have hchar := startsToken_of_isWordChar hword
  have hstarts : ¬ startsNumeral c (cs ++ rest) = true := by
    -- a minus sign is no character of a word
    have hminus : c ≠ '-' := by
      rintro rfl
      cases hword
    simp [startsNumeral, isDigit_eq_false_of_isWordStart hc, hminus]
  rw [List.cons_append, numeralsFrom, if_neg Region.noConfusion, if_neg (by simp),
    if_neg fun h => hchar.2 h.1, if_neg hstarts, if_pos hword, numeralsFrom_word hcs,
    hrest.numeralsFrom_eq, List.length_cons, Nat.add_right_comm offset 1, Nat.add_assoc offset]

/-- A host path holds no numerals: each of its parts starts with a letter. -/
theorem IsHostPath.numeralsFrom_append {cs : List Char} (h : IsHostPath cs)
    (hrest : EndsWord rest) :
    numeralsFrom .plain offset (cs ++ rest) =
      numeralsFrom .plain (offset + cs.length) rest := by
  induction h generalizing offset with
  | ident hx => exact numeralsFrom_letters hx.start hx.word hrest
  | @dot x path hx _ ih =>
    rw [List.append_assoc, List.cons_append,
      numeralsFrom_letters hx.start hx.word (endsWord_dot _), numeralsFrom_skip (by decide), ih]
    simp only [List.length_append, List.length_cons, Nat.add_assoc, Nat.add_comm 1]

/-- A numeral is taken note of as a whole. -/
theorem IsNumeral.numeralsFrom_append {cs : List Char} (h : IsNumeral cs) (hrest : EndsWord rest) :
    numeralsFrom .plain offset (cs ++ rest) =
      ⟨offset, String.ofList cs⟩ :: numeralsFrom .plain (offset + cs.length) rest := by
  have hstop : ∀ b ∈ rest.head?, b.isDigit = false := by
    intro b hb
    by_contra hd
    rw [Bool.not_eq_false] at hd
    exact absurd (isWordChar_of_isDigit hd) (by simp [hrest b hb])
  -- either a digit or the minus sign comes first, and digits after it
  obtain ⟨c, ds, rfl, hslash, hstarts, hds⟩ : ∃ c ds, cs = c :: ds ∧ c ≠ '/' ∧
      startsNumeral c (ds ++ rest) = true ∧ ∀ d ∈ ds, d.isDigit = true := by
    obtain ⟨digits, hne, hdigits, hcs⟩ := h
    obtain ⟨d, ds, rfl⟩ := List.exists_cons_of_ne_nil hne
    have hall := hdigits
    rw [List.forall_mem_cons] at hdigits
    rcases hcs with rfl | rfl
    · refine ⟨d, ds, rfl, ?_, by simp [startsNumeral, hdigits.1], hdigits.2⟩
      rintro rfl
      cases hdigits.1
    · exact ⟨'-', d :: ds, rfl, by decide, by simp [startsNumeral, hdigits.1], hall⟩
  rw [List.cons_append, numeralsFrom, if_neg Region.noConfusion, if_neg (by simp),
    if_neg fun h => hslash h.1, if_pos hstarts, takeWhile_append_of_stop hds hstop,
    numeralsFrom_word (isWordChar_of_digits hds), hrest.numeralsFrom_eq, List.length_cons,
    Nat.add_right_comm offset 1, Nat.add_assoc offset]

/-- A mark holds no numeral. -/
theorem Mark.numeralsFrom_append (m : Mark) :
    numeralsFrom .plain offset (m.chars ++ rest) =
      numeralsFrom .plain (offset + m.chars.length) rest := by
  cases m with
  | arrow =>
    -- its minus sign has no digit behind it
    show numeralsFrom .plain offset ('-' :: '>' :: rest) = numeralsFrom .plain (offset + 2) rest
    rw [numeralsFrom_other rfl (by decide) fun _ => rfl, numeralsFrom_skip (by decide)]
  | _ => exact numeralsFrom_skip (by decide)

/-- **A token** is passed over, unless it is a number. -/
theorem Terminal.numeralsFrom_append {t : Terminal} (ht : t.Valid) (hrest : Apart t.chars rest) :
    numeralsFrom .plain offset (t.chars ++ rest) = (Token.literal? ⟨offset, t⟩).toList ++
      numeralsFrom .plain (offset + t.chars.length) rest := by
  cases t with
  | mark m => exact m.numeralsFrom_append
  | keyword k =>
    obtain ⟨c, cs, hspelling, hc⟩ := k.exists_spelling
    have hne : k.spelling.toList ≠ [] := hspelling ▸ List.cons_ne_nil c cs
    have hstart : k.spelling.toList.head?.any isWordStart = true := hspelling ▸ hc
    exact numeralsFrom_letters hstart k.isWordChar_spelling
      (hrest.endsWord (exists_getLast_isWordChar hne k.isWordChar_spelling))
  | ident name =>
    exact numeralsFrom_letters ht.start ht.word
      (hrest.endsWord (exists_getLast_isWordChar ht.ne_nil ht.word))
  | number text =>
    have hends := hrest.endsWord (IsNumeral.exists_getLast ht)
    refine (IsNumeral.numeralsFrom_append ht hends).trans ?_
    rw [String.ofList_toList]
    rfl
  | hostPath path =>
    exact IsHostPath.numeralsFrom_append ht (hrest.endsWord (IsHostPath.exists_getLast ht))

end Tokens

/-- The numerals between two places of a text are the literals among its tokens. -/
theorem Spans.numeralsFrom_eq {c cEnd : Cursor} {ts : List Token} (h : Spans c ts cEnd)
    (hEnd : cEnd.AtEnd) (hfollowed : Followed (lexemes ts) []) :
    numeralsFrom .plain c.offset c.rest = literals ts := by
  induction ts generalizing c with
  | nil => exact (h.atEnd hEnd).lastGap.numeralsFrom_eq
  | cons t ts ih =>
    -- by induction on the tokens: layout first, then the token, then what is behind it
    obtain ⟨g, rest, hrest, hoffset, hg, hvalid, hapart, hspans⟩ := h.exists_token hEnd hfollowed
    have hlater := ih hspans hfollowed.2
    rw [hrest, hg.numeralsFrom_append, ← hoffset]
    refine (Terminal.numeralsFrom_append hvalid hapart).trans ?_
    rw [show t.terminal.chars = t.chars from rfl, hlater]
    cases hliteral : t.literal? with
    | none => exact (List.filterMap_cons_none hliteral).symm
    | some l => exact (List.filterMap_cons_some hliteral).symm

/-- **The numerals of a text** are the literals of the program that it is matched as. -/
theorem numerals_eq_constants {text : List Char} {q : Program Literal}
    (h : matchProgram text = .ok q) : numerals text = q.constants := by
  obtain ⟨ts, cEnd, hspans, hEnd, hts⟩ := matchProgram_iff_derives.1 h
  rw [hts.constants_eq]
  exact hspans.numeralsFrom_eq hEnd hts.followed

end Kelp.Grammar
