import Kelp.Proofs.Grammar.Spacing

/-!
# Stripped texts

Which comments and blanks a text has does not matter, only where some are.

- `strip` puts a space for each comment, and then a space for each run of blanks.
- `stripped_cases`: the layout in front of a text becomes at most one space, none if there was none
  before, and nothing else changes.
- `layout_stripped_iff`: a text lays out the same tokens as its stripped form.

A slash needs care in both steps. In a comment it opens no other one, so comments are found from
left to right. Two slashes that are not next to each other stay so, since a space is left between
them.
-/

namespace Kelp.Grammar

/-! ## Definitions -/

mutual

/-- The text with a space for each comment, which goes up to the end of its line. -/
def blankComments : List Char → List Char
  | [] => []
  | '/' :: '/' :: rest => ' ' :: dropComment rest
  | c :: rest => c :: blankComments rest

/-- What is left of a text that starts inside a comment. -/
def dropComment : List Char → List Char
  | [] => []
  | c :: rest => if c = '\n' then '\n' :: blankComments rest else dropComment rest

end

/-- The text with a space for each run of blanks. The last blank of a run becomes the space. -/
def collapse : List Char → List Char
  | [] => []
  | c :: rest =>
    if isBlank c = true then
      if rest.head?.any isBlank = true then collapse rest else ' ' :: collapse rest
    else c :: collapse rest

/-- The characters of a text without its layout, but for a space where there was some. -/
def stripped (text : List Char) : List Char := collapse (blankComments text)

/-- The text without its layout, but for a space where there was some. -/
def strip (source : String) : String := String.ofList (stripped source.toList)

/-! ## Comments -/

/-- A character that opens no comment stays. -/
theorem blankComments_cons {c : Char} {rest : List Char}
    (h : ∀ rest', c :: rest ≠ '/' :: '/' :: rest') :
    blankComments (c :: rest) = c :: blankComments rest := by
  rw [blankComments]
  rintro rest' rfl rfl
  exact h rest' rfl

/-- A comment ends with its line. -/
theorem dropComment_line {body : List Char} (h : '\n' ∉ body) (rest : List Char) :
    dropComment (body ++ '\n' :: rest) = '\n' :: blankComments rest := by
  induction body with
  | nil => rfl
  | cons c body ih =>
    rw [List.mem_cons, not_or] at h
    rw [List.cons_append, dropComment, if_neg (Ne.symm h.1), ih h.2]

/-- A comment may end with the text. -/
theorem dropComment_last {body : List Char} (h : '\n' ∉ body) : dropComment body = [] := by
  induction body with
  | nil => rfl
  | cons c body ih =>
    rw [List.mem_cons, not_or] at h
    rw [dropComment, if_neg (Ne.symm h.1), ih h.2]

/-- A gap becomes blanks. -/
theorem Gap.exists_blanks {g : List Char} (h : Gap g) (rest : List Char) :
    ∃ blanks, (∀ c ∈ blanks, isBlank c = true) ∧ (blanks = [] ↔ g = []) ∧
      blankComments (g ++ rest) = blanks ++ blankComments rest := by
  induction h with
  | nil => exact ⟨[], by simp, by simp, rfl⟩
  | @blank c g hc _ ih =>
    obtain ⟨blanks, hblanks, -, heq⟩ := ih
    refine ⟨c :: blanks, List.forall_mem_cons.2 ⟨hc, hblanks⟩, by simp, ?_⟩
    rw [List.cons_append, blankComments_cons, heq, List.cons_append]
    -- a blank is no slash
    intro rest' h
    rw [(List.cons.inj h).1] at hc
    cases hc
  | @comment body g hbody _ ih =>
    obtain ⟨blanks, hblanks, -, heq⟩ := ih
    refine ⟨' ' :: '\n' :: blanks, ?_, by simp, ?_⟩
    · exact List.forall_mem_cons.2 ⟨rfl, List.forall_mem_cons.2 ⟨rfl, hblanks⟩⟩
    · rw [List.cons_append, List.cons_append, List.append_assoc, List.cons_append, blankComments,
        dropComment_line hbody, heq]
      rfl

/-- Layout at the end of the text becomes blanks. -/
theorem LastGap.exists_blanks {g : List Char} (h : LastGap g) :
    ∃ blanks, (∀ c ∈ blanks, isBlank c = true) ∧ blankComments g = blanks := by
  cases h with
  | gap hg =>
    obtain ⟨blanks, hblanks, -, heq⟩ := hg.exists_blanks []
    rw [List.append_nil] at heq
    refine ⟨_, ?_, heq⟩
    rw [blankComments, List.append_nil]
    exact hblanks
  | @comment g body hg hbody =>
    obtain ⟨blanks, hblanks, -, heq⟩ := hg.exists_blanks ('/' :: '/' :: body)
    refine ⟨_, ?_, heq⟩
    rw [blankComments, dropComment_last hbody, List.forall_mem_append, List.forall_mem_singleton]
    exact ⟨hblanks, rfl⟩

/-! ## Runs of blanks -/

/-- A run of blanks becomes one space. -/
theorem collapse_append {blanks rest : List Char} (hblanks : ∀ c ∈ blanks, isBlank c = true)
    (hne : blanks ≠ []) (hrest : rest.head?.any isBlank = false) :
    collapse (blanks ++ rest) = ' ' :: collapse rest := by
  induction blanks with
  | nil => exact absurd rfl hne
  | cons c blanks ih =>
    rw [List.forall_mem_cons] at hblanks
    rw [List.cons_append, collapse, if_pos hblanks.1]
    cases blanks with
    | nil => rw [List.nil_append, hrest, if_neg Bool.false_ne_true]
    | cons d blanks =>
      have hd : ((d :: blanks) ++ rest).head?.any isBlank = true := hblanks.2 d List.mem_cons_self
      rw [if_pos hd, ih hblanks.2 (List.cons_ne_nil d blanks)]

/-! ## Layout in front -/

/-- A character that starts no layout stays. -/
theorem Bare.stripped_cons {c : Char} {rest : List Char} (h : Bare (c :: rest)) :
    stripped (c :: rest) = c :: stripped rest := by
  cases h with
  | cons hblank hcomment =>
    rw [stripped, blankComments_cons hcomment, collapse, hblank, if_neg Bool.false_ne_true,
      stripped]

theorem Bare.head?_blankComments {s : List Char} (h : Bare s) :
    (blankComments s).head?.any isBlank = false := by
  cases h with
  | nil => rfl
  | cons hblank hcomment =>
    rw [blankComments_cons hcomment]
    exact hblank

/-- A gap becomes one space, if it is not empty. -/
theorem Gap.exists_stripped {g rest : List Char} (hg : Gap g) (hrest : Bare rest) :
    ∃ g', (g' = [] ∨ g' = [' ']) ∧ (g' = [] ↔ g = []) ∧
      stripped (g ++ rest) = g' ++ stripped rest := by
  obtain ⟨blanks, hblanks, hnil, heq⟩ := hg.exists_blanks rest
  -- blanks are left of the gap unless it is empty, and then they make one run
  by_cases hne : blanks = []
  · subst hne
    exact ⟨[], .inl rfl, hnil, by rw [stripped, heq, List.nil_append, List.nil_append, stripped]⟩
  · refine ⟨[' '], .inr rfl, by simpa using mt hnil.2 hne, ?_⟩
    rw [stripped, heq, collapse_append hblanks hne hrest.head?_blankComments]
    rfl

/-- Layout at the end of the text becomes at most one space. -/
theorem LastGap.stripped_eq {g : List Char} (h : LastGap g) :
    stripped g = [] ∨ stripped g = [' '] := by
  obtain ⟨blanks, hblanks, heq⟩ := h.exists_blanks
  rw [stripped, heq]
  by_cases hne : blanks = []
  · subst hne
    exact .inl rfl
  · have hspace : collapse (blanks ++ []) = ' ' :: collapse [] :=
      collapse_append hblanks hne rfl
    rw [List.append_nil] at hspace
    exact .inr hspace

theorem gap_of_eq {g : List Char} (h : g = [] ∨ g = [' ']) : Gap g := by
  rcases h with rfl | rfl
  · exact .nil
  · exact .blank rfl .nil

/-- **A text and its stripped form side by side**: either both are layout, or the same character
stands in both behind the layout in front. -/
theorem stripped_cases (s : List Char) :
    LastGap s ∧ (stripped s = [] ∨ stripped s = [' ']) ∨
    ∃ g g' c rest, Gap g ∧ (g' = [] ∨ g' = [' ']) ∧ (g' = [] ↔ g = []) ∧ Bare (c :: rest) ∧
      s = g ++ c :: rest ∧ stripped s = g' ++ c :: stripped rest := by
  obtain ⟨g, rest, rfl, -, hg⟩ := exists_gap_skipLayout 0 s
  rcases hg with ⟨hg, hrest⟩ | ⟨hg, rfl⟩
  · cases rest with
    | nil =>
      rw [List.append_nil]
      exact .inl ⟨.gap hg, (LastGap.gap hg).stripped_eq⟩
    | cons c rest =>
      obtain ⟨g', hg', hnil, heq⟩ := hg.exists_stripped hrest
      rw [hrest.stripped_cons] at heq
      exact .inr ⟨g, g', c, rest, hg, hg', hnil, hrest, rfl, heq⟩
  · rw [List.append_nil]
    exact .inl ⟨hg, hg.stripped_eq⟩

/-- Where the stripped form has no blank in front, nothing was stripped there. -/
theorem mem_head?_of_stripped {s : List Char} {b : Char} (hb : b ∈ (stripped s).head?)
    (hblank : isBlank b = false) : b ∈ s.head? := by
  have hspace : ∀ {rest : List Char}, b ∈ ([' '] ++ rest).head? → False := by
    intro rest h
    cases h
    cases hblank
  rcases stripped_cases s with ⟨-, hs | hs⟩ | ⟨g, g', c, rest, -, hg', hnil, -, rfl, hs⟩
  · rw [hs] at hb
    cases hb
  · rw [hs] at hb
    exact absurd hb hspace
  · rw [hs] at hb
    -- the layout in front is empty in both or in none of them
    rcases hg' with rfl | rfl
    · rwa [hnil.1 rfl]
    · exact absurd hb hspace

/-- Stripping leaves two slashes apart that do not open a comment. -/
theorem Bare.cons_stripped {c : Char} {rest : List Char} (h : Bare (c :: rest)) :
    Bare (c :: stripped rest) := by
  cases h with
  | cons hblank hcomment =>
    refine .cons hblank fun rest' heq => ?_
    obtain ⟨rfl, hrest⟩ := List.cons.inj heq
    -- a slash in front of the stripped rest stood in front of the rest
    have hslash : '/' ∈ rest.head? := mem_head?_of_stripped (hrest ▸ rfl) rfl
    obtain ⟨rest, rfl⟩ := List.head?_eq_some_iff.1 hslash
    exact hcomment rest rfl

/-! ## Tokens -/

theorem startsToken_of_word {cs : List Char} (h : ∀ c ∈ cs, isWordChar c = true) :
    ∀ c ∈ cs, StartsToken c :=
  fun c hc => startsToken_of_isWordChar (h c hc)

theorem IsNumeral.startsToken {cs : List Char} (h : IsNumeral cs) : ∀ c ∈ cs, StartsToken c := by
  obtain ⟨digits, -, hdigits, hcs⟩ := h
  have hdigits := startsToken_of_word (isWordChar_of_digits hdigits)
  rcases hcs with rfl | rfl
  · exact hdigits
  · exact List.forall_mem_cons.2 ⟨⟨rfl, by decide⟩, hdigits⟩

theorem IsHostPath.startsToken {cs : List Char} (h : IsHostPath cs) : ∀ c ∈ cs, StartsToken c := by
  induction h with
  | ident hx => exact startsToken_of_word hx.word
  | dot hx _ ih =>
    exact List.forall_mem_append.2
      ⟨startsToken_of_word hx.word, List.forall_mem_cons.2 ⟨⟨rfl, by decide⟩, ih⟩⟩

theorem Mark.startsToken (m : Mark) : ∀ c ∈ m.chars, StartsToken c := by
  have hall : (m.chars.all fun c => !isBlank c && c != '/') = true := by
    cases m <;> rfl
  intro c hc
  simpa [StartsToken] using List.all_eq_true.1 hall c hc

/-- No layout stands inside a token. -/
theorem Terminal.startsToken_of_mem {t : Terminal} (ht : t.Valid) :
    ∀ c ∈ t.chars, StartsToken c := by
  cases t with
  | mark m => exact m.startsToken
  | keyword k => exact startsToken_of_word k.isWordChar_spelling
  | ident name => exact startsToken_of_word ht.word
  | number text => exact IsNumeral.startsToken ht
  | hostPath path => exact IsHostPath.startsToken ht

/-- Tokens stay as they are. -/
theorem stripped_append {cs : List Char} (h : ∀ c ∈ cs, StartsToken c) (rest : List Char) :
    stripped (cs ++ rest) = cs ++ stripped rest := by
  induction cs with
  | nil => rfl
  | cons c cs ih =>
    rw [List.forall_mem_cons] at h
    rw [List.cons_append, (bare_of_startsToken h.1 _).stripped_cons, ih h.2, List.cons_append]

/-- Characters of a token in front of the stripped form stand in front of the text. -/
theorem exists_append_of_stripped {cs rest' : List Char} (h : ∀ c ∈ cs, StartsToken c)
    {s : List Char} (hs : stripped s = cs ++ rest') :
    ∃ rest, s = cs ++ rest ∧ stripped rest = rest' := by
  induction cs generalizing s with
  | nil => exact ⟨s, rfl, hs⟩
  | cons c cs ih =>
    rw [List.forall_mem_cons] at h
    have hc : c ∈ s.head? := mem_head?_of_stripped (hs ▸ rfl) h.1.1
    obtain ⟨s, rfl⟩ := List.head?_eq_some_iff.1 hc
    rw [(bare_of_startsToken h.1 s).stripped_cons] at hs
    obtain ⟨rest, rfl, hrest⟩ := ih h.2 (List.cons.inj hs).2
    exact ⟨rest, rfl, hrest⟩

/-- A word goes on in a text exactly if it does in the stripped form. -/
theorem apart_stripped_iff {cs rest : List Char} : Apart cs (stripped rest) ↔ Apart cs rest := by
  have hhead : ∀ b, isWordChar b = true → (b ∈ (stripped rest).head? ↔ b ∈ rest.head?) := by
    intro b hword
    have hb := startsToken_of_isWordChar hword
    refine ⟨fun h => mem_head?_of_stripped h hb.1, fun h => ?_⟩
    obtain ⟨rest, rfl⟩ := List.head?_eq_some_iff.1 h
    rw [(bare_of_startsToken hb rest).stripped_cons]
    rfl
  constructor
  · intro h a ha b hb hword
    exact h a ha b ((hhead b hword.2).2 hb) hword
  · intro h a ha b hb hword
    exact h a ha b ((hhead b hword.2).1 hb) hword

/-! ## Layouts -/

/-- Gaps end where no layout stands. -/
theorem gap_append_inj {g g' rest rest' : List Char} (hg : Gap g) (hg' : Gap g')
    (hrest : Bare rest) (hrest' : Bare rest') (h : g ++ rest = g' ++ rest') :
    g = g' ∧ rest = rest' := by
  have hskip := congrArg (skipLayout 0) h
  rw [hg.skipLayout_append, hg'.skipLayout_append, hrest.skipLayout, hrest'.skipLayout] at hskip
  obtain rfl : rest = rest' := congrArg Cursor.rest hskip
  exact ⟨List.append_cancel_right h, rfl⟩

theorem Terminal.chars_ne_nil {t : Terminal} (ht : t.Valid) : t.chars ≠ [] := by
  refine Lexeme.matched_ne_nil t.lexeme_ne_endOfText (Terminal.matched_chars ht (apart_nil _) ?_)
  rintro - ⟨⟩

/-- No layout stands in front of a token. -/
theorem bare_chars_append {t : Terminal} (ht : t.Valid) (rest : List Char) :
    Bare (t.chars ++ rest) := by
  obtain ⟨c, cs, hcs⟩ := List.exists_cons_of_ne_nil (Terminal.chars_ne_nil ht)
  rw [hcs, List.cons_append]
  exact bare_of_startsToken (Terminal.startsToken_of_mem ht c (hcs ▸ List.mem_cons_self)) _

/-- The stripped form lays out the tokens of the text. -/
theorem Layout.stripped {ws : List Terminal} {s : List Char} (h : Layout ws s) :
    Layout ws (stripped s) := by
  induction h with
  | done hg => exact .done (.gap (gap_of_eq hg.stripped_eq))
  | token hg ht hapart _ ih =>
    obtain ⟨g', hg', -, heq⟩ := hg.exists_stripped (bare_chars_append ht _)
    rw [heq, stripped_append (Terminal.startsToken_of_mem ht)]
    exact .token (gap_of_eq hg') ht (apart_stripped_iff.2 hapart) ih

/-- The text lays out the tokens of its stripped form. By induction on the latter: the text is split
where the stripped form is. -/
theorem Layout.of_stripped {ws : List Terminal} {s' : List Char} (h : Layout ws s') :
    ∀ {s : List Char}, Grammar.stripped s = s' → Layout ws s := by
  induction h with
  | done hg =>
    rintro s rfl
    rcases stripped_cases s with ⟨hs, -⟩ | ⟨g, g', c, rest, -, hg', -, hbare, -, heq⟩
    · exact .done hs
    · -- the character behind the layout would be layout itself
      have hskip := congrArg Cursor.rest (hg.skipLayout_eq 0)
      rw [heq, (gap_of_eq hg').skipLayout_append, hbare.cons_stripped.skipLayout] at hskip
      cases hskip
  | @token g₁ rest₁ t ts hg₁ ht hapart _ ih =>
    intro s hs
    have hbare₁ := bare_chars_append ht rest₁
    rcases stripped_cases s with ⟨-, hspace⟩ | ⟨g, g', c, rest, hg, hg', -, hbare, rfl, heq⟩
    · -- a token stands in the stripped form, so it is not all layout
      have hskip := congrArg Cursor.rest ((LastGap.gap (gap_of_eq hspace)).skipLayout_eq 0)
      rw [hs, hg₁.skipLayout_append, hbare₁.skipLayout] at hskip
      exact absurd (List.append_eq_nil_iff.1 hskip).1 (Terminal.chars_ne_nil ht)
    · -- the gaps may differ, but the same characters stand behind them
      rw [hs] at heq
      obtain ⟨-, hrest⟩ := gap_append_inj hg₁ (gap_of_eq hg') hbare₁ hbare.cons_stripped heq
      rw [← hbare.stripped_cons] at hrest
      obtain ⟨rest₂, hrest₂, hstripped⟩ :=
        exists_append_of_stripped (Terminal.startsToken_of_mem ht) hrest.symm
      rw [hrest₂]
      exact .token hg ht (apart_stripped_iff.1 (hstripped ▸ hapart)) (ih hstripped)

/-- **Layout does not matter**: a text lays out the tokens of its stripped form. -/
theorem layout_stripped_iff {ws : List Terminal} {s : List Char} :
    Layout ws (stripped s) ↔ Layout ws s :=
  ⟨fun h => h.of_stripped rfl, Layout.stripped⟩

end Kelp.Grammar
