import Mathlib.Data.List.Forall2
import Kelp.SExpr.Reader

/-!
# Tokens and trees of S-expressions

What the reader of S-expressions makes of a text, in two steps as the reader itself works.

- `tokenList` has the tokens of a tree. `nest_eq_some_iff`: token lists and lists of trees stand for
  each other, so the trees of a token list can be taken apart at either end (`exists_append_right`,
  `exists_append_left`), and a list that is closed somewhere is a node of a tree
  (`exists_node_of_closing`).
- `Cut cs ts` says that the reader cuts the text `cs`, where a delimiter follows, into the tokens
  `ts`. `Readable` trees are made of words and of strings whose inside is closed, and `read?_text`
  reads them back from their texts. `read?_text_append_iff`: nothing but spaces may follow such a
  text. `Plain` trees are readable ones whose strings hold no quote and no backslash at all.
- `Taken cs P` says of a text that may also be refused that, if it is not, it is taken as tokens
  with the property `P`. About a string with any body at all `taken_quoted_pair` says that, with
  another string behind it, what the reader takes for it ends in a string, which the body ends
  with.
-/

namespace Kelp.SExpr

mutual

/-- The tokens of an S-expression. -/
def tokenList : SExpr → List Token
  | .atom s => [.atom s]
  | .list es => .opening :: (tokenLists es ++ [.closing])

/-- The tokens of several S-expressions. -/
def tokenLists : List SExpr → List Token
  | [] => []
  | e :: es => e.tokenList ++ tokenLists es

end

@[simp] theorem tokenLists_nil : tokenLists [] = [] := rfl

@[simp] theorem tokenLists_cons (e : SExpr) (es : List SExpr) :
    tokenLists (e :: es) = e.tokenList ++ tokenLists es := rfl

@[simp] theorem tokenLists_append (es fs : List SExpr) :
    tokenLists (es ++ fs) = tokenLists es ++ tokenLists fs := by
  induction es with
  | nil => rfl
  | cons e es ih => rw [List.cons_append, tokenLists_cons, ih, tokenLists_cons, List.append_assoc]

/-! ## Trees from tokens -/

mutual

/-- The tokens of a tree add the tree to the finished ones. -/
theorem nest_tokenList : ∀ (e : SExpr) (outer : List (List SExpr)) (done : List SExpr)
    (ts : List Token), nest outer done (e.tokenList ++ ts) = nest outer (e :: done) ts
  | .atom s, outer, done, ts => by
    rw [tokenList, List.singleton_append, nest]
  | .list es, outer, done, ts => by
    rw [tokenList, List.cons_append, nest, List.append_assoc, nest_tokenLists es, List.append_nil,
      List.singleton_append, nest, List.reverse_reverse]

theorem nest_tokenLists : ∀ (es : List SExpr) (outer : List (List SExpr)) (done : List SExpr)
    (ts : List Token),
    nest outer done (tokenLists es ++ ts) = nest outer (es.reverse ++ done) ts
  | [], _, _, _ => rfl
  | e :: es, outer, done, ts => by
    rw [tokenLists_cons, List.append_assoc, nest_tokenList e, nest_tokenLists es,
      List.reverse_cons, List.append_assoc, List.singleton_append]

end

/-- At the end of the tokens, no list may be open. -/
theorem nest_nil_eq_some_iff {outer : List (List SExpr)} {done es : List SExpr} :
    nest outer done [] = some es ↔ outer = [] ∧ es = done.reverse := by
  cases outer with
  | nil => simp [nest, eq_comm]
  | cons above outer => simp [nest]

/-- The tokens that lead to a state of the reader. -/
def consumed : (outer : List (List SExpr)) → (done : List SExpr) → List Token
  | [], done => tokenLists done.reverse
  | above :: outer, done => consumed outer above ++ .opening :: tokenLists done.reverse

/-- One more finished tree. -/
theorem consumed_cons (outer : List (List SExpr)) (e : SExpr) (done : List SExpr) :
    consumed outer (e :: done) = consumed outer done ++ e.tokenList := by
  cases outer <;> simp [consumed]

/-- The state of the reader between two parts of its tokens. -/
theorem exists_nest_append {ts us : List Token} {outer : List (List SExpr)} {done es : List SExpr}
    (h : nest outer done (ts ++ us) = some es) :
    ∃ outer' done', consumed outer' done' = consumed outer done ++ ts ∧
      nest outer' done' us = some es := by
  induction ts generalizing outer done with
  | nil => exact ⟨outer, done, (List.append_nil _).symm, h⟩
  | cons t ts ih =>
    rw [List.cons_append] at h
    cases t with
    | opening =>
      rw [nest] at h
      obtain ⟨outer', done', hstate, hrest⟩ := ih h
      refine ⟨outer', done', ?_, hrest⟩
      simp [hstate, consumed]
    | closing =>
      cases outer with
      | nil => simp [nest] at h
      | cons above outer =>
        rw [nest] at h
        obtain ⟨outer', done', hstate, hrest⟩ := ih h
        refine ⟨outer', done', ?_, hrest⟩
        simp [hstate, consumed_cons, consumed, tokenList]
    | atom s =>
      rw [nest] at h
      obtain ⟨outer', done', hstate, hrest⟩ := ih h
      refine ⟨outer', done', ?_, hrest⟩
      simp [hstate, consumed_cons, tokenList]

/-- **Token lists and lists of trees** stand for each other. -/
theorem nest_eq_some_iff {ts : List Token} {es : List SExpr} :
    nest [] [] ts = some es ↔ ts = tokenLists es := by
  constructor
  · intro h
    -- the state at the end has consumed all tokens
    rw [← List.append_nil ts] at h
    obtain ⟨outer, done, hstate, hrest⟩ := exists_nest_append h
    obtain ⟨rfl, rfl⟩ := nest_nil_eq_some_iff.1 hrest
    simpa [consumed] using hstate.symm
  · rintro rfl
    rw [← List.append_nil (tokenLists es), nest_tokenLists]
    simp [nest]

/-- The finished trees of the outermost level, the last one first. -/
def outermost : (outer : List (List SExpr)) → (done : List SExpr) → List SExpr
  | [], done => done
  | above :: outer, _ => outermost outer above

/-- The reader keeps the finished trees of the outermost level. -/
theorem exists_append_of_nest {ts : List Token} {outer : List (List SExpr)} {done es : List SExpr}
    (h : nest outer done ts = some es) : ∃ gs, es = (outermost outer done).reverse ++ gs := by
  induction ts generalizing outer done with
  | nil =>
    obtain ⟨rfl, rfl⟩ := nest_nil_eq_some_iff.1 h
    exact ⟨[], (List.append_nil _).symm⟩
  | cons t ts ih =>
    cases t with
    | opening =>
      rw [nest] at h
      obtain ⟨gs, hgs⟩ := ih h
      exact ⟨gs, hgs⟩
    | closing =>
      cases outer with
      | nil => simp [nest] at h
      | cons above outer =>
        rw [nest] at h
        obtain ⟨gs, hgs⟩ := ih h
        cases outer with
        | nil => exact ⟨.list done.reverse :: gs, by simpa [outermost] using hgs⟩
        | cons frame outer => exact ⟨gs, hgs⟩
    | atom s =>
      rw [nest] at h
      obtain ⟨gs, hgs⟩ := ih h
      cases outer with
      | nil => exact ⟨.atom s :: gs, by simpa [outermost] using hgs⟩
      | cons above outer => exact ⟨gs, hgs⟩

/-- Trees whose tokens begin with those of other trees begin with these. -/
theorem exists_append_left {es fs : List SExpr} {ts : List Token}
    (h : tokenLists es = tokenLists fs ++ ts) : ∃ gs, es = fs ++ gs ∧ tokenLists gs = ts := by
  have hnest := nest_eq_some_iff.2 h.symm
  rw [nest_tokenLists] at hnest
  obtain ⟨gs, rfl⟩ := exists_append_of_nest hnest
  simp only [outermost, List.append_nil, List.reverse_reverse, tokenLists_append,
    List.append_cancel_left_eq] at h ⊢
  exact ⟨gs, rfl, h⟩

/-- Trees whose tokens end with those of other trees end with these. -/
theorem exists_append_right {es fs : List SExpr} {ts : List Token}
    (h : tokenLists es = ts ++ tokenLists fs) : ∃ ds, es = ds ++ fs ∧ tokenLists ds = ts := by
  have hnest := nest_eq_some_iff.2 h.symm
  obtain ⟨outer, done, hstate, hrest⟩ := exists_nest_append hnest
  rw [← List.append_nil (tokenLists fs), nest_tokenLists] at hrest
  -- no list is open at the end, so none is before the last trees
  obtain ⟨rfl, rfl⟩ := nest_nil_eq_some_iff.1 hrest
  refine ⟨done.reverse, by simp, ?_⟩
  simpa [consumed] using hstate

/-! ## Nodes -/

mutual

/-- An S-expression and all that it is built from. -/
def nodes : SExpr → List SExpr
  | .atom s => [.atom s]
  | .list es => .list es :: nodesAll es

/-- The nodes of several S-expressions. -/
def nodesAll : List SExpr → List SExpr
  | [] => []
  | e :: es => e.nodes ++ nodesAll es

end

theorem mem_nodes_self (e : SExpr) : e ∈ e.nodes := by
  cases e with
  | atom s => exact List.mem_singleton_self _
  | list es => exact List.mem_cons_self

/-- A node of several trees is a node of one of them. -/
theorem mem_nodesAll {z : SExpr} {es : List SExpr} :
    z ∈ nodesAll es ↔ ∃ e ∈ es, z ∈ e.nodes := by
  induction es with
  | nil => simp [nodesAll]
  | cons e es ih => simp [nodesAll, ih]

/-- What the reader has put together stays a node of what it gives. -/
theorem mem_nodesAll_of_nest {ts : List Token} {outer : List (List SExpr)} {done es : List SExpr}
    (h : nest outer done ts = some es) {frame : List SExpr} (hframe : frame ∈ done :: outer)
    {z : SExpr} (hz : z ∈ nodesAll frame) : z ∈ nodesAll es := by
  induction ts generalizing outer done frame with
  | nil =>
    obtain ⟨rfl, rfl⟩ := nest_nil_eq_some_iff.1 h
    obtain rfl := List.mem_singleton.1 hframe
    obtain ⟨e, he, hze⟩ := mem_nodesAll.1 hz
    exact mem_nodesAll.2 ⟨e, List.mem_reverse.2 he, hze⟩
  | cons t ts ih =>
    cases t with
    | opening =>
      rw [nest] at h
      exact ih h (List.mem_cons_of_mem _ hframe) hz
    | closing =>
      cases outer with
      | nil => simp [nest] at h
      | cons above outer =>
        rw [nest] at h
        -- the closed list is a new child of the frame above it
        rcases List.mem_cons.1 hframe with rfl | hframe
        · refine ih h List.mem_cons_self ?_
          obtain ⟨e, he, hze⟩ := mem_nodesAll.1 hz
          refine mem_nodesAll.2 ⟨.list frame.reverse, List.mem_cons_self, ?_⟩
          exact List.mem_cons_of_mem _ (mem_nodesAll.2 ⟨e, List.mem_reverse.2 he, hze⟩)
        · rcases List.mem_cons.1 hframe with rfl | hframe
          · exact ih h List.mem_cons_self (List.mem_append_right _ hz)
          · exact ih h (List.mem_cons_of_mem _ hframe) hz
    | atom s =>
      rw [nest] at h
      rcases List.mem_cons.1 hframe with rfl | hframe
      · exact ih h List.mem_cons_self (List.mem_append_right _ hz)
      · exact ih h (List.mem_cons_of_mem _ hframe) hz

/-- Where a list is closed behind given trees, it ends with them and goes to the frame above it. -/
theorem exists_nest_of_closing {es fs : List SExpr} {ts us : List Token}
    (h : tokenLists es = ts ++ (tokenLists fs ++ .closing :: us)) :
    ∃ outer above cs, nest outer (.list (cs ++ fs) :: above) us = some es := by
  obtain ⟨outer, done, -, hrest⟩ := exists_nest_append (nest_eq_some_iff.2 h.symm)
  rw [nest_tokenLists] at hrest
  cases outer with
  | nil => simp [nest] at hrest
  | cons above outer =>
    rw [nest, List.reverse_append, List.reverse_reverse] at hrest
    exact ⟨outer, above, done.reverse, hrest⟩

/-- Where a list is closed behind given trees, it is a node that ends with them. -/
theorem exists_node_of_closing {es fs : List SExpr} {ts us : List Token}
    (h : tokenLists es = ts ++ (tokenLists fs ++ .closing :: us)) :
    ∃ cs, .list (cs ++ fs) ∈ nodesAll es := by
  obtain ⟨outer, above, cs, hrest⟩ := exists_nest_of_closing h
  exact ⟨cs, mem_nodesAll_of_nest hrest List.mem_cons_self
    (List.mem_append_left _ (mem_nodes_self _))⟩

/-- A list that is closed at the end is the last tree. -/
theorem exists_last_of_closing {es fs : List SExpr} {ts : List Token}
    (h : tokenLists es = ts ++ (tokenLists fs ++ [.closing])) :
    ∃ ds cs, es = ds ++ [.list (cs ++ fs)] := by
  obtain ⟨outer, above, cs, hrest⟩ := exists_nest_of_closing h
  obtain ⟨-, rfl⟩ := nest_nil_eq_some_iff.1 hrest
  exact ⟨above.reverse, cs, List.reverse_cons⟩

/-! ## Tokens of atoms -/

/-- The text is at its end or goes on with a delimiter. -/
def Delimited (rest : List Char) : Prop := rest.head?.all isDelimiter = true

theorem delimited_space (rest : List Char) : Delimited (' ' :: rest) := rfl

/-- Delimiters are spaces and parentheses. -/
theorem isDelimiter_iff {c : Char} :
    isDelimiter c = true ↔ isSpace c = true ∨ c = '(' ∨ c = ')' := by
  simp only [isDelimiter, Bool.or_eq_true, beq_iff_eq, or_assoc]

/-- A character that stands in words. -/
def IsWordChar (c : Char) : Prop := isDelimiter c = false ∧ c ≠ '"'

theorem IsWordChar.ne_delimiter {c : Char} (h : IsWordChar c) :
    isSpace c ≠ true ∧ c ≠ '(' ∧ c ≠ ')' := by
  have hstop : ¬ (isSpace c = true ∨ c = '(' ∨ c = ')') := by
    rw [← isDelimiter_iff, h.1]
    decide
  simpa only [not_or] using hstop

/-- The text of an atom that is no string. -/
def IsWord (cs : List Char) : Prop := cs ≠ [] ∧ ∀ c ∈ cs, IsWordChar c

/-- A plain atom ends at a delimiter. -/
theorem atomTokens_of_delimited {rest : List Char} (hrest : Delimited rest) (read : List Char) :
    atomTokens read rest = (tokens rest).map (.atom (String.ofList read.reverse) :: ·) := by
  cases rest with
  | nil => rfl
  | cons c rest =>
    have hc : isDelimiter c = true := hrest
    have hquote : c ≠ '"' := by
      rintro rfl
      exact absurd hc (by decide)
    by_cases hspace : isSpace c = true
    · rw [atomTokens, tokens, if_neg hquote, if_pos hspace, if_pos hspace]
    · rw [atomTokens, tokens, if_neg hquote, if_neg hspace, if_neg hspace]
      rcases isDelimiter_iff.1 hc with h | rfl | rfl
      · exact absurd h hspace
      · rw [if_pos rfl, if_pos rfl, Option.map_map]
        rfl
      · have hopening : ¬ (')' = '(') := by decide
        rw [if_neg hopening, if_neg hopening, if_pos rfl, if_pos rfl, Option.map_map]
        rfl

/-- A word goes on up to the next delimiter. -/
theorem atomTokens_append {cs rest : List Char} (hcs : ∀ c ∈ cs, IsWordChar c)
    (hrest : Delimited rest) (read : List Char) :
    atomTokens read (cs ++ rest) =
      (tokens rest).map (.atom (String.ofList (read.reverse ++ cs)) :: ·) := by
  induction cs generalizing read with
  | nil => rw [List.nil_append, List.append_nil, atomTokens_of_delimited hrest]
  | cons c cs ih =>
    obtain ⟨hc, hcs⟩ := List.forall_mem_cons.1 hcs
    obtain ⟨hspace, hopening, hclosing⟩ := hc.ne_delimiter
    rw [List.cons_append, atomTokens, if_neg hc.2, if_neg hspace, if_neg hopening,
      if_neg hclosing, ih hcs, List.reverse_cons, List.append_assoc, List.singleton_append]

/-- A word is one token. -/
theorem tokens_word {cs rest : List Char} (hcs : IsWord cs) (hrest : Delimited rest) :
    tokens (cs ++ rest) = (tokens rest).map (.atom (String.ofList cs) :: ·) := by
  obtain ⟨hne, hcs⟩ := hcs
  cases cs with
  | nil => exact absurd rfl hne
  | cons c cs =>
    obtain ⟨hc, hcs⟩ := List.forall_mem_cons.1 hcs
    obtain ⟨hspace, hopening, hclosing⟩ := hc.ne_delimiter
    rw [List.cons_append, tokens, if_neg hspace, if_neg hopening, if_neg hclosing, if_neg hc.2,
      atomTokens_append hcs hrest]
    rfl

theorem stringTokens_plain {c : Char} (hescape : c ≠ '\\') (hquote : c ≠ '"')
    {read rest : List Char} : stringTokens read (c :: rest) = stringTokens (c :: read) rest := by
  rw [stringTokens]
  · exact fun h _ => hescape h
  · exact fun _ _ h _ => hescape h
  · exact fun h => hquote h

theorem stringTokens_escape {c : Char} {read rest : List Char} :
    stringTokens read ('\\' :: c :: rest) = stringTokens (c :: '\\' :: read) rest := by
  rw [stringTokens]

/-- A quote ends a string where a delimiter follows. -/
theorem stringTokens_quote {rest : List Char} (hrest : Delimited rest) {read : List Char} :
    stringTokens read ('"' :: rest) =
      (tokens rest).map (.atom (String.ofList ('"' :: read).reverse) :: ·) := by
  have hstop : rest.head?.all isDelimiter = true := hrest
  rw [stringTokens, if_pos hstop]

/-! ### Insides of strings -/

/-- Whether a text, read as the inside of a string, has a quote that no backslash escapes. -/
def hasBareQuote : List Char → Bool
  | [] => false
  | [c] => c == '"'
  | c :: d :: rest => if c = '\\' then hasBareQuote rest else c == '"' || hasBareQuote (d :: rest)

/-- Whether a text, read as the inside of a string, ends with a backslash that is left to escape the
character behind the text. -/
def hasOpenEscape : List Char → Bool
  | [] => false
  | [c] => c == '\\'
  | c :: d :: rest => if c = '\\' then hasOpenEscape rest else hasOpenEscape (d :: rest)

/-- The inside of a string that ends where the text ends. -/
structure IsClosedBody (cs : List Char) : Prop where
  noBareQuote : hasBareQuote cs = false
  noOpenEscape : hasOpenEscape cs = false

/-- The inside of a string that holds neither a quote nor a backslash. -/
def IsPlainBody (cs : List Char) : Prop := ∀ c ∈ cs, c ≠ '"' ∧ c ≠ '\\'

instance (cs : List Char) : Decidable (IsPlainBody cs) :=
  decidable_of_iff (cs.all (fun c => decide (c ≠ '"' ∧ c ≠ '\\')) = true)
    (by simp only [List.all_eq_true, decide_eq_true_eq, IsPlainBody])

theorem isClosedBody_nil : IsClosedBody [] := ⟨rfl, rfl⟩

/-- A character without a meaning in strings does not count. -/
theorem isClosedBody_cons {c : Char} (hquote : c ≠ '"') (hescape : c ≠ '\\') {rest : List Char} :
    IsClosedBody (c :: rest) ↔ IsClosedBody rest := by
  have hbare : hasBareQuote (c :: rest) = hasBareQuote rest := by
    cases rest <;> simp [hasBareQuote, hquote, hescape]
  have hopen : hasOpenEscape (c :: rest) = hasOpenEscape rest := by
    cases rest <;> simp [hasOpenEscape, hescape]
  exact ⟨fun h => ⟨hbare ▸ h.1, hopen ▸ h.2⟩, fun h => ⟨hbare ▸ h.1, hopen ▸ h.2⟩⟩

/-- Nor does an escape with what it escapes. -/
theorem isClosedBody_escape {c : Char} {rest : List Char} :
    IsClosedBody ('\\' :: c :: rest) ↔ IsClosedBody rest :=
  ⟨fun h => ⟨h.1, h.2⟩, fun h => ⟨h.1, h.2⟩⟩

theorem IsPlainBody.isClosedBody_append {cs rest : List Char} (h : IsPlainBody cs) :
    IsClosedBody (cs ++ rest) ↔ IsClosedBody rest := by
  induction cs with
  | nil => rfl
  | cons c cs ih =>
    obtain ⟨hc, hcs⟩ := List.forall_mem_cons.1 h
    rw [List.cons_append, isClosedBody_cons hc.1 hc.2, ih hcs]

theorem IsPlainBody.isClosedBody {cs : List Char} (h : IsPlainBody cs) : IsClosedBody cs := by
  rw [← List.append_nil cs, h.isClosedBody_append]
  exact isClosedBody_nil

/-- A closed inside goes on up to the quote behind it. By the cases of `hasBareQuote`, which takes
an escape at once. -/
theorem stringTokens_append {cs rest : List Char} (hcs : IsClosedBody cs) (hrest : Delimited rest)
    (read : List Char) :
    stringTokens read (cs ++ '"' :: rest) =
      (tokens rest).map (.atom (String.ofList (read.reverse ++ (cs ++ ['"']))) :: ·) := by
  obtain ⟨hquote, hescape⟩ := hcs
  fun_induction hasBareQuote cs generalizing read with
  | case1 => rw [List.nil_append, stringTokens_quote hrest, List.reverse_cons, List.nil_append]
  | case2 c =>
    have hc : c ≠ '"' := by simpa using hquote
    have hc' : c ≠ '\\' := by simpa [hasOpenEscape] using hescape
    rw [List.singleton_append, stringTokens_plain hc' hc, stringTokens_quote hrest]
    simp
  | case3 d rest' ih =>
    rw [hasOpenEscape, if_pos rfl] at hescape
    rw [List.cons_append, List.cons_append, stringTokens_escape, ih _ hquote hescape]
    simp
  | case4 c d rest' hc ih =>
    rw [hasOpenEscape, if_neg hc] at hescape
    rw [Bool.or_eq_false_iff, beq_eq_false_iff_ne] at hquote
    rw [List.cons_append, stringTokens_plain hc hquote.1, ih _ hquote.2 hescape]
    simp

/-- A string whose inside is closed is one token. -/
theorem tokens_string {cs rest : List Char} (hcs : IsClosedBody cs) (hrest : Delimited rest) :
    tokens ('"' :: (cs ++ '"' :: rest)) =
      (tokens rest).map (.atom (String.ofList ('"' :: (cs ++ ['"']))) :: ·) := by
  rw [tokens, if_neg (by decide), if_neg (by decide), if_neg (by decide), if_pos rfl,
    stringTokens_append hcs hrest]
  rfl

/-! ## Tokens of texts -/

/-- The reader cuts the text, if a delimiter or nothing follows it, into the given tokens. -/
def Cut (cs : List Char) (ts : List Token) : Prop :=
  ∀ rest, Delimited rest → tokens (cs ++ rest) = (tokens rest).map (ts ++ ·)

/-- The reader takes the text, if a delimiter or nothing follows it, as tokens with the given
property. -/
def Taken (cs : List Char) (P : List Token → Prop) : Prop :=
  ∀ (rest : List Char) (us : List Token), Delimited rest → tokens (cs ++ rest) = some us →
    ∃ ts vs, P ts ∧ tokens rest = some vs ∧ us = ts ++ vs

/-- What is cut into tokens is taken as these. -/
theorem Cut.taken {cs : List Char} {ts : List Token} (h : Cut cs ts) : Taken cs (· = ts) := by
  intro rest us hrest hus
  rw [h rest hrest] at hus
  obtain ⟨vs, hvs, rfl⟩ := Option.map_eq_some_iff.1 hus
  exact ⟨ts, vs, rfl, hvs, rfl⟩

/-- A word is cut into one token. -/
theorem cut_word {s : String} (hs : IsWord s.toList) : Cut s.toList [.atom s] := by
  intro rest hrest
  rw [tokens_word hs hrest, String.ofList_toList]
  rfl

/-- So is a string with a closed inside. -/
theorem cut_quoted {body : String} (hbody : IsClosedBody body.toList) :
    Cut (quoted body).text.toList [.atom (quoted body).text] := by
  have htext : (quoted body).text.toList = '"' :: (body.toList ++ ['"']) := by
    simp [quoted, text]
  intro rest hrest
  have hshape : (quoted body).text.toList ++ rest = '"' :: (body.toList ++ '"' :: rest) := by
    rw [htext]
    simp
  rw [hshape, tokens_string hbody hrest, ← htext, String.ofList_toList]
  rfl

theorem texts_eq_map (es : List SExpr) : texts es = es.map text := by
  induction es with
  | nil => rfl
  | cons e es ih => rw [texts, ih, List.map_cons]

/-- The text of a list, from the texts of its children. -/
theorem text_list (es : List SExpr) :
    (SExpr.list es).text.toList =
      '(' :: ([' '].intercalate (es.map fun e => e.text.toList) ++ [')']) := by
  rw [text, texts_eq_map, String.toList_append, String.toList_append, String.toList_intercalate,
    List.map_map]
  rfl

theorem tokens_space (rest : List Char) : tokens (' ' :: rest) = tokens rest := by
  rw [tokens, if_pos (by decide)]

/-- Texts with a space between two of them: the first one, and the rest. -/
theorem intercalate_cons_cons (e e' : SExpr) (es : List SExpr) (rest : List Char) :
    [' '].intercalate ((e :: e' :: es).map fun e => e.text.toList) ++ rest =
      e.text.toList ++
        ' ' :: ([' '].intercalate ((e' :: es).map fun e => e.text.toList) ++ rest) := by
  simp [List.intercalate]

theorem intercalate_singleton (e : SExpr) :
    [' '].intercalate ([e].map fun e => e.text.toList) = e.text.toList := by
  simp [List.intercalate]

/-- Texts with a space between two of them are cut one by one. -/
theorem cut_intercalate {es : List SExpr}
    (h : ∀ e ∈ es, Cut e.text.toList e.tokenList) :
    Cut ([' '].intercalate (es.map fun e => e.text.toList)) (tokenLists es) := by
  induction es with
  | nil =>
    intro rest _
    simp
  | cons e es ih =>
    rw [List.forall_mem_cons] at h
    intro rest hrest
    cases es with
    | nil => rw [intercalate_singleton, h.1 rest hrest, tokenLists_cons, tokenLists_nil,
        List.append_nil]
    | cons e' es =>
      rw [intercalate_cons_cons, h.1 _ (delimited_space _), tokens_space, ih h.2 rest hrest,
        Option.map_map]
      simp [Function.comp_def]

/-- Texts with a space between two of them are taken one after the other. -/
theorem taken_intercalate {es : List SExpr} {Ps : List (List Token → Prop)}
    (h : List.Forall₂ (fun e P => Taken e.text.toList P) es Ps) :
    Taken ([' '].intercalate (es.map fun e => e.text.toList))
      fun ts => ∃ tss, List.Forall₂ (fun P ts => P ts) Ps tss ∧ ts = tss.flatten := by
  induction h with
  | nil =>
    intro rest us _ hus
    exact ⟨[], us, ⟨[], .nil, rfl⟩, hus, rfl⟩
  | @cons e P es Ps he hes ih =>
    intro rest us hrest hus
    cases es with
    | nil =>
      cases hes
      rw [intercalate_singleton] at hus
      obtain ⟨ts, vs, hts, hvs, rfl⟩ := he rest us hrest hus
      exact ⟨ts, vs, ⟨[ts], .cons hts .nil, by simp⟩, hvs, rfl⟩
    | cons e' es =>
      rw [intercalate_cons_cons] at hus
      obtain ⟨ts, vs, hts, hvs, rfl⟩ := he _ us (delimited_space _) hus
      rw [tokens_space] at hvs
      obtain ⟨_, ws, ⟨tss, htss, rfl⟩, hws, rfl⟩ := ih rest vs hrest hvs
      exact ⟨_, ws, ⟨ts :: tss, .cons hts htss, rfl⟩, hws, by simp⟩

/-- A list is taken as its children between parentheses. -/
theorem taken_list {es : List SExpr} {Ps : List (List Token → Prop)}
    (h : List.Forall₂ (fun e P => Taken e.text.toList P) es Ps) :
    Taken (SExpr.list es).text.toList fun ts =>
      ∃ tss, List.Forall₂ (fun P ts => P ts) Ps tss ∧
        ts = .opening :: (tss.flatten ++ [.closing]) := by
  intro rest us hrest hus
  rw [text_list, List.cons_append, List.append_assoc, List.singleton_append, tokens,
    if_neg (by decide), if_pos rfl] at hus
  obtain ⟨inner, hinner, rfl⟩ := Option.map_eq_some_iff.1 hus
  obtain ⟨_, vs, ⟨tss, htss, rfl⟩, hvs, rfl⟩ := taken_intercalate h (')' :: rest) inner rfl hinner
  rw [tokens, if_neg (by decide), if_neg (by decide), if_pos rfl] at hvs
  obtain ⟨ws, hws, rfl⟩ := Option.map_eq_some_iff.1 hvs
  exact ⟨_, ws, ⟨tss, htss, rfl⟩, hws, by simp⟩

mutual

/-- All atoms are words or strings whose inside is closed. -/
def Readable : SExpr → Prop
  | .atom s => IsWord s.toList ∨ ∃ body : String, .atom s = quoted body ∧ IsClosedBody body.toList
  | .list es => AllReadable es

/-- Readable S-expressions. -/
def AllReadable : List SExpr → Prop
  | [] => True
  | e :: es => e.Readable ∧ AllReadable es

end

theorem allReadable_iff {es : List SExpr} : AllReadable es ↔ ∀ e ∈ es, e.Readable := by
  induction es with
  | nil => simp [AllReadable]
  | cons e es ih => simp [AllReadable, ih]

/-- A word, or a string whose inside holds neither a quote nor a backslash. -/
def IsPlainAtom (s : String) : Prop :=
  IsWord s.toList ∨ ∃ body : String, s = "\"" ++ body ++ "\"" ∧ IsPlainBody body.toList

/-- All atoms are words, or strings without quotes and backslashes inside. -/
def Plain (e : SExpr) : Prop := ∀ s, .atom s ∈ e.nodes → IsPlainAtom s

theorem plain_atom {s : String} : (SExpr.atom s).Plain ↔ IsPlainAtom s := by
  simp [Plain, nodes]

theorem plain_list {es : List SExpr} : (SExpr.list es).Plain ↔ ∀ e ∈ es, e.Plain := by
  simp only [Plain, nodes, List.mem_cons, reduceCtorEq, false_or, mem_nodesAll]
  exact ⟨fun h e he s hs => h s ⟨e, he, hs⟩, fun h s ⟨e, he, hs⟩ => h e he s hs⟩

mutual

/-- Plain S-expressions are readable. -/
theorem Plain.readable : ∀ {e : SExpr}, e.Plain → e.Readable
  | .atom s, h => by
    rcases plain_atom.1 h with hword | ⟨body, hs, hbody⟩
    · exact Or.inl hword
    · exact Or.inr ⟨body, congrArg SExpr.atom hs, hbody.isClosedBody⟩
  | .list es, h => allReadable_of_plain (plain_list.1 h)

theorem allReadable_of_plain : ∀ {es : List SExpr}, (∀ e ∈ es, e.Plain) → AllReadable es
  | [], _ => trivial
  | _ :: _, h => ⟨(List.forall_mem_cons.1 h).1.readable,
      allReadable_of_plain (List.forall_mem_cons.1 h).2⟩

end

/-- To be the tokens of the given S-expression. -/
def IsTokensOf (e : SExpr) (ts : List Token) : Prop := ts = e.tokenList

/-- The tokens of several trees, one tree after the other. -/
theorem flatten_eq_tokenLists {es : List SExpr} {tss : List (List Token)}
    (h : List.Forall₂ (fun P ts => P ts) (es.map IsTokensOf) tss) :
    tss.flatten = tokenLists es := by
  induction es generalizing tss with
  | nil =>
    cases h
    rfl
  | cons e es ih =>
    cases h with
    | cons he hes => rw [List.flatten_cons, he, ih hes, tokenLists_cons]

mutual

/-- **A readable S-expression** is cut into its tokens. -/
theorem cut_text : ∀ (e : SExpr), e.Readable → Cut e.text.toList e.tokenList
  | .atom s, h => by
    rcases h with hword | ⟨body, hatom, hbody⟩
    · exact cut_word hword
    · rw [hatom]
      exact cut_quoted hbody
  | .list es, h => by
    intro rest hrest
    have hes := cut_intercalate (cut_texts es h)
    rw [text_list, List.cons_append, List.append_assoc, List.singleton_append, tokens,
      if_neg (by decide), if_pos rfl, hes (')' :: rest) rfl, tokens, if_neg (by decide),
      if_neg (by decide), if_pos rfl, Option.map_map, Option.map_map]
    simp [tokenList, Function.comp_def]

theorem cut_texts : ∀ (es : List SExpr), AllReadable es →
    ∀ e ∈ es, Cut e.text.toList e.tokenList
  | [], _ => nofun
  | e :: es, h => List.forall_mem_cons.2 ⟨cut_text e h.1, cut_texts es h.2⟩

end

/-- What is read from a text has the tokens of the text. -/
theorem read?_eq_some_iff {t : String} {e : SExpr} :
    read? t = some e ↔ tokens t.toList = some e.tokenList := by
  have htokens : e.tokenList = tokenLists [e] := (List.append_nil _).symm
  rw [htokens]
  unfold read?
  constructor
  · intro h
    split at h
    next hnest =>
      cases h
      obtain ⟨ts, hts, hnest⟩ := Option.bind_eq_some_iff.1 hnest
      rw [hts, nest_eq_some_iff.1 hnest]
    next => cases h
  · intro h
    rw [h, Option.bind_some, nest_eq_some_iff.2 rfl]

/-- **Reading back**: a readable S-expression is read from its text. -/
theorem read?_text {e : SExpr} (h : e.Readable) : read? e.text = some e := by
  have hcut := cut_text e h [] rfl
  rw [List.append_nil, tokens, Option.map_some, List.append_nil] at hcut
  exact read?_eq_some_iff.2 hcut

/-! ### Behind the text -/

/-- An atom makes a token. -/
theorem atomTokens_ne_nil (cs read : List Char) : atomTokens read cs ≠ some [] := by
  induction cs generalizing read with
  | nil => simp [atomTokens]
  | cons c cs ih =>
    rw [atomTokens]
    split_ifs
    · simp
    · simp
    · simp
    · simp
    · exact ih (c :: read)

/-- So does a string. -/
theorem stringTokens_ne_nil : ∀ (cs read : List Char), stringTokens read cs ≠ some []
  | [], read => by simp [stringTokens]
  | c :: cs, read => by
    by_cases hescape : c = '\\'
    · subst hescape
      cases cs with
      | nil => simp [stringTokens]
      | cons d cs =>
        rw [stringTokens_escape]
        exact stringTokens_ne_nil cs _
    · by_cases hquote : c = '"'
      · subst hquote
        rw [stringTokens]
        split_ifs <;> simp
      · rw [stringTokens_plain hescape hquote]
        exact stringTokens_ne_nil cs _

/-- Only spaces are cut into no tokens at all. -/
theorem tokens_eq_nil_iff {cs : List Char} : tokens cs = some [] ↔ ∀ c ∈ cs, isSpace c = true := by
  induction cs with
  | nil => simp [tokens]
  | cons c cs ih =>
    rw [tokens, List.forall_mem_cons]
    by_cases hspace : isSpace c = true
    · rw [if_pos hspace, ih]
      exact (and_iff_right hspace).symm
    · rw [if_neg hspace]
      refine iff_of_false ?_ fun h => hspace h.1
      split_ifs
      · simp
      · simp
      · exact stringTokens_ne_nil cs [c]
      · exact atomTokens_ne_nil cs [c]

/-- **The whole text is read**: behind a readable S-expression nothing but spaces may stand. -/
theorem read?_text_append_iff {e e' : SExpr} (h : e.Readable) {rest : String}
    (hrest : Delimited rest.toList) :
    read? (e.text ++ rest) = some e' ↔ e' = e ∧ ∀ c ∈ rest.toList, isSpace c = true := by
  rw [read?_eq_some_iff, String.toList_append, cut_text e h _ hrest, Option.map_eq_some_iff]
  constructor
  · rintro ⟨ts, hts, htokens⟩
    -- one tree cannot have the tokens of another and more
    have hsplit : tokenLists [e'] = tokenLists [e] ++ ts := by simp [htokens]
    obtain ⟨gs, hgs, rfl⟩ := exists_append_left hsplit
    obtain ⟨rfl, rfl⟩ := List.cons.inj hgs
    exact ⟨rfl, tokens_eq_nil_iff.1 hts⟩
  · rintro ⟨rfl, hspaces⟩
    exact ⟨[], tokens_eq_nil_iff.2 hspaces, List.append_nil _⟩

/-- Readable trees are taken as their tokens. -/
theorem taken_texts (es : List SExpr) (h : ∀ e ∈ es, e.Readable) :
    List.Forall₂ (fun e P => Taken e.text.toList P) es (es.map IsTokensOf) := by
  rw [List.forall₂_map_right_iff, List.forall₂_same]
  exact fun e he => (cut_text e (h e he)).taken

/-! ## Strings with any body

A string is written as it is, so its body may hold quotes and end the string early. What the reader
then takes for it is not one token. But where another string follows, a quote of the body that is
left open would end at the first quote of that string, right before a character that is no
delimiter; so the reader has to be at the end of a string where the body ends. -/

/-- The token is a string, whose inside is the end of the given text. -/
def Token.IsStringOf (body : List Char) (t : Token) : Prop :=
  ∃ inside : String, inside.toList <:+ body ∧ t = .atom (quoted inside).text

/-- The token of a string that ends here. -/
theorem isStringOf_ofList {read inside body : List Char} (h : read.reverse = '"' :: inside)
    (hinside : inside <:+ body) :
    (Token.atom (String.ofList ('"' :: read).reverse)).IsStringOf body := by
  refine ⟨String.ofList inside, by rwa [String.toList_ofList], ?_⟩
  rw [Token.atom.injEq, ← String.toList_inj, List.reverse_cons, h]
  simp [quoted, text]

/-- The last token is a string, whose inside is the end of the given text. -/
def EndsInString (body : List Char) (ts : List Token) : Prop :=
  ∃ front t, ts = front ++ [t] ∧ t.IsStringOf body

theorem EndsInString.cons {body : List Char} {ts : List Token} (h : EndsInString body ts)
    (t : Token) : EndsInString body (t :: ts) := by
  obtain ⟨front, last, rfl, hlast⟩ := h
  exact ⟨t :: front, last, rfl, hlast⟩

/-- The tokens `us` are some that end in a string, and then those of the text `rest`. -/
def SplitAtString (body rest : List Char) (us : List Token) : Prop :=
  ∃ ts vs, EndsInString body ts ∧ tokens rest = some vs ∧ us = ts ++ vs

theorem SplitAtString.cons {body rest : List Char} {us : List Token}
    (h : SplitAtString body rest us) (t : Token) : SplitAtString body rest (t :: us) := by
  obtain ⟨ts, vs, hts, hvs, rfl⟩ := h
  exact ⟨t :: ts, vs, hts.cons t, hvs, rfl⟩

/-- More may stand in front of the text. -/
theorem SplitAtString.of_suffix {body body' rest : List Char} {us : List Token}
    (h : SplitAtString body rest us) (hbody : body <:+ body') : SplitAtString body' rest us := by
  obtain ⟨_, vs, ⟨front, t, rfl, inside, hinside, ht⟩, hvs, rfl⟩ := h
  exact ⟨_, vs, ⟨front, t, rfl, inside, hinside.trans hbody, ht⟩, hvs, rfl⟩

/-- A string cannot end right before a character that is no delimiter. -/
theorem stringTokens_quote_eq_none {c : Char} (hc : isDelimiter c = false) (rest read : List Char) :
    stringTokens read ('"' :: c :: rest) = none := by
  rw [stringTokens, if_neg]
  rw [List.head?_cons, Option.all_some, hc]
  decide

mutual

/-- Between tokens. The body cannot end here, since the quote behind it would open a string that
ends before a character that is no delimiter. -/
theorem tokens_body {c : Char} (hc : isDelimiter c = false) {rest : List Char} :
    ∀ (body : List Char) {us : List Token},
    tokens (body ++ '"' :: ' ' :: '"' :: c :: rest) = some us →
    SplitAtString body ('"' :: c :: rest) us
  | [], us, h => by
    rw [List.nil_append, tokens, if_neg (by decide), if_neg (by decide), if_neg (by decide),
      if_pos rfl, stringTokens_plain (by decide) (by decide), stringTokens_quote_eq_none hc] at h
    exact absurd h (by simp)
  | x :: body, us, h => by
    rw [List.cons_append, tokens] at h
    refine SplitAtString.of_suffix ?_ (List.suffix_cons x body)
    split at h
    · exact tokens_body hc body h
    · split at h
      · obtain ⟨vs, hvs, rfl⟩ := Option.map_eq_some_iff.1 h
        exact (tokens_body hc body hvs).cons _
      · split at h
        · obtain ⟨vs, hvs, rfl⟩ := Option.map_eq_some_iff.1 h
          exact (tokens_body hc body hvs).cons _
        · split at h
          next hquote => exact stringTokens_body hc body (by rw [hquote]; rfl) h
          next => exact atomTokens_body hc body h

/-- Inside a word. The body cannot end here, since a word does not go on with a quote. -/
theorem atomTokens_body {c : Char} (hc : isDelimiter c = false) {rest : List Char} :
    ∀ (body : List Char) {read : List Char} {us : List Token},
    atomTokens read (body ++ '"' :: ' ' :: '"' :: c :: rest) = some us →
    SplitAtString body ('"' :: c :: rest) us
  | [], read, us, h => by
    rw [List.nil_append, atomTokens, if_pos rfl] at h
    exact absurd h (by simp)
  | x :: body, read, us, h => by
    rw [List.cons_append, atomTokens] at h
    refine SplitAtString.of_suffix ?_ (List.suffix_cons x body)
    split at h
    · exact absurd h (by simp)
    · split at h
      · obtain ⟨vs, hvs, rfl⟩ := Option.map_eq_some_iff.1 h
        exact (tokens_body hc body hvs).cons _
      · split at h
        · obtain ⟨vs, hvs, rfl⟩ := Option.map_eq_some_iff.1 h
          exact ((tokens_body hc body hvs).cons _).cons _
        · split at h
          · obtain ⟨vs, hvs, rfl⟩ := Option.map_eq_some_iff.1 h
            exact ((tokens_body hc body hvs).cons _).cons _
          · exact atomTokens_body hc body h

/-- Inside a string, of which `inside` has been read so far. -/
theorem stringTokens_body {c : Char} (hc : isDelimiter c = false) {rest : List Char} :
    ∀ (body : List Char) {read inside : List Char} {us : List Token},
    read.reverse = '"' :: inside →
    stringTokens read (body ++ '"' :: ' ' :: '"' :: c :: rest) = some us →
    SplitAtString (inside ++ body) ('"' :: c :: rest) us
  | [], read, inside, us, hread, h => by
    -- the quote behind the body ends the string
    rw [List.nil_append, stringTokens_quote (delimited_space _), tokens_space] at h
    obtain ⟨vs, hvs, rfl⟩ := Option.map_eq_some_iff.1 h
    have hstring := isStringOf_ofList hread (List.suffix_refl inside)
    rw [List.append_nil]
    exact ⟨[_], vs, ⟨[], _, rfl, hstring⟩, hvs, rfl⟩
  | x :: body, read, inside, us, hread, h => by
    by_cases hescape : x = '\\'
    · subst hescape
      match body, h with
      | [], h =>
        -- the quote behind the body is escaped, so the string ends too early
        rw [List.cons_append, List.nil_append, stringTokens_escape,
          stringTokens_plain (by decide) (by decide), stringTokens_quote_eq_none hc] at h
        exact absurd h (by simp)
      | y :: body, h =>
        rw [List.cons_append, List.cons_append, stringTokens_escape] at h
        have hread' : (y :: '\\' :: read).reverse = '"' :: (inside ++ ['\\', y]) := by
          simp [hread]
        simpa using stringTokens_body hc body hread' h
    · by_cases hquote : x = '"'
      · subst hquote
        rw [List.cons_append] at h
        -- the quote ends the string early, if a delimiter follows
        by_cases hstop : Delimited (body ++ '"' :: ' ' :: '"' :: c :: rest)
        · rw [stringTokens_quote hstop] at h
          obtain ⟨vs, hvs, rfl⟩ := Option.map_eq_some_iff.1 h
          refine SplitAtString.of_suffix ((tokens_body hc body hvs).cons _) ?_
          exact (List.suffix_cons '"' body).trans (List.suffix_append inside _)
        · have hstop' : ¬ (body ++ '"' :: ' ' :: '"' :: c :: rest).head?.all isDelimiter = true :=
            hstop
          rw [stringTokens, if_neg hstop'] at h
          exact absurd h (by simp)
      · rw [List.cons_append, stringTokens_plain hescape hquote] at h
        have hread' : (x :: read).reverse = '"' :: (inside ++ [x]) := by simp [hread]
        simpa using stringTokens_body hc body hread' h

end

/-- Where the inside of a string ends with an open escape, the string goes on up to the quote of the
string behind it, right before a character that is no delimiter. -/
theorem stringTokens_eq_none {body : List Char} (hquote : hasBareQuote body = false)
    (hescape : hasOpenEscape body = true) {c : Char} (hc : isDelimiter c = false)
    (rest read : List Char) :
    stringTokens read (body ++ '"' :: ' ' :: '"' :: c :: rest) = none := by
  fun_induction hasOpenEscape body generalizing read with
  | case1 => cases hescape
  | case2 x =>
    obtain rfl : x = '\\' := by simpa using hescape
    rw [List.singleton_append, stringTokens_escape, stringTokens_plain (by decide) (by decide),
      stringTokens_quote_eq_none hc]
  | case3 y body ih =>
    rw [hasBareQuote, if_pos rfl] at hquote
    rw [List.cons_append, List.cons_append, stringTokens_escape, ih hquote hescape]
  | case4 x y body hx ih =>
    rw [hasBareQuote, if_neg hx, Bool.or_eq_false_iff, beq_eq_false_iff_ne] at hquote
    rw [List.cons_append, stringTokens_plain hx hquote.1, ih hquote.2 hescape]

/-- The text of two strings, where the second one holds a word: it goes on with a character that is
no delimiter behind its first quote. -/
theorem exists_quoted_pair (body : String) {name : String} (hword : IsWord name.toList) :
    ∃ c cs, name.toList = c :: cs ∧ isDelimiter c = false ∧
      ((quoted body).text ++ " " ++ (quoted name).text).toList =
        '"' :: (body.toList ++ '"' :: ' ' :: '"' :: c :: (cs ++ ['"'])) := by
  obtain ⟨hne, hchars⟩ := hword
  cases hcs : name.toList with
  | nil => exact absurd hcs hne
  | cons c cs =>
    have hc : isDelimiter c = false := (hchars c (hcs ▸ List.mem_cons_self)).1
    exact ⟨c, cs, rfl, hc, by simp [quoted, text, hcs]⟩

/-- A string with an open escape and another one behind it are refused. -/
theorem taken_quoted_pair_of_openEscape {body name : String}
    (hquote : hasBareQuote body.toList = false) (hescape : hasOpenEscape body.toList = true)
    (hword : IsWord name.toList) :
    Taken ((quoted body).text ++ " " ++ (quoted name).text).toList fun _ => False := by
  intro rest us _ hus
  obtain ⟨c, cs, -, hc, hshape⟩ := exists_quoted_pair body hword
  rw [hshape, List.cons_append, List.append_assoc, tokens, if_neg (by decide), if_neg (by decide),
    if_neg (by decide), if_pos rfl] at hus
  have hnone := stringTokens_eq_none hquote hescape hc (cs ++ ['"'] ++ rest) ['"']
  exact absurd (hus.symm.trans hnone) (by simp)

/-- A string with any body, and another one that holds a word: the second is taken as it is, and
what is taken for the first ends in a string that its body ends with. -/
theorem taken_quoted_pair {body name : String} (hword : IsWord name.toList)
    (hplain : IsPlainBody name.toList) :
    Taken ((quoted body).text ++ " " ++ (quoted name).text).toList fun ts =>
      ∃ front, EndsInString body.toList front ∧ ts = front ++ (quoted name).tokenList := by
  intro rest us hrest hus
  obtain ⟨c, cs, hcs, hc, hshape⟩ := exists_quoted_pair body hword
  have hshape' : ((quoted body).text ++ " " ++ (quoted name).text).toList ++ rest =
      '"' :: (body.toList ++ '"' :: ' ' :: '"' :: c :: (cs ++ '"' :: rest)) := by
    rw [hshape]
    simp
  rw [hshape', tokens, if_neg (by decide), if_neg (by decide), if_neg (by decide),
    if_pos rfl] at hus
  obtain ⟨front, vs, hfront, hvs, rfl⟩ := stringTokens_body hc body.toList rfl hus
  have hname := cut_quoted hplain.isClosedBody rest hrest
  have hname' : (quoted name).text.toList ++ rest = '"' :: c :: (cs ++ '"' :: rest) := by
    simp [quoted, text, hcs]
  rw [hname', hvs] at hname
  obtain ⟨ws, hws, rfl⟩ := Option.map_eq_some_iff.1 hname.symm
  exact ⟨_, ws, ⟨front, hfront, rfl⟩, hws, by simp [quoted, text, tokenList]⟩

end Kelp.SExpr
