import Mathlib.Data.List.Dedup
import Kelp.Proofs.Grammar.Derivation

/-!
# Two lexemes ahead

Which lexemes a derivation can start with, and which must not come after it.

- `Pattern.openings` lists the first two lexemes of everything that a pattern derives; a shorter
  entry is a whole derivation. `Pattern.mem_openings` says that the list is complete.
- `Pattern.extensions` lists the words of lexemes that must not follow a pattern, because it might
  take them in as one more round of a repetition, as an option that was left out, or as another
  alternative. Two lexemes are needed for the comma after the last item of a list, which starts
  another round unless an item follows.
- `Rule.openings` and `Rule.extensions` are tables for the named rules. They are certificates: that
  they are closed under the productions is checked by evaluation.
- `Pattern.DerivesBy.followed` says that inside a derivation nothing comes after a part of it that
  must not follow that part. No rule has the empty word among its extensions, so that something may
  follow each of them.
-/

namespace Kelp.Grammar

/-! ## Words of lexemes -/

/-- Different lexemes that may match at the same place: a host path starts with an identifier. -/
def Lexeme.overlaps : Lexeme → Lexeme → Bool
  | .ident, .hostPath => true
  | .hostPath, .ident => true
  | _, _ => false

/-- Whether the word may be found in front where the given lexemes stand. After two lexemes that
overlap, nothing is known about the lengths of the matches and anything may be found. -/
def Meets : List Lexeme → List Lexeme → Bool
  | [], _ => true
  | _ :: _, [] => false
  | l :: w, k :: ks => if l = k then Meets w ks else l.overlaps k

/-- None of the words may be found in front of the given lexemes. -/
def Avoids (words : List (List Lexeme)) (ks : List Lexeme) : Prop :=
  ∀ w ∈ words, Meets w ks = false

/-- What is left of the first word when the second stands in front: nothing where it cannot be found
any more. -/
def residual : List Lexeme → List Lexeme → List (List Lexeme)
  | [], _ => [[]]
  | w, [] => [w]
  | l :: w, k :: ks => if l = k then residual w ks else if l.overlaps k then [[]] else []

/-- A word that is found is found in two parts. -/
theorem Meets.append : ∀ {w ks rest : List Lexeme},
    Meets w (ks ++ rest) = true → ∃ w' ∈ residual w ks, Meets w' rest = true
  | [], _, _, _ => ⟨[], List.mem_singleton_self _, rfl⟩
  | l :: w, [], rest, h => ⟨l :: w, List.mem_singleton_self _, h⟩
  | l :: w, k :: ks, rest, h => by
    rw [List.cons_append, Meets] at h
    rw [residual]
    split
    · rw [if_pos ‹_›] at h
      exact Meets.append h
    · rw [if_neg ‹_›] at h
      rw [if_pos h]
      exact ⟨[], List.mem_singleton_self _, rfl⟩

/-- A word is found in a text of its own length, or not at all. -/
theorem Meets.nil_mem_residual : ∀ {w ks rest : List Lexeme}, w.length ≤ ks.length →
    Meets w (ks ++ rest) = true → [] ∈ residual w ks
  | [], _, _, _, _ => List.mem_singleton_self _
  | _ :: _, [], _, hlen, _ => absurd hlen (by simp)
  | l :: w, k :: ks, rest, hlen, h => by
    rw [List.cons_append, Meets] at h
    rw [residual]
    split
    · rw [if_pos ‹_›] at h
      exact Meets.nil_mem_residual (Nat.le_of_succ_le_succ hlen) h
    · rw [if_neg ‹_›] at h
      rw [if_pos h]
      exact List.mem_singleton_self _

/-- If a word is found, so is its beginning. -/
theorem Meets.take : ∀ {w ks : List Lexeme} (n : Nat),
    Meets w ks = true → Meets (w.take n) ks = true
  | [], _, _, h => by rwa [List.take_nil]
  | _ :: _, _, 0, _ => rfl
  | _ :: _, [], _ + 1, h => by simp [Meets] at h
  | l :: w, k :: ks, n + 1, h => by
    rw [List.take_succ_cons]
    rw [Meets] at h ⊢
    split
    · rw [if_pos ‹_›] at h
      exact Meets.take n h
    · rwa [if_neg ‹_›] at h

/-- What is left of the words when one of the given openings stands in front. -/
def residuals (words openings : List (List Lexeme)) : List (List Lexeme) :=
  (words.flatMap fun w => openings.flatMap fun u => residual (w.take 2) u).dedup

/-- Words are avoided in front of some lexemes if what is left of them, once these stand in front,
is avoided after them. Only the first two of the lexemes need to be known. -/
theorem Avoids.append {words openings : List (List Lexeme)} {ks rest : List Lexeme}
    (h : Avoids (residuals words openings) rest) (hks : ks.take 2 ∈ openings) :
    Avoids words (ks ++ rest) := by
  intro w hw
  by_contra hmeet
  have hmeet := Meets.take 2 (Bool.not_eq_false _ ▸ hmeet : Meets w (ks ++ rest) = true)
  -- what is left of the word after the first two lexemes is found after all of them
  have hleft : ∃ w' ∈ residual (w.take 2) (ks.take 2), Meets w' rest = true := by
    -- with more than two lexemes in front, a word of two is found or not found in them alone
    rcases Nat.lt_or_ge 2 ks.length with hlen | hlen
    · refine ⟨[], ?_, rfl⟩
      rw [← List.take_append_drop 2 ks, List.append_assoc] at hmeet
      refine Meets.nil_mem_residual ?_ hmeet
      rw [List.length_take, List.length_take]
      omega
    · rw [List.take_of_length_le hlen]
      exact Meets.append hmeet
  obtain ⟨w', hw', hrest⟩ := hleft
  have hmem : w' ∈ residuals words openings :=
    List.mem_dedup.2 (List.mem_flatMap.2 ⟨w, hw, List.mem_flatMap.2 ⟨_, hks, hw'⟩⟩)
  rw [h w' hmem] at hrest
  cases hrest

theorem Avoids.mono {words words' : List (List Lexeme)} {ks : List Lexeme}
    (h : Avoids words' ks) (hsub : ∀ w ∈ words, w ∈ words') : Avoids words ks :=
  fun w hw => h w (hsub w hw)

/-- At the end of the text everything but the empty word is avoided. -/
theorem Avoids.nil {words : List (List Lexeme)} (h : [] ∉ words) : Avoids words [] := by
  intro w hw
  cases w with
  | nil => exact absurd hw h
  | cons l w => rfl

/-! ## Openings -/

/-- The lexemes of a token sequence. -/
def lexemes (ts : List Token) : List Lexeme := ts.map Token.lexeme

@[simp] theorem lexemes_append (ts us : List Token) :
    lexemes (ts ++ us) = lexemes ts ++ lexemes us := List.map_append ..

/-- The first two lexemes of an opening from each list, one after the other. -/
def joined (us ws : List (List Lexeme)) : List (List Lexeme) :=
  (us.flatMap fun u => ws.map fun w => (u ++ w).take 2).dedup

/-- The first two lexemes of what a lexeme derives. -/
def Lexeme.openings : Lexeme → List (List Lexeme)
  | .endOfText => [[]]
  | l => [[l]]

/-- The first two lexemes of what a pattern derives, where `call` lists those of the named rules. -/
def Pattern.openings (call : Rule → List (List Lexeme)) :
    {α : Type} → Pattern α → List (List Lexeme)
  | _, .empty => [[]]
  | _, .lexeme l => l.openings
  | _, .rule r => call r
  | _, .seq first second => joined (first.openings call) (second.openings call)
  | _, .alt first second => (first.openings call ++ second.openings call).dedup
  | _, .opt body => [] :: body.openings call
  | _, .many body => [] :: joined (body.openings call) ([] :: body.openings call)
  | _, .map _ body => body.openings call

/-- The first two lexemes of two parts are told by the first two of each. -/
theorem take_append_mem_joined {us ws : List (List Lexeme)} {ks ls : List Lexeme}
    (hks : ks.take 2 ∈ us) (hls : ls.take 2 ∈ ws) : (ks ++ ls).take 2 ∈ joined us ws := by
  refine List.mem_dedup.2 (List.mem_flatMap.2 ⟨_, hks, List.mem_map.2 ⟨_, hls, ?_⟩⟩)
  match ks, ls with
  | [], _ => simp [List.take_take]
  | [_], [] => rfl
  | [_], _ :: _ => rfl
  | _ :: _ :: _, _ => rfl

/-- The first lexeme of any number of rounds is that of one of them. -/
theorem exists_take_one_flatten {us : List (List Lexeme)} : ∀ {kss : List (List Lexeme)},
    (∀ ks ∈ kss, ks.take 2 ∈ us) → ∃ w ∈ [] :: us, w.take 1 = kss.flatten.take 1
  | [], _ => ⟨[], List.mem_cons_self, rfl⟩
  | [] :: kss, h => @exists_take_one_flatten us kss fun k hk => h k (List.mem_cons_of_mem [] hk)
  | (k :: ks) :: _, h =>
    ⟨(k :: ks).take 2, List.mem_cons_of_mem [] (h _ List.mem_cons_self), rfl⟩

/-- The first two lexemes of any number of rounds are those of at most two of them. -/
theorem take_flatten_mem_openings {us : List (List Lexeme)} : ∀ {kss : List (List Lexeme)},
    (∀ ks ∈ kss, ks.take 2 ∈ us) → kss.flatten.take 2 ∈ [] :: joined us ([] :: us)
  | [], _ => List.mem_cons_self
  | [] :: kss, h => @take_flatten_mem_openings us kss fun k hk => h k (List.mem_cons_of_mem [] hk)
  | (k :: ks) :: kss, h => by
    obtain ⟨w, hw, hhead⟩ := exists_take_one_flatten fun l hl => h l (List.mem_cons_of_mem _ hl)
    have hmem : ((k :: ks).take 2 ++ w).take 2 ∈ joined us ([] :: us) :=
      List.mem_dedup.2 (List.mem_flatMap.2
        ⟨_, h _ List.mem_cons_self, List.mem_map.2 ⟨w, hw, rfl⟩⟩)
    -- after a round that is not empty, only one more lexeme counts
    have heq : ((k :: ks).take 2 ++ w).take 2 = ((k :: ks) :: kss).flatten.take 2 := by
      cases ks with
      | nil =>
        show k :: w.take 1 = k :: kss.flatten.take 1
        rw [hhead]
      | cons k' ks => rfl
    exact List.mem_cons_of_mem [] (heq ▸ hmem)

/-- What a lexeme derives starts with it. -/
theorem Lexeme.Yields.mem_openings {l : Lexeme} {ts : List Token} {v : l.Value}
    (h : l.Yields ts v) : (lexemes ts).take 2 ∈ l.openings := by
  by_cases hl : l = .endOfText
  · subst hl
    rw [Lexeme.Yields, if_pos rfl] at h
    subst h
    exact List.mem_singleton_self _
  · rw [Lexeme.Yields, if_neg hl] at h
    obtain ⟨t, rfl, ht, -⟩ := h
    have hopenings : l.openings = [[l]] := by
      cases l with
      | endOfText => exact absurd rfl hl
      | _ => rfl
    rw [hopenings, ← ht]
    exact List.mem_singleton_self _

/-- Each round of a repetition has a value. -/
theorem exists_of_mem_rounds {α β : Type} {R : α → β → Prop} {as : List α} {bs : List β}
    (h : List.Forall₂ R as bs) {a : α} (ha : a ∈ as) : ∃ b, R a b := by
  induction h with
  | nil => cases ha
  | cons hab _ ih =>
    rcases List.mem_cons.1 ha with rfl | ha
    · exact ⟨_, hab⟩
    · exact ih ha

/-- **Openings are complete**: the first two lexemes of a derivation are among the openings. -/
theorem Pattern.mem_openings {call : Rule → List (List Lexeme)}
    {D : (r : Rule) → List Token → r.Value → Prop}
    (hcall : ∀ r ts v, D r ts v → (lexemes ts).take 2 ∈ call r) {α : Type} {p : Pattern α}
    {ts : List Token} {v : α} (h : p.DerivesBy D ts v) :
    (lexemes ts).take 2 ∈ p.openings call := by
  induction p generalizing ts with
  | empty =>
    rw [Pattern.DerivesBy] at h
    subst h
    exact List.mem_singleton_self _
  | lexeme l => exact Lexeme.Yields.mem_openings h
  | rule r => exact hcall r ts v h
  | seq first second ih₁ ih₂ =>
    obtain ⟨us, ws, rfl, h₁, h₂⟩ := h
    rw [lexemes_append]
    exact take_append_mem_joined (ih₁ h₁) (ih₂ h₂)
  | alt first second ih₁ ih₂ =>
    rw [Pattern.openings, List.mem_dedup, List.mem_append]
    rcases h with h₁ | h₂
    · exact Or.inl (ih₁ h₁)
    · exact Or.inr (ih₂ h₂)
  | opt body ih =>
    rcases h with ⟨rfl, -⟩ | ⟨x, -, hx⟩
    · exact List.mem_cons_self
    · exact List.mem_cons_of_mem [] (ih hx)
  | many body ih =>
    obtain ⟨tss, rfl, hrounds⟩ := h
    have hflat : lexemes tss.flatten = (tss.map lexemes).flatten := by
      unfold lexemes
      exact List.map_flatten
    rw [hflat]
    refine take_flatten_mem_openings ?_
    intro ks hks
    obtain ⟨us, hus, rfl⟩ := List.mem_map.1 hks
    obtain ⟨x, hx⟩ := exists_of_mem_rounds hrounds hus
    exact ih hx
  | map f body ih =>
    obtain ⟨x, hx, -⟩ := h
    exact ih hx

/-- What an expression starts with. -/
def expressionHeads : List Lexeme := [.number, .ident, .mark .openParen]

/-- The openings of an operand: a literal or a name, alone or before one of the given marks, or an
expression in parentheses. -/
def operandOpenings (next : List Mark) : List (List Lexeme) :=
  ([.number, .ident].flatMap fun l => [l] :: next.map fun m => [l, .mark m]) ++
    expressionHeads.map fun l => [.mark .openParen, l]

/-- The openings of the named rules. -/
def Rule.openings : Rule → List (List Lexeme)
  | .endOfText => [[]]
  | .keyword k => [[.keyword k]]
  | .ident => [[.ident]]
  | .number => [[.number]]
  | .program =>
    [[], [.keyword .kwStruct, .ident], [.keyword .kwPub, .keyword .kwFn], [.keyword .kwFn, .ident],
      [.keyword .kwImport, .hostPath]]
  | .typeName => [[.ident]]
  | .binder => [[.ident, .mark .colon]]
  | .binders => [[], [.ident, .mark .colon]]
  | .returnType => [[.mark .arrow, .ident]]
  | .struct => [[.keyword .kwStruct, .ident]]
  | .function => [[.keyword .kwPub, .keyword .kwFn], [.keyword .kwFn, .ident]]
  | .block =>
    (.mark .closeBrace :: .keyword .kwLet :: .keyword .kwReturn :: expressionHeads).map
      fun l => [.mark .openBrace, l]
  | .hostPath => [[.hostPath]]
  | .hostFunction => [[.keyword .kwImport, .hostPath]]
  | .letStmt => [[.keyword .kwLet, .ident]]
  | .returnStmt => expressionHeads.map fun l => [.keyword .kwReturn, l]
  | .exprStmt => operandOpenings [.dot, .openParen, .semicolon]
  | .sum => operandOpenings [.dot, .openParen, .times, .plus]
  | .product => operandOpenings [.dot, .openParen, .times]
  | .call => operandOpenings [.dot, .openParen]
  | .callStmt => operandOpenings [.dot, .openParen]
  | .arguments => (.mark .closeParen :: expressionHeads).map fun l => [.mark .openParen, l]
  | .dotted => operandOpenings [.dot]

/-- The table of openings is closed under the productions. -/
theorem Rule.openings_closed (r : Rule) :
    ∀ u ∈ r.pattern.openings Rule.openings, u ∈ r.openings := by
  cases r with
  | keyword k => cases k <;> decide +kernel
  | _ => decide +kernel

/-- The table of openings is complete, since it is closed under the productions. -/
theorem Rule.DerivesIn.mem_openings : ∀ {n : Nat} {r : Rule} {ts : List Token} {v : r.Value},
    Rule.DerivesIn n r ts v → (lexemes ts).take 2 ∈ r.openings
  | 0, _, _, _, h => h.elim
  | n + 1, r, ts, v, h => by
    have hcall : ∀ r ts v, Rule.DerivesIn n r ts v → (lexemes ts).take 2 ∈ r.openings :=
      fun _ _ _ => Rule.DerivesIn.mem_openings
    exact r.openings_closed _ (Pattern.mem_openings hcall h)

/-! ## Extensions -/

/-- The punctuation marks. -/
def Mark.all : List Mark :=
  [.openBrace, .closeBrace, .openParen, .closeParen, .comma, .colon, .semicolon, .equals, .plus,
    .times, .dot, .arrow]

/-- The lexemes that are written as words. -/
def wordLexemes : List Lexeme :=
  .ident :: .hostPath :: Keyword.all.map .keyword

/-- The words that must not follow a lexeme: a word would run together with a number, and a dot with
a host path. Nothing at all follows the end of the text. -/
def Lexeme.extensions : Lexeme → List (List Lexeme)
  | .number => wordLexemes.map fun l => [l]
  | .hostPath => [[.mark .dot]]
  | .endOfText => (Lexeme.number :: Mark.all.map Lexeme.mark ++ wordLexemes).map fun l => [l]
  | _ => []

/-- The words that must not follow a pattern, where `call` lists those of the named rules. -/
def Pattern.extensions (call : Rule → List (List Lexeme)) :
    {α : Type} → Pattern α → List (List Lexeme)
  | _, .empty => []
  | _, .lexeme l => l.extensions
  | _, .rule r => call r
  | _, .seq first second =>
    (second.extensions call ++
      residuals (first.extensions call) (second.openings Rule.openings)).dedup
  | _, .alt first second =>
    (first.extensions call ++ second.extensions call ++
      residuals (first.openings Rule.openings) (second.openings Rule.openings)).dedup
  | _, .opt body => (body.openings Rule.openings ++ body.extensions call).dedup
  | _, .many body =>
    (body.openings Rule.openings ++ body.extensions call ++
      residuals (body.extensions call) ((Pattern.many body).openings Rule.openings)).dedup
  | _, .map _ body => body.extensions call

/-- What must not follow an operand: a word where it may end with a number, an accessor, and the
given marks where an expression or one of the given lexemes comes after them. -/
def operandExtensions (next : List (Mark × List Lexeme)) : List (List Lexeme) :=
  Lexeme.number.extensions ++ [.mark .dot, .ident] ::
    next.flatMap fun m => (m.2 ++ expressionHeads).map fun l => [.mark m.1, l]

/-- The words that must not follow the named rules. -/
def Rule.extensions : Rule → List (List Lexeme)
  | .endOfText => Lexeme.endOfText.extensions
  | .number => Lexeme.number.extensions
  | .program =>
    Lexeme.endOfText.extensions ++ Rule.openings .struct ++ Rule.openings .function ++
      Rule.openings .hostFunction
  | .binders =>
    [[.mark .comma], [.mark .comma, .ident], [.ident], [.ident, .mark .colon]]
  | .hostPath => Lexeme.hostPath.extensions
  | .sum => operandExtensions [(.openParen, [.mark .closeParen]), (.times, []), (.plus, [])]
  | .product => operandExtensions [(.openParen, [.mark .closeParen]), (.times, [])]
  | .call => operandExtensions [(.openParen, [.mark .closeParen])]
  | .callStmt => (.mark .closeParen :: expressionHeads).map fun l => [.mark .openParen, l]
  | .dotted => operandExtensions []
  | _ => []

/-- The table of extensions is closed under the productions. -/
theorem Rule.extensions_closed (r : Rule) :
    ∀ w ∈ r.pattern.extensions Rule.extensions, w ∈ r.extensions := by
  cases r with
  | keyword k => cases k <;> decide +kernel
  | _ => decide +kernel

/-- Something may follow every rule. -/
theorem Rule.nil_notMem_extensions (r : Rule) : [] ∉ r.extensions := by
  cases r with
  | keyword k => cases k <;> decide
  | _ => decide

section Extensions

variable {α β : Type} {first : Pattern α} {second : Pattern β} {rest : List Lexeme}

/-- What must not follow a sequence must not follow its second part. -/
theorem Avoids.seq_right (h : Avoids ((Pattern.seq first second).extensions Rule.extensions) rest) :
    Avoids (second.extensions Rule.extensions) rest :=
  h.mono fun _ hw => List.mem_dedup.2 (List.mem_append_left _ hw)

/-- What must not follow the first part of a sequence does not stand where the second part does. -/
theorem Avoids.seq_left (h : Avoids ((Pattern.seq first second).extensions Rule.extensions) rest)
    {ks : List Lexeme} (hks : ks.take 2 ∈ second.openings Rule.openings) :
    Avoids (first.extensions Rule.extensions) (ks ++ rest) :=
  Avoids.append (h.mono fun _ hw => List.mem_dedup.2 (List.mem_append_right _ hw)) hks

variable {body other : Pattern α}

theorem Avoids.alt_left (h : Avoids ((Pattern.alt body other).extensions Rule.extensions) rest) :
    Avoids (body.extensions Rule.extensions) rest :=
  h.mono fun _ hw => List.mem_dedup.2 (List.mem_append_left _ (List.mem_append_left _ hw))

theorem Avoids.alt_right (h : Avoids ((Pattern.alt body other).extensions Rule.extensions) rest) :
    Avoids (other.extensions Rule.extensions) rest :=
  h.mono fun _ hw => List.mem_dedup.2 (List.mem_append_left _ (List.mem_append_right _ hw))

/-- Where the second alternative stands, the first one cannot start. -/
theorem Avoids.alt_openings
    (h : Avoids ((Pattern.alt body other).extensions Rule.extensions) rest) {ks : List Lexeme}
    (hks : ks.take 2 ∈ other.openings Rule.openings) :
    Avoids (body.openings Rule.openings) (ks ++ rest) :=
  Avoids.append (h.mono fun _ hw => List.mem_dedup.2 (List.mem_append_right _ hw)) hks

theorem Avoids.opt_openings (h : Avoids ((Pattern.opt body).extensions Rule.extensions) rest) :
    Avoids (body.openings Rule.openings) rest :=
  h.mono fun _ hw => List.mem_dedup.2 (List.mem_append_left _ hw)

theorem Avoids.opt_body (h : Avoids ((Pattern.opt body).extensions Rule.extensions) rest) :
    Avoids (body.extensions Rule.extensions) rest :=
  h.mono fun _ hw => List.mem_dedup.2 (List.mem_append_right _ hw)

/-- After the last round of a repetition, no further round can start. -/
theorem Avoids.many_openings (h : Avoids ((Pattern.many body).extensions Rule.extensions) rest) :
    Avoids (body.openings Rule.openings) rest :=
  h.mono fun _ hw => List.mem_dedup.2 (List.mem_append_left _ (List.mem_append_left _ hw))

/-- What must not follow a round does not stand where further rounds do. -/
theorem Avoids.many_body (h : Avoids ((Pattern.many body).extensions Rule.extensions) rest)
    {ks : List Lexeme} (hks : ks.take 2 ∈ (Pattern.many body).openings Rule.openings) :
    Avoids (body.extensions Rule.extensions) (ks ++ rest) :=
  Avoids.append (h.mono fun _ hw => List.mem_dedup.2 (List.mem_append_right _ hw)) hks

end Extensions

/-! ## What follows inside a derivation -/

/-- Nothing comes after a lexeme, up to and including the second list, that must not follow it. -/
def Followed : List Lexeme → List Lexeme → Prop
  | [], _ => True
  | l :: ls, rest => Avoids l.extensions (ls ++ rest) ∧ Followed ls rest

/-- Two parts, each with what may follow it. -/
theorem Followed.append : ∀ {ks ls rest : List Lexeme},
    Followed ks (ls ++ rest) → Followed ls rest → Followed (ks ++ ls) rest
  | [], _, _, _, h => h
  | k :: ks, ls, rest, h, h' => by
    refine ⟨?_, Followed.append h.2 h'⟩
    show Avoids k.extensions ((ks ++ ls) ++ rest)
    rw [List.append_assoc]
    exact h.1

/-- Inside of what a pattern derives, nothing comes after a lexeme that must not, if that holds of
the rules. -/
theorem Pattern.DerivesBy.followed {D : (r : Rule) → List Token → r.Value → Prop}
    (hopenings : ∀ r ts v, D r ts v → (lexemes ts).take 2 ∈ r.openings)
    (hcall : ∀ r ts v rest, D r ts v → Avoids r.extensions rest → Followed (lexemes ts) rest)
    {α : Type} {p : Pattern α} {ts : List Token} {v : α} (h : p.DerivesBy D ts v)
    {rest : List Lexeme} (hrest : Avoids (p.extensions Rule.extensions) rest) :
    Followed (lexemes ts) rest := by
  induction p generalizing ts rest with
  | empty =>
    rw [Pattern.DerivesBy] at h
    subst h
    trivial
  | lexeme l =>
    by_cases hl : l = .endOfText
    · rw [Pattern.DerivesBy, Lexeme.Yields, if_pos hl] at h
      subst h
      trivial
    · rw [Pattern.DerivesBy, Lexeme.Yields, if_neg hl] at h
      obtain ⟨t, rfl, rfl, -⟩ := h
      exact ⟨hrest, trivial⟩
  | rule r => exact hcall r ts v rest h hrest
  | seq first second ih₁ ih₂ =>
    obtain ⟨us, ws, rfl, h₁, h₂⟩ := h
    rw [lexemes_append]
    exact Followed.append (ih₁ h₁ (hrest.seq_left (Pattern.mem_openings hopenings h₂)))
      (ih₂ h₂ hrest.seq_right)
  | alt first second ih₁ ih₂ =>
    rcases h with h₁ | h₂
    · exact ih₁ h₁ hrest.alt_left
    · exact ih₂ h₂ hrest.alt_right
  | opt body ih =>
    rcases h with ⟨rfl, -⟩ | ⟨x, -, hx⟩
    · trivial
    · exact ih hx hrest.opt_body
  | many body ih =>
    obtain ⟨tss, rfl, hrounds⟩ := h
    induction hrounds with
    | nil => trivial
    | cons hround hrounds ihr =>
      -- the rounds that are left count as a repetition of their own
      have hmany : (Pattern.many body).DerivesBy D _ _ := ⟨_, rfl, hrounds⟩
      rw [List.flatten_cons, lexemes_append]
      exact Followed.append (ih hround (hrest.many_body (Pattern.mem_openings hopenings hmany))) ihr
  | map f body ih =>
    obtain ⟨x, hx, -⟩ := h
    exact ih hx hrest

/-- The table of extensions is complete in the same way. -/
theorem Rule.DerivesIn.followed : ∀ {n : Nat} {r : Rule} {ts : List Token} {v : r.Value}
    {rest : List Lexeme}, Rule.DerivesIn n r ts v → Avoids r.extensions rest →
      Followed (lexemes ts) rest
  | 0, _, _, _, _, h, _ => h.elim
  | n + 1, r, ts, v, rest, h, hrest => by
    have hopenings : ∀ r ts v, Rule.DerivesIn n r ts v → (lexemes ts).take 2 ∈ r.openings :=
      fun _ _ _ => Rule.DerivesIn.mem_openings
    have hcall : ∀ r ts v rest, Rule.DerivesIn n r ts v → Avoids r.extensions rest →
        Followed (lexemes ts) rest := fun _ _ _ _ => Rule.DerivesIn.followed
    exact Pattern.DerivesBy.followed hopenings hcall h (hrest.mono r.extensions_closed)

/-- **What follows inside a program**: a word never comes right after a number, nor a dot right
after a host path. -/
theorem Rule.Derives.followed {ts : List Token} {program : Program Literal}
    (h : Rule.Derives .program ts program) : Followed (lexemes ts) [] := by
  obtain ⟨n, hn⟩ := h
  exact hn.followed (Avoids.nil (Rule.nil_notMem_extensions _))

end Kelp.Grammar
