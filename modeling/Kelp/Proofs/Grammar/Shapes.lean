import Kelp.Proofs.Grammar.Derivation

/-!
# Shapes of derivations

What the building blocks of the productions derive: single tokens, sequences of which one part
counts, and lists with a separator. A list is a first item and `Items` behind it.
-/

namespace Kelp.Grammar

/-- The tokens without their places. -/
def terminals (ts : List Token) : List Terminal := ts.map Token.terminal

@[simp] theorem terminals_nil : terminals [] = [] := rfl

@[simp] theorem terminals_cons (t : Token) (ts : List Token) :
    terminals (t :: ts) = t.terminal :: terminals ts := rfl

@[simp] theorem terminals_append (ts us : List Token) :
    terminals (ts ++ us) = terminals ts ++ terminals us := List.map_append ..

/-- Tokens are split where their terminals are. -/
theorem exists_append_of_terminals {ts : List Token} {ks ls : List Terminal}
    (h : terminals ts = ks ++ ls) :
    ∃ us ws, ts = us ++ ws ∧ terminals us = ks ∧ terminals ws = ls :=
  List.map_eq_append_iff.1 h

theorem exists_cons_of_terminals {ts : List Token} {k : Terminal} {ls : List Terminal}
    (h : terminals ts = k :: ls) :
    ∃ t ws, ts = t :: ws ∧ t.terminal = k ∧ terminals ws = ls :=
  List.map_eq_cons_iff.1 h

theorem terminals_eq_singleton_iff {ts : List Token} {k : Terminal} :
    terminals ts = [k] ↔ ∃ t, ts = [t] ∧ t.terminal = k :=
  List.map_eq_singleton_iff

/-! ## Single tokens

Each lexeme yields a value from one token of its kind, and the end of the text from none. -/

theorem Lexeme.yields_iff {l : Lexeme} (hl : l ≠ .endOfText) {ts : List Token} {v : l.Value} :
    l.Yields ts v ↔ ∃ t, ts = [t] ∧ t.lexeme = l ∧ v = l.value t.offset t.chars := by
  rw [Lexeme.Yields, if_neg hl]

theorem Terminal.lexeme_eq_mark_iff {t : Terminal} {m : Mark} :
    t.lexeme = .mark m ↔ t = .mark m := by
  cases t <;> simp [Terminal.lexeme]

theorem Terminal.lexeme_eq_keyword_iff {t : Terminal} {k : Keyword} :
    t.lexeme = .keyword k ↔ t = .keyword k := by
  cases t <;> simp [Terminal.lexeme]

/-- A mark in a pattern is that mark. -/
theorem derivesBy_mark {D : (r : Rule) → List Token → r.Value → Prop} {m : Mark} {ts : List Token}
    {v : Unit} : (Pattern.mark m).DerivesBy D ts v ↔ terminals ts = [.mark m] := by
  show Lexeme.Yields (.mark m) ts v ↔ _
  rw [Lexeme.yields_iff Lexeme.noConfusion, terminals_eq_singleton_iff]
  simp only [Token.lexeme, Terminal.lexeme_eq_mark_iff, and_true]

theorem Rule.derives_keyword {k : Keyword} {ts : List Token} {v : Unit} :
    Rule.Derives (.keyword k) ts v ↔ terminals ts = [.keyword k] := by
  rw [Rule.derives_iff]
  show Lexeme.Yields (.keyword k) ts v ↔ _
  rw [Lexeme.yields_iff Lexeme.noConfusion, terminals_eq_singleton_iff]
  simp only [Token.lexeme, Terminal.lexeme_eq_keyword_iff, and_true]

/-- An identifier is one token, which has its name. -/
theorem Rule.derives_ident {ts : List Token} {name : String} :
    Rule.Derives .ident ts name ↔ terminals ts = [.ident name] := by
  rw [Rule.derives_iff]
  show Lexeme.Yields .ident ts name ↔ _
  rw [Lexeme.yields_iff Lexeme.noConfusion, terminals_eq_singleton_iff]
  constructor
  · rintro ⟨⟨n, t⟩, rfl, ht, rfl⟩
    cases t with
    | ident name => exact ⟨_, rfl, congrArg Terminal.ident String.ofList_toList.symm⟩
    | _ => cases ht
  · rintro ⟨⟨n, t⟩, rfl, rfl⟩
    exact ⟨_, rfl, rfl, String.ofList_toList.symm⟩

theorem Rule.derives_typeName {ts : List Token} {name : String} :
    Rule.Derives .typeName ts name ↔ terminals ts = [.ident name] := by
  rw [Rule.derives_iff]
  exact Rule.derives_ident

theorem Rule.derives_hostPath {ts : List Token} {path : String} :
    Rule.Derives .hostPath ts path ↔ terminals ts = [.hostPath path] := by
  rw [Rule.derives_iff]
  show Lexeme.Yields .hostPath ts path ↔ _
  rw [Lexeme.yields_iff Lexeme.noConfusion, terminals_eq_singleton_iff]
  constructor
  · rintro ⟨⟨n, t⟩, rfl, ht, rfl⟩
    cases t with
    | hostPath path => exact ⟨_, rfl, congrArg Terminal.hostPath String.ofList_toList.symm⟩
    | _ => cases ht
  · rintro ⟨⟨n, t⟩, rfl, rfl⟩
    exact ⟨_, rfl, rfl, String.ofList_toList.symm⟩

/-- A number is one token. Its place is kept, since the error of a literal names it. -/
theorem Rule.derives_number {ts : List Token} {l : Literal} :
    Rule.Derives .number ts l ↔ ts = [⟨l.offset, .number l.text⟩] := by
  rw [Rule.derives_iff]
  show Lexeme.Yields .number ts l ↔ _
  rw [Lexeme.yields_iff Lexeme.noConfusion]
  constructor
  · rintro ⟨⟨n, t⟩, rfl, ht, rfl⟩
    cases t with
    | number text =>
      show _ = [Token.mk n (.number (String.ofList text.toList))]
      rw [String.ofList_toList]
    | _ => cases ht
  · rintro rfl
    refine ⟨_, rfl, rfl, ?_⟩
    show l = ⟨l.offset, String.ofList l.text.toList⟩
    rw [String.ofList_toList]

theorem Rule.derives_endOfText {ts : List Token} {v : Unit} :
    Rule.Derives .endOfText ts v ↔ ts = [] := by
  rw [Rule.derives_iff]
  show Lexeme.Yields .endOfText ts v ↔ _
  rw [Lexeme.Yields, if_pos rfl]

/-! ## Lists -/

section Lists

variable {D : (r : Rule) → List Token → r.Value → Prop} {α β : Type}

/-- A sequence of which only the second value counts. -/
theorem derivesBy_right {first : Pattern α} {second : Pattern β} {ts : List Token} {y : β} :
    (Pattern.right first second).DerivesBy D ts y ↔
      ∃ us ws x, ts = us ++ ws ∧ first.DerivesBy D us x ∧ second.DerivesBy D ws y := by
  constructor
  · rintro ⟨⟨x, y⟩, ⟨us, ws, rfl, hx, hy⟩, rfl⟩
    exact ⟨us, ws, x, rfl, hx, hy⟩
  · rintro ⟨us, ws, x, rfl, hx, hy⟩
    exact ⟨(x, y), ⟨us, ws, rfl, hx, hy⟩, rfl⟩

/-- A sequence of which only the first value counts. -/
theorem derivesBy_left {first : Pattern α} {second : Pattern β} {ts : List Token} {x : α} :
    (Pattern.left first second).DerivesBy D ts x ↔
      ∃ us ws y, ts = us ++ ws ∧ first.DerivesBy D us x ∧ second.DerivesBy D ws y := by
  constructor
  · rintro ⟨⟨x, y⟩, ⟨us, ws, rfl, hx, hy⟩, rfl⟩
    exact ⟨us, ws, y, rfl, hx, hy⟩
  · rintro ⟨us, ws, y, rfl, hx, hy⟩
    exact ⟨(x, y), ⟨us, ws, rfl, hx, hy⟩, rfl⟩

/-- A mark in front, of which the value does not count. -/
theorem derivesBy_right_mark {m : Mark} {p : Pattern β} {ts : List Token} {y : β} :
    (Pattern.right (.mark m) p).DerivesBy D ts y ↔
      ∃ t us, ts = t :: us ∧ t.terminal = .mark m ∧ p.DerivesBy D us y := by
  rw [derivesBy_right]
  constructor
  · rintro ⟨us, ws, x, rfl, hm, hp⟩
    obtain ⟨t, rfl, ht⟩ := terminals_eq_singleton_iff.1 (derivesBy_mark.1 hm)
    exact ⟨t, ws, rfl, ht, hp⟩
  · rintro ⟨t, us, rfl, ht, hp⟩
    exact ⟨[t], us, (), rfl, derivesBy_mark.2 (terminals_eq_singleton_iff.2 ⟨t, rfl, ht⟩), hp⟩

/-- A mark behind, of which the value does not count. -/
theorem derivesBy_left_mark {m : Mark} {p : Pattern α} {ts : List Token} {x : α} :
    (Pattern.left p (.mark m)).DerivesBy D ts x ↔
      ∃ us t, ts = us ++ [t] ∧ t.terminal = .mark m ∧ p.DerivesBy D us x := by
  rw [derivesBy_left]
  constructor
  · rintro ⟨us, ws, y, rfl, hp, hm⟩
    obtain ⟨t, rfl, ht⟩ := terminals_eq_singleton_iff.1 (derivesBy_mark.1 hm)
    exact ⟨us, t, rfl, ht, hp⟩
  · rintro ⟨us, t, rfl, ht, hp⟩
    exact ⟨us, [t], (), rfl, hp, derivesBy_mark.2 (terminals_eq_singleton_iff.2 ⟨t, rfl, ht⟩)⟩

/-- A keyword in front, of which the value does not count. -/
theorem derivesBy_right_keyword {k : Keyword} {p : Pattern β} {ts : List Token} {y : β} :
    (Pattern.right (.keyword k) p).DerivesBy Rule.Derives ts y ↔
      ∃ t us, ts = t :: us ∧ t.terminal = .keyword k ∧ p.DerivesBy Rule.Derives us y := by
  rw [derivesBy_right]
  constructor
  · rintro ⟨us, ws, x, rfl, hk, hp⟩
    obtain ⟨t, rfl, ht⟩ := terminals_eq_singleton_iff.1 (Rule.derives_keyword.1 hk)
    exact ⟨t, ws, rfl, ht, hp⟩
  · rintro ⟨t, us, rfl, ht, hp⟩
    exact ⟨[t], us, (), rfl, Rule.derives_keyword.2 (terminals_eq_singleton_iff.2 ⟨t, rfl, ht⟩), hp⟩

/-- A name in front. -/
theorem derivesBy_seq_ident {p : Pattern β} {ts : List Token} {v : String × β} :
    (Pattern.seq (.rule .ident) p).DerivesBy Rule.Derives ts v ↔
      ∃ t us, ts = t :: us ∧ t.terminal = .ident v.1 ∧ p.DerivesBy Rule.Derives us v.2 := by
  constructor
  · rintro ⟨us, ws, rfl, hx, hp⟩
    obtain ⟨t, rfl, ht⟩ := terminals_eq_singleton_iff.1 (Rule.derives_ident.1 hx)
    exact ⟨t, ws, rfl, ht, hp⟩
  · rintro ⟨t, us, rfl, ht, hp⟩
    exact ⟨[t], us, rfl, Rule.derives_ident.2 (terminals_eq_singleton_iff.2 ⟨t, rfl, ht⟩), hp⟩

/-- Items that come each after the mark. Where `trailing` is set, the mark may also be written after
the last one. -/
inductive Items (m : Mark) (trailing : Bool) (R : List Token → α → Prop) :
    List Token → List α → Prop where
  | nil : Items m trailing R [] []
  | last {t : Token} : trailing = true → t.terminal = .mark m → Items m trailing R [t] []
  | cons {t : Token} {us ws : List Token} {v : α} {vs : List α} : t.terminal = .mark m → R us v →
      Items m trailing R ws vs → Items m trailing R (t :: (us ++ ws)) (v :: vs)

/-- A repetition of items with a mark in front of each. -/
theorem derivesBy_many_right {m : Mark} {item : Pattern α} {ts : List Token} {vs : List α} :
    (Pattern.many (.right (.mark m) item)).DerivesBy D ts vs ↔
      Items m false (item.DerivesBy D) ts vs := by
  constructor
  · rintro ⟨tss, rfl, hrounds⟩
    induction hrounds with
    | nil => exact .nil
    | cons hround _ ih =>
      obtain ⟨t, us, rfl, ht, hitem⟩ := derivesBy_right_mark.1 hround
      exact .cons ht hitem ih
  · intro h
    induction h with
    | nil => exact ⟨[], rfl, .nil⟩
    | last htrailing _ => cases htrailing
    | @cons t us ws v vs ht hv _ ih =>
      obtain ⟨tss, rfl, hrounds⟩ := ih
      exact ⟨(t :: us) :: tss, rfl, .cons (derivesBy_right_mark.2 ⟨t, us, rfl, ht, hv⟩) hrounds⟩

/-- At least one item, with a mark in front of each further one. -/
theorem derivesBy_separated {m : Mark} {item : Pattern α} {ts : List Token} {vs : List α} :
    (Pattern.separated m item).DerivesBy D ts vs ↔
      ∃ us ws x xs, ts = us ++ ws ∧ vs = x :: xs ∧ item.DerivesBy D us x ∧
        Items m false (item.DerivesBy D) ws xs := by
  constructor
  · rintro ⟨⟨x, xs⟩, ⟨us, ws, rfl, hx, hxs⟩, rfl⟩
    exact ⟨us, ws, x, xs, rfl, rfl, hx, derivesBy_many_right.1 hxs⟩
  · rintro ⟨us, ws, x, xs, rfl, rfl, hx, hxs⟩
    exact ⟨(x, xs), ⟨us, ws, rfl, hx, derivesBy_many_right.2 hxs⟩, rfl⟩

/-- Items after the mark, and then perhaps the mark alone. -/
theorem items_trailing_iff {m : Mark} {R : List Token → α → Prop} {ts : List Token} {vs : List α} :
    Items m true R ts vs ↔
      ∃ us ws, ts = us ++ ws ∧ Items m false R us vs ∧ (ws = [] ∨ terminals ws = [.mark m]) := by
  constructor
  · intro h
    induction h with
    | nil => exact ⟨[], [], rfl, .nil, Or.inl rfl⟩
    | @last t _ ht => exact ⟨[], [t], rfl, .nil, Or.inr (terminals_eq_singleton_iff.2 ⟨t, rfl, ht⟩)⟩
    | @cons t us _ v vs ht hv _ ih =>
      obtain ⟨us', ws, rfl, hitems, hws⟩ := ih
      refine ⟨t :: (us ++ us'), ws, ?_, .cons ht hv hitems, hws⟩
      rw [List.cons_append, List.append_assoc]
  · rintro ⟨us, ws, rfl, hitems, hws⟩
    induction hitems with
    | nil =>
      -- behind the last item, the mark is there or not
      rcases hws with rfl | hws
      · exact .nil
      · obtain ⟨t, rfl, ht⟩ := terminals_eq_singleton_iff.1 hws
        exact .last rfl ht
    | last htrailing _ => cases htrailing
    | cons ht hv _ ih =>
      rw [List.cons_append, List.append_assoc]
      exact .cons ht hv ih

/-- A mark that may be left out. -/
theorem derivesBy_opt_mark {m : Mark} {ts : List Token} :
    (∃ v, (Pattern.opt (.mark m)).DerivesBy D ts v) ↔ ts = [] ∨ terminals ts = [.mark m] := by
  constructor
  · rintro ⟨v, ⟨rfl, -⟩ | ⟨x, -, hx⟩⟩
    · exact Or.inl rfl
    · exact Or.inr (derivesBy_mark.1 hx)
  · rintro (rfl | h)
    · exact ⟨none, Or.inl ⟨rfl, rfl⟩⟩
    · exact ⟨some (), Or.inr ⟨(), rfl, derivesBy_mark.2 h⟩⟩

/-- A list with commas is empty, or an item with further items behind it. -/
theorem derivesBy_commaList {item : Pattern α} {ts : List Token} {vs : List α} :
    (Pattern.commaList item).DerivesBy D ts vs ↔
      ts = [] ∧ vs = [] ∨ ∃ us ws x xs, ts = us ++ ws ∧ vs = x :: xs ∧ item.DerivesBy D us x ∧
        Items .comma true (item.DerivesBy D) ws xs := by
  constructor
  · rintro ⟨v, ⟨rfl, rfl⟩ | ⟨x, rfl, hx⟩, rfl⟩
    · exact Or.inl ⟨rfl, rfl⟩
    · obtain ⟨us, ws, y, rfl, hitems, hlast⟩ := derivesBy_left.1 hx
      obtain ⟨us, us', x, xs, rfl, rfl, hx, hxs⟩ := derivesBy_separated.1 hitems
      refine Or.inr ⟨us, us' ++ ws, x, xs, List.append_assoc .., rfl, hx, ?_⟩
      exact items_trailing_iff.2 ⟨us', ws, rfl, hxs, derivesBy_opt_mark.1 ⟨y, hlast⟩⟩
  · rintro (⟨rfl, rfl⟩ | ⟨us, ws, x, xs, rfl, rfl, hx, hxs⟩)
    · exact ⟨none, Or.inl ⟨rfl, rfl⟩, rfl⟩
    · -- the mark at the end is taken apart from the items, as the pattern has it
      obtain ⟨us', ws, rfl, hitems, hlast⟩ := items_trailing_iff.1 hxs
      obtain ⟨y, hy⟩ := derivesBy_opt_mark.2 hlast
      refine ⟨some (x :: xs), Or.inr ⟨_, rfl, derivesBy_left.2 ⟨us ++ us', ws, y, ?_, ?_, hy⟩⟩, rfl⟩
      · rw [List.append_assoc]
      · exact derivesBy_separated.2 ⟨us, us', x, xs, rfl, rfl, hx, hitems⟩

end Lists

/-! ## Declarations and statements -/

/-- A parameter or field: a name and a type name, with a colon in between. -/
theorem Rule.derives_binder {ts : List Token} {b : Binder} :
    Rule.Derives .binder ts b ↔
      terminals ts = [.ident b.name, .mark .colon, .ident b.type] := by
  rw [Rule.derives_iff]
  constructor
  · rintro ⟨⟨name, type⟩, h, rfl⟩
    obtain ⟨t, us, rfl, ht, h⟩ := derivesBy_seq_ident.1 h
    obtain ⟨u, us, rfl, hu, h⟩ := derivesBy_right_mark.1 h
    rw [terminals_cons, terminals_cons, ht, hu, Rule.derives_typeName.1 h]
  · intro h
    obtain ⟨t, us, rfl, ht, h⟩ := exists_cons_of_terminals h
    obtain ⟨u, us, rfl, hu, h⟩ := exists_cons_of_terminals h
    exact ⟨(b.name, b.type), derivesBy_seq_ident.2 ⟨t, _, rfl, ht,
      derivesBy_right_mark.2 ⟨u, _, rfl, hu, Rule.derives_typeName.2 h⟩⟩, rfl⟩

/-- A return type: a type name with an arrow in front. -/
theorem Rule.derives_returnType {ts : List Token} {type : String} :
    Rule.Derives .returnType ts type ↔ terminals ts = [.mark .arrow, .ident type] := by
  rw [Rule.derives_iff]
  constructor
  · intro h
    obtain ⟨t, us, rfl, ht, h⟩ := derivesBy_right_mark.1 h
    rw [terminals_cons, ht, Rule.derives_typeName.1 h]
  · intro h
    obtain ⟨t, us, rfl, ht, h⟩ := exists_cons_of_terminals h
    exact derivesBy_right_mark.2 ⟨t, us, rfl, ht, Rule.derives_typeName.2 h⟩

/-- A parameter list in parentheses, with what is written of a return type behind it. -/
theorem derivesBy_signature {ts : List Token} {params : List Binder} {returnType : String} :
    Rule.signature.DerivesBy Rule.Derives ts (params, returnType) ↔
      ∃ o ps c rs type, ts = o :: (ps ++ c :: rs) ∧ o.terminal = .mark .openParen ∧
        c.terminal = .mark .closeParen ∧ Rule.Derives .binders ps params ∧
        (Pattern.opt (.rule .returnType)).DerivesBy Rule.Derives rs type ∧
        returnType = type.getD unitType := by
  constructor
  · rintro ⟨⟨ps, type⟩, ⟨us, rs, rfl, h, htype⟩, heq⟩
    cases heq
    obtain ⟨o, us, rfl, ho, h⟩ := derivesBy_right_mark.1 h
    obtain ⟨ps, c, rfl, hc, h⟩ := derivesBy_left_mark.1 h
    refine ⟨o, ps, c, rs, type, ?_, ho, hc, h, htype, rfl⟩
    rw [List.cons_append, List.append_assoc, List.singleton_append]
  · rintro ⟨o, ps, c, rs, type, rfl, ho, hc, hps, htype, rfl⟩
    refine ⟨(params, type), ⟨o :: (ps ++ [c]), rs, ?_, ?_, htype⟩, rfl⟩
    · rw [List.cons_append, List.append_assoc, List.singleton_append]
    · exact derivesBy_right_mark.2 ⟨o, _, rfl, ho, derivesBy_left_mark.2 ⟨ps, c, rfl, hc, hps⟩⟩

/-- A block: statements in braces. -/
theorem Rule.derives_block {ts : List Token} {body : List (Stmt Literal)} :
    Rule.Derives .block ts body ↔
      ∃ o ss c, ts = o :: (ss ++ [c]) ∧ o.terminal = .mark .openBrace ∧
        c.terminal = .mark .closeBrace ∧
        (Pattern.many Rule.statement).DerivesBy Rule.Derives ss body := by
  rw [Rule.derives_iff]
  constructor
  · intro h
    obtain ⟨o, us, rfl, ho, h⟩ := derivesBy_right_mark.1 h
    obtain ⟨ss, c, rfl, hc, h⟩ := derivesBy_left_mark.1 h
    exact ⟨o, ss, c, rfl, ho, hc, h⟩
  · rintro ⟨o, ss, c, rfl, ho, hc, h⟩
    exact derivesBy_right_mark.2 ⟨o, _, rfl, ho, derivesBy_left_mark.2 ⟨ss, c, rfl, hc, h⟩⟩

end Kelp.Grammar
