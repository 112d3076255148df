import Kelp.Proofs.Grammar.Spacing
import Kelp.Proofs.Grammar.Trees

/-!
# Parsing

A source text parses to a program exactly when it lays out a token sequence that the productions
derive with that program as its tree.

- `Program.parse_eq_ok_iff` is this equivalence.
- `layout_spaced` lays out any sequence of valid tokens, with a space between each two.
- `Program.parse_iff_derivation` adds that trees are unique, for texts and for token sequences. So
  reading the first alternative that matches and as many rounds as possible never changes what a
  text means.
-/

namespace Kelp

open Grammar

namespace Grammar

/-- The parser resolves literals as the grammar asks: those of 64-bit integers, and no others. -/
theorem resolves_resolve (text : List Char) : Resolves (Literal.resolve text) := by
  intro l n
  have hfits : l.fits = true ↔ InInt64 l.denoted := by
    rw [Literal.fits, Bool.and_eq_true, decide_eq_true_eq, decide_eq_true_eq, InInt64]
    omega
  rw [Literal.resolve, ← hfits]
  split
  · rename_i h
    rw [Except.ok.injEq, eq_comm (a := n)]
    exact (and_iff_right h).symm
  · rename_i h
    exact ⟨nofun, fun h' => absurd h'.1 h⟩

/-- Nothing follows a token of a program that must not. -/
theorem Nonterminal.Derives.followed {ws : List Terminal} {p : Program Int}
    (h : Nonterminal.Derives .program ws p) : Followed (ws.map Terminal.lexeme) [] := by
  -- the places of the tokens do not matter
  have hws : terminals (ws.map (Token.mk 0)) = ws := by
    rw [terminals, List.map_map]
    exact List.map_id ws
  rw [← hws] at h
  obtain ⟨q, hq, -⟩ := (exists_derives_program_iff (resolves_resolve [])).2 h
  have hfollowed := hq.followed
  rwa [lexemes, List.map_map] at hfollowed

end Grammar

/-- Parsing is matching, and then resolving the literals. -/
theorem Program.parse_eq_ok_iff_matchProgram {source : String} {p : Program Int} :
    Program.parse source = .ok p ↔
      ∃ q, matchProgram source.toList = .ok q ∧
        q.traverse (Literal.resolve source.toList) = .ok p := by
  unfold Program.parse
  extract_lets text
  generalize matchProgram text = m
  cases m with
  | error attempts => simp
  | ok q => simp [text]

/-- **The parser accepts exactly its grammar**, and builds the tree of the derivation. -/
theorem Program.parse_eq_ok_iff {source : String} {p : Program Int} :
    Program.parse source = .ok p ↔
      ∃ ws, Layout ws source.toList ∧ Nonterminal.Derives .program ws p := by
  rw [Program.parse_eq_ok_iff_matchProgram]
  have hf := resolves_resolve source.toList
  constructor
  · rintro ⟨q, hq, hp⟩
    obtain ⟨ts, cEnd, hspans, hEnd, hts⟩ := matchProgram_iff_derives.1 hq
    exact ⟨terminals ts, hspans.layout hEnd hts.followed,
      (exists_derives_program_iff hf).1 ⟨q, hts, hp⟩⟩
  · rintro ⟨ws, hlayout, hws⟩
    obtain ⟨ts, cEnd, rfl, hspans, hEnd⟩ := hlayout.exists_spans hws.followed 0
    obtain ⟨q, hq, hp⟩ := (exists_derives_program_iff hf).2 hws
    exact ⟨q, matchProgram_iff_derives.2 ⟨ts, cEnd, hspans, hEnd, hq⟩, hp⟩

/-! ## Laying tokens out -/

namespace Grammar

/-- The characters of the tokens, with a space between each two. -/
def spaced (ws : List Terminal) : List Char :=
  [' '].intercalate (ws.map Terminal.chars)

/-- A space can be put in front of anything. -/
theorem Layout.space {ws : List Terminal} {s : List Char} (h : Layout ws s) :
    Layout ws (' ' :: s) := by
  cases h with
  | done hg =>
    cases hg with
    | gap hg => exact .done (.gap (.blank rfl hg))
    | comment hg hbody => exact .done (.comment (.blank rfl hg) hbody)
  | token hg ht hapart hrest => exact .token (.blank rfl hg) ht hapart hrest

/-- A space keeps any two tokens apart. -/
theorem apart_space (cs s : List Char) : Apart cs (' ' :: s) := by
  rintro a - b hb ⟨-, hword⟩
  cases hb
  exact absurd hword (by decide)

/-- Valid tokens are laid out by a single space between each two. -/
theorem layout_spaced : ∀ {ws : List Terminal}, (∀ t ∈ ws, t.Valid) → Layout ws (spaced ws)
  | [], _ => .done (.gap .nil)
  | [t], h => .token .nil (h t List.mem_cons_self) (apart_nil _) (.done (.gap .nil))
  | t :: t' :: ws, h => by
    have hrest : Layout (t' :: ws) (spaced (t' :: ws)) :=
      layout_spaced fun u hu => h u (List.mem_cons_of_mem t hu)
    exact .token .nil (h t List.mem_cons_self) (apart_space _ _) hrest.space

end Grammar

/-- **Parsing**: a text parses to a program exactly when it lays out tokens that the productions
derive with that program. The program is unique, for the text and for the token sequence. -/
theorem Program.parse_iff_derivation :
    (∀ (source : String) (p : Program Int), Program.parse source = .ok p ↔
      ∃ ws, Layout ws source.toList ∧ Nonterminal.Derives .program ws p) ∧
    (∀ (text : List Char) (ws ws' : List Terminal) (p p' : Program Int), Layout ws text →
      Layout ws' text → Nonterminal.Derives .program ws p → Nonterminal.Derives .program ws' p' →
      p = p') ∧
    (∀ (ws : List Terminal) (p p' : Program Int), (∀ t ∈ ws, t.Valid) →
      Nonterminal.Derives .program ws p → Nonterminal.Derives .program ws p' → p = p') := by
  have hunique : ∀ (text : List Char) (ws ws' : List Terminal) (p p' : Program Int),
      Layout ws text → Layout ws' text → Nonterminal.Derives .program ws p →
      Nonterminal.Derives .program ws' p' → p = p' := by
    intro text ws ws' p p' hlayout hlayout' hws hws'
    -- both are trees that the parser would build of this text
    rw [← @String.toList_ofList text] at hlayout hlayout'
    have hp := Program.parse_eq_ok_iff.2 ⟨ws, hlayout, hws⟩
    rw [Program.parse_eq_ok_iff.2 ⟨ws', hlayout', hws'⟩] at hp
    exact (Except.ok.inj hp).symm
  refine ⟨fun _ _ => Program.parse_eq_ok_iff, hunique, ?_⟩
  intro ws p p' hvalid hws hws'
  exact hunique (spaced ws) ws ws p p' (layout_spaced hvalid) (layout_spaced hvalid) hws hws'

end Kelp
