import Mathlib.Data.List.DropRight
import Kelp.Proofs.Decimal
import Kelp.Proofs.Grammar.Numerals
import Kelp.Proofs.Parsing

/-!
# Integer literals

What becomes of the integer literals of a text that the grammar matches.

- `Position.after_eq`: a place is told by the line feeds before it, and by the characters since the
  last one.
- `Program.parse_of_match`: a matched text is refused for the first of its literals that is too
  large, and else its constants are what its literals denote.
- `Program.parse_integerLiterals` says this of the numerals of the text, which are found without the
  grammar and whose digits count by their weights.
-/

namespace Kelp

open Grammar

/-! ## Places -/

/-- The line of a place counts the line feeds before it, and its column the characters behind the
last one of them. -/
theorem Position.after_eq (front : List Char) : Position.after front =
    ⟨front.count '\n' + 1, (front.rtakeWhile (· ≠ '\n')).length + 1⟩ := by
  induction front using List.reverseRecOn with
  | nil => rfl
  | append_singleton front c ih =>
    have hnext : Position.after (front ++ [c]) = (Position.after front).next c := by
      rw [Position.after, List.foldl_append]
      rfl
    rw [hnext, ih, Position.next]
    -- the last character starts a new line, or goes on with the last one
    by_cases hc : c = '\n'
    · rw [if_pos hc, List.rtakeWhile_concat_neg _ _ _ (by simpa using hc), List.count_append, hc]
      rfl
    · rw [if_neg hc, List.rtakeWhile_concat_pos _ _ _ (by simpa using hc), List.count_append,
        List.count_singleton, if_neg (by simpa using hc), List.length_append, List.length_singleton]

/-! ## Literals -/

namespace Grammar

/-- The integer of a literal, by the weights of its digits. -/
def Literal.integer (l : Literal) : Int := Decimal.weighted l.text.toList

/-- What the parser computes from left to right are the weights of the digits. -/
theorem Literal.denoted_eq_integer (l : Literal) : l.denoted = l.integer :=
  Decimal.value_eq_weighted l.text.toList

/-- The diagnostic about a literal behind the given characters. -/
def Literal.diagnosticAfter (front : List Char) (l : Literal) : Diagnostic where
  position := ⟨front.count '\n' + 1, (front.rtakeWhile (· ≠ '\n')).length + 1⟩
  message := "integer literal `" ++ l.text ++ "` does not fit in 64 bits"

/-- A literal in range stands for its integer. -/
theorem Literal.resolve_eq_ok_iff {text : List Char} {l : Literal} {n : Int} :
    l.resolve text = .ok n ↔ InInt64 l.integer ∧ n = l.integer := by
  rw [← l.denoted_eq_integer]
  exact resolves_resolve text l n

/-- A literal out of range is refused, with the place of its first character. -/
theorem Literal.resolve_of_not_inInt64 {front rest : List Char} {l : Literal}
    (hl : ¬ InInt64 l.integer) (hoffset : l.offset = front.length) :
    l.resolve (front ++ rest) = .error ⟨[l.diagnosticAfter front]⟩ := by
  have hfits : ¬ l.fits = true := by
    intro h
    have hok : l.resolve [] = .ok l.denoted := if_pos h
    exact hl (resolve_eq_ok_iff.1 hok).1
  rw [Literal.resolve, if_neg hfits, Position.ofOffset, hoffset, List.take_left, Position.after_eq]
  rfl

/-- A literal is not refused exactly if it is in range. -/
theorem Literal.forall_not_refuses_iff {text : List Char} {l : Literal} :
    (∀ e, ¬ Refuses (Literal.resolve text) l e) ↔ InInt64 l.integer := by
  show (∀ e, l.resolve text ≠ .error e) ↔ _
  simp only [← exists_ok_iff, resolve_eq_ok_iff, exists_and_left, exists_eq, and_true]

end Grammar

/-! ## Programs -/

section Matched

variable {source : String} {q : Program Literal} (hq : matchProgram source.toList = .ok q)

include hq

theorem Program.parse_of_match :
    Program.parse source = q.traverse (Literal.resolve source.toList) := by
  unfold Program.parse
  extract_lets text
  rw [hq]

/-- A matched text parses if all its literals are in range. -/
theorem Program.exists_parse_iff_of_match :
    (∃ p, Program.parse source = .ok p) ↔ ∀ l ∈ q.constants, InInt64 l.integer := by
  rw [Program.parse_of_match hq, exists_ok_iff]
  simp only [ne_eq, Program.traverse_eq_error_iff, forall_not_firstFailure_iff,
    Literal.forall_not_refuses_iff]

/-- Where it parses, the constants are the integers of its literals. -/
theorem Program.constants_of_match {p : Program Int} (hp : Program.parse source = .ok p) :
    p.constants = q.constants.map Literal.integer := by
  rw [Program.parse_of_match hq] at hp
  have hconstants : List.Forall₂ (fun l n => l.integer = n) q.constants p.constants :=
    (Program.constants_of_traverse hp).imp fun _ _ h => (Literal.resolve_eq_ok_iff.1 h).2.symm
  exact (List.forall₂_eq_eq_eq ▸ List.forall₂_map_left_iff.2 hconstants).symm

/-- The first literal out of range is refused. -/
theorem Program.parse_error_of_match {before after : List Literal} {l : Literal}
    (hconstants : q.constants = before ++ l :: after) (hbefore : ∀ k ∈ before, InInt64 k.integer)
    {error : ParseFailure} (hl : l.resolve source.toList = .error error) :
    Program.parse source = .error error := by
  rw [Program.parse_of_match hq, Program.traverse_eq_error_iff]
  exact ⟨before, l, after, hconstants,
    fun k hk => Literal.forall_not_refuses_iff.2 (hbefore k hk), hl⟩

end Matched

/-- **Integer literals are exact, and the first one that does not fit is reported.** A text that the
grammar matches parses exactly if all its numerals denote 64-bit integers, and the constants of the
program are these integers, in order. Otherwise there is one diagnostic, which quotes the first
numeral that does not fit and gives the line and the column of its first character. -/
theorem Program.parse_integerLiterals {source : String} {q : Program Literal}
    (hq : matchProgram source.toList = .ok q) :
    ((∃ p, Program.parse source = .ok p) ↔ ∀ l ∈ numerals source.toList, InInt64 l.integer) ∧
    (∀ p, Program.parse source = .ok p →
      p.constants = (numerals source.toList).map Literal.integer) ∧
    (∀ before l after, numerals source.toList = before ++ l :: after →
      (∀ k ∈ before, InInt64 k.integer) → ¬ InInt64 l.integer →
        ∃ front rest, source.toList = front ++ (l.text.toList ++ rest) ∧
          l.offset = front.length ∧
          Program.parse source = .error ⟨[l.diagnosticAfter front]⟩) := by
  have hnumerals := numerals_eq_constants hq
  refine ⟨?_, fun p hp => ?_, fun before l after hconstants hbefore hl => ?_⟩
  · rw [hnumerals, Program.exists_parse_iff_of_match hq]
  · rw [hnumerals, Program.constants_of_match hq hp]
  · -- the numeral stands in the text, so the text before it gives its place
    have hmem : l ∈ numerals source.toList := hconstants ▸ by simp
    obtain ⟨front, rest, htext, hoffset⟩ := exists_append_of_mem_numerals hmem
    refine ⟨front, rest, htext, hoffset, ?_⟩
    refine Program.parse_error_of_match hq (hnumerals.symm.trans hconstants) hbefore ?_
    rw [htext]
    exact Literal.resolve_of_not_inInt64 hl hoffset

/-- A source with the smallest integer, and with others out of range behind it. -/
def oversizedSource : String :=
  "fn f() \x7b // 1\n g(-9223372036854775808)(09223372036854775808, 9223372036854775809); \x7d"

theorem oversizedSource_refused : (matchProgram oversizedSource.toList).isOk = true ∧
    Program.parse oversizedSource = .error ⟨[⟨⟨2, 26⟩,
      "integer literal `09223372036854775808` does not fit in 64 bits"⟩]⟩ := by
  have hok : (matchProgram oversizedSource.toList).isOk = true := by decide +kernel
  have hnumerals : numerals oversizedSource.toList = [⟨17, "-9223372036854775808"⟩] ++
      ⟨39, "09223372036854775808"⟩ :: [⟨61, "9223372036854775809"⟩] := by decide +kernel
  obtain ⟨q, hq⟩ := exists_of_isOk hok
  obtain ⟨-, -, hrefused⟩ := Program.parse_integerLiterals hq
  obtain ⟨front, rest, htext, hoffset, hparse⟩ := hrefused _ _ _ hnumerals
    (List.forall_mem_singleton.2 (by unfold InInt64; decide +kernel))
    (by unfold InInt64; decide +kernel)
  have hfront : front = oversizedSource.toList.take 39 := by
    rw [htext, show 39 = front.length from hoffset, List.take_left]
  refine ⟨hok, hparse.trans ?_⟩
  rw [hfront]
  exact congrArg Except.error (by decide +kernel)

end Kelp
