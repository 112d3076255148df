import Kelp.Proofs.Readers
import Kelp.Proofs.Wat.StringBody
import Kelp.Script.Names

/-!
# Property keys

What a script reads where a property key is written.

- `key` reads a key: an identifier, or a string literal with its escapes. A backslash with a zero
  stands for a character only where no digit follows, since with one it would be an octal number.
- `key_propertyKey`: the key that is written for a name is read as this name, unless the name has
  the zero character before a digit. Then nothing is read.
-/

namespace Kelp.Script

open Wat.StringBody (hexDigit? letterEscape? charOfNat? ne_of_hexDigit?)

/-! ## Reading keys -/

mutual

/-- The characters that the inside of a string literal denotes, up to its closing quote. -/
def literalTail : Reader Char (List Char)
  | [] => none
  | '"' :: rest => some ([], rest)
  | '\\' :: 'u' :: '{' :: d :: rest =>
    match hexDigit? d with
    | some v => bracedTail v rest
    | none => none
  | '\\' :: '0' :: rest =>
    if rest.head?.any Char.isDigit then none
    else (literalTail rest).map (Prod.map ('\x00' :: ·) id)
  | '\\' :: c :: rest =>
    match letterEscape? c with
    | some e => (literalTail rest).map (Prod.map (e :: ·) id)
    | none => none
  | c :: rest =>
    if c = '\\' || c = '\n' || c = '\r' then none
    else (literalTail rest).map (Prod.map (c :: ·) id)

/-- The same, inside a character number in braces of which the digits so far have the given
value. -/
def bracedTail (value : Nat) : Reader Char (List Char)
  | [] => none
  | '}' :: rest =>
    match charOfNat? value with
    | some c => (literalTail rest).map (Prod.map (c :: ·) id)
    | none => none
  | d :: rest =>
    match hexDigit? d with
    | some v => bracedTail (value * 16 + v) rest
    | none => none

end

/-- A property key, by the name that it denotes. -/
def key : Reader Char String
  | [] => none
  | '"' :: rest => (literalTail rest).map (Prod.map String.ofList id)
  | c :: rest =>
    if isIdentStart c then
      some (String.ofList (c :: rest.takeWhile isIdentChar), rest.dropWhile isIdentChar)
    else none

/-! ## Numbers in braces -/

/-- Digits are read back. -/
theorem hexDigit?_digitChar {n : Nat} (h : n < 16) : hexDigit? n.digitChar = some n := by
  have hall : ∀ k : Fin 16, hexDigit? k.val.digitChar = some k.val := by decide
  exact hall ⟨n, h⟩

/-- The value of hexadecimal digits behind others. -/
def hexValue (value : Nat) : List Char → Option Nat
  | [] => some value
  | d :: ds => (hexDigit? d).bind fun v => hexValue (value * 16 + v) ds

/-- More digits behind others. -/
theorem hexValue_append {ds ds' : List Char} {value n : Nat} (h : hexValue value ds = some n) :
    hexValue value (ds ++ ds') = hexValue n ds' := by
  induction ds generalizing value with
  | nil =>
    cases h
    rfl
  | cons d ds ih =>
    obtain ⟨v, hv, h⟩ := Option.bind_eq_some_iff.1 h
    rw [List.cons_append, hexValue, hv, Option.bind_some, ih h]

/-- A number is read back from its digits. By strong induction, since the last digit is split off
first. -/
theorem hexValue_toDigits (n : Nat) : hexValue 0 (Nat.toDigits 16 n) = some n := by
  induction n using Nat.strong_induction_on with
  | _ n ih =>
    by_cases hn : n < 16
    · rw [Nat.toDigits_of_lt_base hn, hexValue, hexDigit?_digitChar hn, Option.bind_some, hexValue,
        Nat.zero_mul, Nat.zero_add]
    · rw [Nat.toDigits_of_base_le (by decide) (Nat.le_of_not_lt hn),
        hexValue_append (ih (n / 16) (by omega)), hexValue,
        hexDigit?_digitChar (Nat.mod_lt n (by decide)), Option.bind_some, hexValue]
      congr 1
      omega

/-- Digits are read up to the closing brace. -/
theorem bracedTail_append {ds rest : List Char} {value n : Nat} {c : Char}
    (h : hexValue value ds = some n) (hc : charOfNat? n = some c) :
    bracedTail value (ds ++ '}' :: rest) =
      (literalTail rest).map (Prod.map (c :: ·) id) := by
  induction ds generalizing value with
  | nil =>
    cases h
    rw [List.nil_append, bracedTail, hc]
  | cons d ds ih =>
    obtain ⟨v, hv, h⟩ := Option.bind_eq_some_iff.1 h
    rw [List.cons_append, bracedTail, hv]
    · exact ih h
    · exact ne_of_hexDigit? hv (by decide)

/-- A character is read back from its number. -/
theorem charOfNat?_toNat (c : Char) : charOfNat? c.toNat = some c := by
  have hvalid : c.toNat.isValidChar := c.valid
  rw [charOfNat?, dif_pos hvalid]
  rfl

/-- A number in braces is read as the character with this number. -/
theorem literalTail_number {ds : List Char} {c : Char} (hne : ds ≠ [])
    (h : hexValue 0 ds = some c.toNat) (rest : List Char) :
    literalTail ('\\' :: 'u' :: '{' :: (ds ++ '}' :: rest)) =
      (literalTail rest).map (Prod.map (c :: ·) id) := by
  cases ds with
  | nil => exact absurd rfl hne
  | cons d ds =>
    obtain ⟨v, hv, h⟩ := Option.bind_eq_some_iff.1 h
    rw [Nat.zero_mul, Nat.zero_add] at h
    show (match hexDigit? d with | some v => bracedTail v _ | none => none) = _
    rw [hv]
    exact bracedTail_append h (charOfNat?_toNat c)

theorem numericEscape_append (c : Char) (rest : List Char) : numericEscape c ++ rest =
    '\\' :: 'u' :: '{' :: (Nat.toDigits 16 c.toNat ++ '}' :: rest) := by
  simp [numericEscape]

/-! ## String literals -/

/-- The zero character stands before a digit. -/
def zeroBeforeDigit : List Char → Bool
  | [] => false
  | c :: rest => c = '\x00' && rest.head?.any Char.isDigit || zeroBeforeDigit rest

/-- The visible characters of ASCII are printable. -/
theorem isUnprintable_eq_false {c : Char} (h : 0x20 ≤ c.toNat ∧ c.toNat < 0x7f) :
    isUnprintable c = false := by
  have hranges : ∀ r ∈ unprintableRanges, r.2 < 0x20 ∨ 0x7f ≤ r.1 := by decide +kernel
  rw [isUnprintable, List.any_eq_false]
  intro r hr hc
  rw [Bool.and_eq_true, decide_eq_true_eq, decide_eq_true_eq] at hc
  have hr' := hranges r hr
  omega

theorem toNat_range_of_isDigit {c : Char} (h : c.isDigit = true) :
    48 ≤ c.toNat ∧ c.toNat ≤ 57 := by
  rw [Char.isDigit, Bool.and_eq_true, decide_eq_true_eq, decide_eq_true_eq] at h
  exact ⟨h.1, h.2⟩

/-- The characters that are escaped by a letter or by themselves, each with what stands behind the
backslash. -/
def letterEscapes : List (Char × Char) :=
  [('\t', 't'), ('\n', 'n'), ('\r', 'r'), ('"', '"'), ('\\', '\\')]

/-- The ways in which a character may be written in a string literal. -/
theorem escape_cases (c : Char) :
    (c = '\x00' ∧ escape c = ['\\', '0']) ∨
    (∃ x, (c, x) ∈ letterEscapes ∧ escape c = ['\\', x]) ∨
    (c ≠ '\x00' ∧ isUnprintable c = true ∧ escape c = numericEscape c) ∨
    (c ≠ '\x00' ∧ (∀ x, (c, x) ∉ letterEscapes) ∧ escape c = [c]) := by
  by_cases hzero : c = '\x00'
  · exact .inl ⟨hzero, by rw [escape, if_pos hzero]⟩
  · by_cases hletter : ∃ x, (c, x) ∈ letterEscapes
    · obtain ⟨x, hx⟩ := hletter
      have hall : ∀ p ∈ letterEscapes, escape p.1 = ['\\', p.2] := by decide +kernel
      exact .inr (.inl ⟨x, hx, hall _ hx⟩)
    · have hne : c ≠ '\t' ∧ c ≠ '\n' ∧ c ≠ '\r' ∧ c ≠ '"' ∧ c ≠ '\\' := by
        simp only [letterEscapes, List.mem_cons, List.not_mem_nil, Prod.mk.injEq] at hletter
        grind
      have hrest : escape c = if isUnprintable c then numericEscape c else [c] := by
        simp only [escape, hzero, hne, if_false]
      refine .inr (.inr ?_)
      by_cases hc : isUnprintable c = true
      · exact .inl ⟨hzero, hc, by rw [hrest, if_pos hc]⟩
      · exact .inr ⟨hzero, not_exists.1 hletter, by rw [hrest, if_neg hc]⟩

/-- No escape by a letter is mistaken for another kind of escape. -/
theorem letterEscapes_spec : ∀ p ∈ letterEscapes, letterEscape? p.2 = some p.1 ∧ p.2 ≠ 'u' ∧
    p.2 ≠ '0' ∧ p.1 ≠ '\x00' ∧ p.1.isDigit = false := by
  decide

/-- A character starts with a digit in a string literal exactly when it is one. -/
theorem any_isDigit_escape (c : Char) (rest : List Char) :
    (escape c ++ rest).head?.any Char.isDigit = c.isDigit := by
  rcases escape_cases c with ⟨rfl, h⟩ | ⟨x, hx, h⟩ | ⟨-, hc, h⟩ | ⟨-, -, h⟩
  · rw [h]
    rfl
  · rw [h, (letterEscapes_spec _ hx).2.2.2.2]
    rfl
  · -- digits are printable, so no digit is written as a number
    have hdigit : c.isDigit = false := by
      rw [Bool.eq_false_iff]
      intro hdigit
      have hrange := toNat_range_of_isDigit hdigit
      rw [isUnprintable_eq_false (by omega)] at hc
      cases hc
    rw [h, hdigit]
    rfl
  · rw [h]
    rfl

theorem literalTail_zero (rest : List Char) : literalTail ('\\' :: '0' :: rest) =
    if rest.head?.any Char.isDigit = true then none
    else (literalTail rest).map (Prod.map ('\x00' :: ·) id) := rfl

theorem literalTail_letter {c x : Char} (h : (c, x) ∈ letterEscapes) (rest : List Char) :
    literalTail ('\\' :: x :: rest) = (literalTail rest).map (Prod.map (c :: ·) id) := by
  obtain ⟨hx, hu, hdigit, -⟩ := letterEscapes_spec _ h
  rw [literalTail, hx]
  · exact fun _ _ hx => absurd hx hu
  · exact hdigit

/-- A character without an escape stands for itself. -/
theorem literalTail_plain {c : Char} (hquote : c ≠ '"') (hescape : c ≠ '\\') (hfeed : c ≠ '\n')
    (hreturn : c ≠ '\r') (rest : List Char) :
    literalTail (c :: rest) = (literalTail rest).map (Prod.map (c :: ·) id) := by
  rw [literalTail, if_neg]
  · simp only [Bool.or_eq_true, decide_eq_true_eq, not_or]
    exact ⟨⟨hescape, hfeed⟩, hreturn⟩
  · exact hquote
  · exact fun _ _ hc => absurd hc hescape
  · exact fun _ hc => absurd hc hescape
  · exact fun _ _ hc => absurd hc hescape

/-- Each character of a name is read from its escape. -/
theorem literalTail_escape (c : Char) (rest : List Char) : literalTail (escape c ++ rest) =
    if c = '\x00' ∧ rest.head?.any Char.isDigit = true then none
    else (literalTail rest).map (Prod.map (c :: ·) id) := by
  rcases escape_cases c with ⟨rfl, h⟩ | ⟨x, hx, h⟩ | ⟨hzero, -, h⟩ | ⟨hzero, hletter, h⟩
  · show literalTail ('\\' :: '0' :: rest) = _
    rw [literalTail_zero]
    by_cases hdigit : rest.head?.any Char.isDigit = true
    · rw [if_pos hdigit, if_pos ⟨rfl, hdigit⟩]
    · rw [if_neg hdigit, if_neg fun h => hdigit h.2]
  · rw [h, if_neg fun h => (letterEscapes_spec _ hx).2.2.2.1 h.1]
    exact literalTail_letter hx rest
  · rw [h, if_neg fun h => hzero h.1, numericEscape_append]
    exact literalTail_number Nat.toDigits_ne_nil (hexValue_toDigits c.toNat) rest
  · have hne : ∀ x d, (x, d) ∈ letterEscapes → c ≠ x := by
      rintro _ d hd rfl
      exact hletter d hd
    rw [h, if_neg fun h => hzero h.1]
    exact literalTail_plain (hne _ '"' (by decide)) (hne _ '\\' (by decide))
      (hne _ 'n' (by decide)) (hne _ 'r' (by decide)) rest

/-- **String literals**: the literal of a name is read as the name, unless the zero character stands
before a digit. -/
theorem literalTail_flatMap_escape (name rest : List Char) :
    literalTail (name.flatMap escape ++ '"' :: rest) =
      if zeroBeforeDigit name = true then none else some (name, rest) := by
  induction name with
  | nil => rfl
  | cons c name ih =>
    -- whether a digit follows is seen in the name as well as in the literal
    have hdigit : (name.flatMap escape ++ '"' :: rest).head?.any Char.isDigit =
        name.head?.any Char.isDigit := by
      cases name with
      | nil => rfl
      | cons d name =>
        rw [List.flatMap_cons, List.append_assoc, any_isDigit_escape]
        rfl
    rw [List.flatMap_cons, List.append_assoc, literalTail_escape, hdigit, ih, zeroBeforeDigit]
    by_cases hzero : c = '\x00' ∧ name.head?.any Char.isDigit = true
    · simp [hzero]
    · by_cases hname : zeroBeforeDigit name = true
      · simp [hname]
      · simp [hname, hzero]

/-! ## Keys -/

/-- Names without the zero character are safe. -/
theorem zeroBeforeDigit_of_notMem {cs : List Char} (h : '\x00' ∉ cs) :
    zeroBeforeDigit cs = false := by
  induction cs with
  | nil => rfl
  | cons c cs ih =>
    rw [List.mem_cons, not_or] at h
    simp [zeroBeforeDigit, Ne.symm h.1, ih h.2]

theorem zeroBeforeDigit_of_isIdentChar {cs : List Char} (h : ∀ c ∈ cs, isIdentChar c = true) :
    zeroBeforeDigit cs = false :=
  zeroBeforeDigit_of_notMem fun hzero => absurd (h _ hzero) (by decide)

/-- What starts an identifier may also go on with it. -/
theorem isIdentChar_of_isIdentStart {c : Char} (h : isIdentStart c = true) :
    isIdentChar c = true := by
  simp only [isIdentStart, isIdentChar, Char.isAlphanum, Bool.or_eq_true] at h ⊢
  tauto

theorem forall_isIdentChar_of_isIdent {cs : List Char} (h : isIdent cs = true) :
    ∀ c ∈ cs, isIdentChar c = true := by
  cases cs with
  | nil => exact nofun
  | cons c cs =>
    rw [isIdent, Bool.and_eq_true, List.all_eq_true] at h
    exact List.forall_mem_cons.2 ⟨isIdentChar_of_isIdentStart h.1, h.2⟩

/-- The key of a name that is no identifier stands between quotes. -/
theorem toList_propertyKey_append {name : String} (hname : ¬ isIdent name.toList = true)
    (rest : List Char) : (propertyKey name).toList ++ rest =
      '"' :: (name.toList.flatMap escape ++ '"' :: rest) := by
  rw [propertyKey, if_neg hname, String.toList_ofList, stringLiteral]
  simp

/-- **Keys**: the key that is written for a name is read as the name, unless the zero character
stands before a digit in it. -/
theorem key_propertyKey (name : String) {rest : List Char}
    (hrest : ∀ c ∈ rest.head?, isIdentChar c = false) :
    key ((propertyKey name).toList ++ rest) =
      if zeroBeforeDigit name.toList = true then none else some (name, rest) := by
  by_cases hname : isIdent name.toList = true
  · have hchars := forall_isIdentChar_of_isIdent hname
    rw [propertyKey, if_pos hname, zeroBeforeDigit_of_isIdentChar hchars]
    cases hcs : name.toList with
    | nil => rw [hcs] at hname; cases hname
    | cons c cs =>
      rw [hcs] at hname hchars
      rw [isIdent, Bool.and_eq_true] at hname
      rw [List.forall_mem_cons] at hchars
      -- an identifier is not taken for a literal
      have hquote : c ≠ '"' := by
        rintro rfl
        exact absurd hname.1 (by decide)
      -- the identifier ends where the rest begins
      have htake : rest.takeWhile isIdentChar = [] ∧ rest.dropWhile isIdentChar = rest := by
        cases rest with
        | nil => exact ⟨rfl, rfl⟩
        | cons d rest => simp [hrest d rfl]
      rw [List.cons_append, key, if_pos hname.1, List.takeWhile_append_of_pos hchars.2,
        List.dropWhile_append_of_pos hchars.2, htake.1, htake.2, List.append_nil, ← hcs,
        String.ofList_toList]
      · rfl
      · exact hquote
  · rw [toList_propertyKey_append hname, key, literalTail_flatMap_escape]
    split
    · rfl
    · rw [Option.map_some, Prod.map_apply, String.ofList_toList]
      rfl

end Kelp.Script
