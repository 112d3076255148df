import Kelp.Proofs.Script.Loading

/-!
# String literals of scripts

What the text of a property key stands for, said by the rules of the script language.

- `Denotes inside cs` has one rule for each way to write a character inside a string literal. A
  quote, a backslash or the end of a line never stands there by itself.
- `Denotes.literalTail_eq`: so what is written in a literal ends at its closing quote, and denotes
  one text only.
- `denotes_flatMap_escape`: the escapes of the characters of a name denote the name, unless the zero
  character stands before a digit in it.
- `propertyKey_denotes` is about keys, and about the objects that they stand in.
-/

namespace Kelp.Script

/-- The characters that end a line of a script: line feed, carriage return, and the two separators
of lines and of paragraphs. -/
def lineBreaks : List Char := ['\n', '\r', '\u2028', '\u2029']

/-- The characters between the quotes of a string literal, and the text that they denote. -/
inductive Denotes : List Char → List Char → Prop where
  | nil : Denotes [] []
  /-- A character that denotes itself. -/
  | plain {c : Char} {inside cs : List Char} (hquote : c ≠ '"') (hescape : c ≠ '\\')
      (hbreak : c ∉ lineBreaks) (hrest : Denotes inside cs) : Denotes (c :: inside) (c :: cs)
  /-- `\0`. Before a digit it would be the beginning of an octal number. -/
  | zero {inside cs : List Char} (hdigit : ∀ d ∈ inside.head?, d.isDigit = false)
      (hrest : Denotes inside cs) : Denotes ('\\' :: '0' :: inside) ('\x00' :: cs)
  /-- `\t`, `\n`, `\r`, `\"` and `\\`. -/
  | letter {c x : Char} {inside cs : List Char} (hx : (c, x) ∈ letterEscapes)
      (hrest : Denotes inside cs) : Denotes ('\\' :: x :: inside) (c :: cs)
  /-- `\u` with a hexadecimal number in braces. -/
  | number {c : Char} {digits inside cs : List Char} (hne : digits ≠ [])
      (hvalue : hexValue 0 digits = some c.toNat) (hrest : Denotes inside cs) :
      Denotes ('\\' :: 'u' :: '{' :: (digits ++ '}' :: inside)) (c :: cs)

/-- **Literals end at their closing quote**, whatever follows it. -/
theorem Denotes.literalTail_eq {inside cs : List Char} (h : Denotes inside cs) (rest : List Char) :
    literalTail (inside ++ '"' :: rest) = some (cs, rest) := by
  induction h with
  | nil => rw [List.nil_append, literalTail]
  | plain hquote hescape hbreak _ ih =>
    simp only [lineBreaks, List.mem_cons, not_or] at hbreak
    rw [List.cons_append, literalTail_plain hquote hescape hbreak.1 hbreak.2.1, ih]
    rfl
  | @zero inside cs hdigit _ ih =>
    have hnext : ¬ (inside ++ '"' :: rest).head?.any Char.isDigit = true := by
      cases inside with
      | nil => simp
      | cons d inside => simp [hdigit d rfl]
    rw [List.cons_append, List.cons_append, literalTail_zero, if_neg hnext, ih]
    rfl
  | letter hx _ ih =>
    rw [List.cons_append, List.cons_append, literalTail_letter hx, ih]
    rfl
  | @number c digits inside cs hne hvalue _ ih =>
    have hshape : '\\' :: 'u' :: '{' :: (digits ++ '}' :: inside) ++ '"' :: rest =
        '\\' :: 'u' :: '{' :: (digits ++ '}' :: (inside ++ '"' :: rest)) := by simp
    rw [hshape, literalTail_number hne hvalue, ih]
    rfl

/-- A literal denotes one text only. -/
theorem Denotes.unique {inside cs cs' : List Char} (h : Denotes inside cs)
    (h' : Denotes inside cs') : cs = cs' := by
  have heq := (h.literalTail_eq []).symm.trans (h'.literalTail_eq [])
  exact congrArg Prod.fst (Option.some.inj heq)

/-! ## Literals of names -/

/-- The zero character never stands right before a digit. -/
def ZerosApart (cs : List Char) : Prop :=
  ∀ front d rest, cs = front ++ '\x00' :: d :: rest → d.isDigit = false

/-- `zeroBeforeDigit` tests for it. -/
theorem zerosApart_iff {cs : List Char} : ZerosApart cs ↔ zeroBeforeDigit cs = false := by
  induction cs with
  | nil => exact iff_of_true (fun front _ _ h => absurd h (by simp)) rfl
  | cons c cs ih =>
    rw [zeroBeforeDigit, Bool.or_eq_false_iff, ← ih]
    constructor
    · intro h
      refine ⟨?_, fun front d rest hcs => h (c :: front) d rest (by rw [hcs, List.cons_append])⟩
      rw [Bool.and_eq_false_iff, or_iff_not_imp_left]
      intro hc
      cases cs with
      | nil => rfl
      | cons d rest =>
        -- the character in front is the zero, so the next one is no digit
        have hzero : c = '\x00' := by simpa using hc
        exact h [] d rest (by rw [hzero, List.nil_append])
    · rintro ⟨hfirst, hrest⟩ front d rest hcs
      cases front with
      | nil =>
        cases hcs
        simpa using hfirst
      | cons c' front => exact hrest front d rest (List.cons.inj hcs).2

/-- A character that ends a line is never written as it is. -/
theorem notMem_lineBreaks {c : Char} (h : escape c = [c]) : c ∉ lineBreaks := by
  have hall : lineBreaks.all (fun d => escape d != [d]) = true := by decide +kernel
  intro hc
  exact absurd h (bne_iff_ne.1 (List.all_eq_true.1 hall c hc))

/-- The escapes of the characters of a name denote the name. -/
theorem denotes_flatMap_escape {name : List Char} (h : zeroBeforeDigit name = false) :
    Denotes (name.flatMap escape) name := by
  induction name with
  | nil => exact .nil
  | cons c name ih =>
    rw [zeroBeforeDigit, Bool.or_eq_false_iff] at h
    rw [List.flatMap_cons]
    rcases escape_cases c with ⟨rfl, hc⟩ | ⟨x, hx, hc⟩ | ⟨-, -, hc⟩ | ⟨-, hletter, hc⟩
    · rw [hc]
      show Denotes ('\\' :: '0' :: name.flatMap escape) _
      refine .zero (fun d hd => ?_) (ih h.2)
      cases name with
      | nil => cases hd
      | cons c' name =>
        -- what is written for a character starts with a digit only if the character is one
        have hhead := any_isDigit_escape c' (name.flatMap escape)
        rw [← List.flatMap_cons, Option.mem_def.1 hd] at hhead
        have hdigit : c'.isDigit = false := by simpa using h.1
        exact hhead.trans hdigit
    · rw [hc]
      exact .letter hx (ih h.2)
    · rw [hc, numericEscape_append]
      exact .number Nat.toDigits_ne_nil (hexValue_toDigits c.toNat) (ih h.2)
    · have hbreak := notMem_lineBreaks hc
      rw [hc]
      refine .plain ?_ ?_ hbreak (ih h.2)
      · rintro rfl
        exact hletter '"' (by decide)
      · rintro rfl
        exact hletter '\\' (by decide)

/-! ## Keys -/

/-- **Property keys denote the names that they were made from.** The key of a name in which no zero
character stands before a digit is the name itself, if that is an identifier, and else a string
literal that denotes the name and nothing else. It is read as one token up to its end, different
names have different keys, and in an object the key takes nothing from what follows it. -/
theorem propertyKey_denotes {name : String} (h : ZerosApart name.toList) :
    (isIdent name.toList = true → propertyKey name = name) ∧
    (isIdent name.toList = false → ∃ inside, (propertyKey name).toList = '"' :: (inside ++ ['"']) ∧
      ∀ cs, Denotes inside cs ↔ cs = name.toList) ∧
    (∀ rest, (∀ c ∈ rest.head?, isIdentChar c = false) →
      key ((propertyKey name).toList ++ rest) = some (name, rest)) ∧
    (∀ name' : String, ZerosApart name'.toList → propertyKey name' = propertyKey name →
      name' = name) ∧
    ∀ hosts : List HostFunction, (∀ host ∈ hosts, host.WellFormed) → ∀ rest,
      Script.importObject ((Kelp.importObject hosts name).toList ++ rest) =
        some (⟨name, forwarders hosts⟩, rest) := by
  have hkey : ∀ {name : String}, ZerosApart name.toList → ∀ rest,
      (∀ c ∈ rest.head?, isIdentChar c = false) →
        key ((propertyKey name).toList ++ rest) = some (name, rest) := by
    intro name h rest hrest
    rw [key_propertyKey name hrest, zerosApart_iff.1 h, if_neg Bool.false_ne_true]
  refine ⟨fun hident => ?_, fun hident => ?_, hkey h, fun name' h' heq => ?_, ?_⟩
  · rw [propertyKey, if_pos hident]
  · have hdenotes := denotes_flatMap_escape (zerosApart_iff.1 h)
    refine ⟨name.toList.flatMap escape, ?_, fun cs => ⟨fun hcs => hcs.unique hdenotes, ?_⟩⟩
    · rw [propertyKey, hident, if_neg Bool.false_ne_true, String.toList_ofList]
      rfl
    · rintro rfl
      exact hdenotes
  · have hread := hkey h' [] (by simp)
    rw [heq, hkey h [] (by simp)] at hread
    exact (congrArg Prod.fst (Option.some.inj hread)).symm
  · intro hosts hhosts rest
    rw [importObject_importObject hhosts, zerosApart_iff.1 h, if_neg Bool.false_ne_true]

/-- A name that tries to end the literal and the object around it, with a combining mark behind a
letter and separators of lines. -/
def hostileName : String := "\" \x7d;\\\n\x00e\u0301\u2028"

theorem hostileName_denoted : ZerosApart hostileName.toList ∧
    propertyKey hostileName =
      "\"\\\" \x7d;\\\\\\n\\0e\\u\x7b301\x7d\\u\x7b2028\x7d\"" ∧
    key ((propertyKey hostileName).toList ++ ": \x7b\x7d \x7d".toList) =
      some (hostileName, ": \x7b\x7d \x7d".toList) := by
  have hzeros : ZerosApart hostileName.toList := zerosApart_iff.2 (by rfl)
  obtain ⟨-, -, hkey, -⟩ := propertyKey_denotes hzeros
  exact ⟨hzeros, by decide +kernel, hkey _ (by simp [isIdentChar])⟩

end Kelp.Script
