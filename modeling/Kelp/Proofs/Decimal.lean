import Mathlib.Data.Nat.Digits.Defs
import Kelp.Proofs.Grammar.Language

/-!
# Writing integers

The decimal text of an integer is a literal, and it denotes the integer. What a literal denotes is
the sum of its digits by their weights.
-/

namespace Kelp.Decimal

open Grammar (IsNumeral)

/-- Reading the digits of a number gives the number. -/
theorem natValue_toDigits (n : Nat) : natValue (Nat.toDigits 10 n) = n := by
  have h := @Nat.ofDigitChars_ten_toDigits n
  rw [Nat.ofDigitChars_eq_foldl] at h
  rw [natValue]
  simp only [Nat.mul_comm _ 10]
  exact h

theorem isDigit_toDigits {n : Nat} {c : Char} (h : c ∈ Nat.toDigits 10 n) : c.isDigit = true :=
  Nat.isDigit_of_mem_toDigits (by decide) (by decide) h

/-- The text of an integer: its digits, after a minus sign if it is negative. -/
theorem toList_toString (n : Int) :
    (toString n).toList =
      if 0 ≤ n then Nat.toDigits 10 n.toNat else '-' :: Nat.toDigits 10 (-n).toNat := by
  rw [Int.toString_eq_repr, Int.repr_eq_if]
  split
  · rw [Nat.repr_eq_ofList_toDigits, String.toList_ofList]
  · rw [Nat.repr_eq_ofList_toDigits, String.toList_append, String.toList_ofList,
      String.toList_ofList, List.singleton_append]

/-- Digits are read without a sign. -/
theorem value_toDigits (n : Nat) : value (Nat.toDigits 10 n) = n := by
  have hvalue : value (Nat.toDigits 10 n) = natValue (Nat.toDigits 10 n) := by
    rw [value]
    intro digits hdigits
    -- a minus sign in front would be one of the digits
    have hminus : '-' ∈ Nat.toDigits 10 n := hdigits ▸ List.mem_cons_self
    exact absurd (isDigit_toDigits hminus) (by decide)
  rw [hvalue, natValue_toDigits]

/-- **The text of an integer denotes it.** -/
theorem value_toString (n : Int) : value (toString n).toList = n := by
  rw [toList_toString]
  split
  · rw [value_toDigits]
    omega
  · rw [value, natValue_toDigits]
    omega

/-- The text of an integer is a literal of the grammar. -/
theorem isNumeral_toString (n : Int) : IsNumeral (toString n).toList := by
  rw [toList_toString]
  split
  · exact ⟨_, Nat.toDigits_ne_nil, fun _ => isDigit_toDigits, Or.inl rfl⟩
  · exact ⟨_, Nat.toDigits_ne_nil, fun _ => isDigit_toDigits, Or.inr rfl⟩

/-! ## Weights of digits -/

/-- The sum of digits, each as often as the power of ten at its place says. -/
def weightedSum (digits : List Char) : Int :=
  Nat.ofDigits 10 (digits.reverse.map fun d => d.toNat - '0'.toNat)

/-- The integer that an optional minus sign and decimal digits denote, by the weights of the
digits. -/
def weighted : List Char → Int
  | '-' :: digits => -weightedSum digits
  | digits => weightedSum digits

/-- Without a sign, reading from left to right gives each digit its weight. -/
theorem natValue_eq_weightedSum (digits : List Char) : natValue digits = weightedSum digits := by
  have hnat : natValue digits =
      Nat.ofDigits 10 (digits.reverse.map fun d => d.toNat - '0'.toNat) := by
    -- both are folds, one over the digits and one over their reversal
    rw [Nat.ofDigits_eq_foldr, List.foldr_map, List.foldr_reverse, natValue]
    congr
    funext n d
    simp only [Nat.cast_id]
    omega
  rw [hnat, Nat.coe_ofDigits]
  rfl

/-- Reading digits from left to right gives each one its weight. -/
theorem value_eq_weighted (cs : List Char) : value cs = weighted cs := by
  by_cases hminus : ∃ digits, cs = '-' :: digits
  · obtain ⟨digits, rfl⟩ := hminus
    rw [value, weighted, natValue_eq_weightedSum]
  · have hne : ∀ digits, cs = '-' :: digits → False := fun digits h => hminus ⟨digits, h⟩
    have hvalue : value cs = natValue cs := by
      rw [value]
      exact hne
    have hweighted : weighted cs = weightedSum cs := by
      rw [weighted]
      exact hne
    rw [hvalue, hweighted, natValue_eq_weightedSum]

end Kelp.Decimal
