import Mathlib.Algebra.Group.Nat.Defs
import Mathlib.Data.List.Basic
import Kelp.Base64

/-!
# Base64 is read back

`Base64.decode?` takes a text in groups of four characters. Only the last group may be filled up,
and then its bits that belong to no byte are zero. `decode?_encode` says that a byte string is read
from its Base64 form.

The standard knows neither groups nor the arithmetic on them: it cuts the bits of all bytes into
runs of six.

- `Represents` is the standard, and `represents_encode` says that forms meet it.
- `Represents.unique`: a text that meets it stands for one byte string only.
-/

namespace Kelp.Base64

/-! ## Reading -/

/-- The number of a digit. -/
def number? (c : Char) : Option Nat := (List.range 64).find? fun n => digit n = c

/-- The bytes of a group of four characters. -/
def group? (a b c d : Char) : Option Bytes := do
  let x ← number? a
  let y ← number? b
  if c = '=' ∧ d = '=' then
    if y % 16 = 0 then return [UInt8.ofNat (x * 4 + y / 16)] else none
  else
    let z ← number? c
    if d = '=' then
      if z % 4 = 0 then
        return [UInt8.ofNat (x * 4 + y / 16), UInt8.ofNat (y % 16 * 16 + z / 4)]
      else none
    else
      let w ← number? d
      return [UInt8.ofNat (x * 4 + y / 16), UInt8.ofNat (y % 16 * 16 + z / 4),
        UInt8.ofNat (z % 4 * 64 + w)]

/-- The byte string with the given Base64 form. -/
def decode? : List Char → Option Bytes
  | [] => some []
  | a :: b :: c :: d :: rest => do
    let bytes ← group? a b c d
    if bytes.length < 3 ∧ rest ≠ [] then none else return bytes ++ (← decode? rest)
  | _ => none

/-! ## Digits -/

/-- Digits are told apart. -/
theorem number?_digit {n : Nat} (h : n < 64) : number? (digit n) = some n := by
  have hall : ∀ k : Fin 64, number? (digit k) = some k.val := by decide
  exact hall ⟨n, h⟩

/-- No digit is a padding sign, nor does it end the literal or the line that a form stands in. -/
theorem digit_ne {n : Nat} (h : n < 64) : digit n ≠ '=' ∧ digit n ≠ '"' ∧ digit n ≠ '\n' := by
  have hall : ∀ k : Fin 64, digit k ≠ '=' ∧ digit k ≠ '"' ∧ digit k ≠ '\n' := by decide
  exact hall ⟨n, h⟩

/-! ## Groups -/

section Groups

variable {x y z w : Nat} (hx : x < 64) (hy : y < 64) (hz : z < 64) (hw : w < 64)

include hx hy

/-- A group that is filled up twice holds one byte. -/
theorem group?_one (h : y % 16 = 0) :
    group? (digit x) (digit y) '=' '=' = some [UInt8.ofNat (x * 4 + y / 16)] := by
  simp [group?, number?_digit hx, number?_digit hy, h]

include hz

/-- A group that is filled up once holds two bytes. -/
theorem group?_two (h : z % 4 = 0) : group? (digit x) (digit y) (digit z) '=' =
    some [UInt8.ofNat (x * 4 + y / 16), UInt8.ofNat (y % 16 * 16 + z / 4)] := by
  simp [group?, number?_digit hx, number?_digit hy, number?_digit hz, (digit_ne hz).1, h]

include hw

/-- A full group holds three bytes. -/
theorem group?_three : group? (digit x) (digit y) (digit z) (digit w) =
    some [UInt8.ofNat (x * 4 + y / 16), UInt8.ofNat (y % 16 * 16 + z / 4),
      UInt8.ofNat (z % 4 * 64 + w)] := by
  simp [group?, number?_digit hx, number?_digit hy, number?_digit hz, number?_digit hw,
    (digit_ne hw).1]

end Groups

theorem ofNat_eq {b : UInt8} {n : Nat} (h : n = b.toNat) : UInt8.ofNat n = b := by
  rw [h, UInt8.ofNat_toNat]

/-- **Base64 forms are read back.** -/
theorem decode?_encode : ∀ bytes : Bytes, decode? (encode bytes) = some bytes
  | [] => rfl
  | [a] => by
    have ha := a.toNat_lt
    -- six bits of the byte are in the first number, and two at the top of the second
    have ha' : UInt8.ofNat (a.toNat / 4 * 4 + a.toNat % 4 * 16 / 16) = a := ofNat_eq (by omega)
    rw [encode, decode?, group?_one (by omega) (by omega) (by omega), ha']
    rfl
  | [a, b] => by
    have ha := a.toNat_lt
    have hb := b.toNat_lt
    have ha' : UInt8.ofNat (a.toNat / 4 * 4 + (a.toNat % 4 * 16 + b.toNat / 16) / 16) = a :=
      ofNat_eq (by omega)
    have hb' : UInt8.ofNat ((a.toNat % 4 * 16 + b.toNat / 16) % 16 * 16 +
        b.toNat % 16 * 4 / 4) = b := ofNat_eq (by omega)
    rw [encode, decode?, group?_two (by omega) (by omega) (by omega) (by omega), ha', hb']
    rfl
  | a :: b :: c :: rest => by
    have ha := a.toNat_lt
    have hb := b.toNat_lt
    have hc := c.toNat_lt
    have ha' : UInt8.ofNat (a.toNat / 4 * 4 + (a.toNat % 4 * 16 + b.toNat / 16) / 16) = a :=
      ofNat_eq (by omega)
    have hb' : UInt8.ofNat ((a.toNat % 4 * 16 + b.toNat / 16) % 16 * 16 +
        (b.toNat % 16 * 4 + c.toNat / 64) / 4) = b := ofNat_eq (by omega)
    have hc' : UInt8.ofNat ((b.toNat % 16 * 4 + c.toNat / 64) % 4 * 64 + c.toNat % 64) = c :=
      ofNat_eq (by omega)
    -- a group of three bytes need not be the last one
    rw [encode, decode?, group?_three (by omega) (by omega) (by omega) (by omega), ha', hb', hc',
      Option.bind_eq_bind, Option.bind_some, if_neg (by simp), decode?_encode rest]
    rfl

/-- The characters of a Base64 form are digits and equals signs. -/
theorem exists_digit_of_mem_encode : ∀ {bytes : Bytes} {c : Char}, c ∈ encode bytes →
    c = '=' ∨ ∃ n < 64, c = digit n
  | [], c, h => nomatch h
  | [a], c, h => by
    have ha := a.toNat_lt
    simp only [encode, List.mem_cons, List.not_mem_nil, or_false] at h
    rcases h with rfl | rfl | rfl | rfl
    · exact .inr ⟨_, by omega, rfl⟩
    · exact .inr ⟨_, by omega, rfl⟩
    · exact .inl rfl
    · exact .inl rfl
  | [a, b], c, h => by
    have ha := a.toNat_lt
    have hb := b.toNat_lt
    simp only [encode, List.mem_cons, List.not_mem_nil, or_false] at h
    rcases h with rfl | rfl | rfl | rfl
    · exact .inr ⟨_, by omega, rfl⟩
    · exact .inr ⟨_, by omega, rfl⟩
    · exact .inr ⟨_, by omega, rfl⟩
    · exact .inl rfl
  | a :: b :: d :: rest, c, h => by
    have ha := a.toNat_lt
    have hb := b.toNat_lt
    have hd := d.toNat_lt
    simp only [encode, List.mem_cons] at h
    rcases h with rfl | rfl | rfl | rfl | h
    · exact .inr ⟨_, by omega, rfl⟩
    · exact .inr ⟨_, by omega, rfl⟩
    · exact .inr ⟨_, by omega, rfl⟩
    · exact .inr ⟨_, by omega, rfl⟩
    · exact exists_digit_of_mem_encode h

/-- A form can stand in a string literal as it is. -/
theorem ne_of_mem_encode {bytes : Bytes} {c : Char} (h : c ∈ encode bytes) :
    c ≠ '"' ∧ c ≠ '\n' := by
  obtain rfl | ⟨n, hn, rfl⟩ := exists_digit_of_mem_encode h
  · decide
  · exact (digit_ne hn).2

/-! ## The standard -/

/-- The characters that stand for the numbers below 64, in order. -/
def alphabet : String := "ABCDEFGHIJKLMNOPQRSTUVWXYZabcdefghijklmnopqrstuvwxyz0123456789+/"

/-- The character that stands for a number. -/
def symbol (n : Fin 64) : Char := alphabet.toList.getD n '='

/-- The lowest `width` bits of a number, the highest of them first. -/
def bits : (width : Nat) → Nat → List Bool
  | 0, _ => []
  | width + 1, n => bits width (n / 2) ++ [n % 2 == 1]

/-- **The padded Base64 form of a byte string**, said on bits. Its characters stand for the bits of
the bytes, six at a time. Each equals sign that fills up the last group of four characters goes with
two zero bits behind the last byte. -/
def Represents (text : List Char) (bytes : Bytes) : Prop :=
  ∃ (numbers : List (Fin 64)) (padding : Nat),
    text = numbers.map symbol ++ List.replicate padding '=' ∧ padding < 3 ∧ text.length % 4 = 0 ∧
    numbers.flatMap (fun n => bits 6 n.val) =
      bytes.flatMap (fun b => bits 8 b.toNat) ++ List.replicate (2 * padding) false

/-- The digits by ranges of numbers are the alphabet of the standard. -/
theorem digit_eq_symbol (n : Fin 64) : digit n = symbol n := by
  revert n
  decide +kernel

/-- Different numbers have different symbols. -/
theorem symbol_injective : Function.Injective symbol := by
  intro n m h
  rw [← digit_eq_symbol, ← digit_eq_symbol] at h
  have hnumber := congrArg number? h
  rw [number?_digit n.isLt, number?_digit m.isLt] at hnumber
  exact Fin.ext (Option.some.inj hnumber)

theorem symbol_ne_equals (n : Fin 64) : symbol n ≠ '=' := by
  rw [← digit_eq_symbol]
  exact (digit_ne n.isLt).1

theorem symbol_isAlphanum (n : Fin 64) :
    (symbol n).isAlphanum = true ∨ symbol n = '+' ∨ symbol n = '/' := by
  rw [← digit_eq_symbol]
  revert n
  decide

/-! ## Bits -/

@[simp] theorem length_bits (width n : Nat) : (bits width n).length = width := by
  induction width generalizing n with
  | zero => rfl
  | succ width ih => rw [bits, List.length_append, ih, List.length_singleton]

/-- The bits of a number that fits into them tell the number. -/
theorem bits_injOn {width n m : Nat} (hn : n < 2 ^ width) (hm : m < 2 ^ width)
    (h : bits width n = bits width m) : n = m := by
  induction width generalizing n m with
  | zero => omega
  | succ width ih =>
    rw [Nat.pow_succ] at hn hm
    obtain ⟨hhigh, hlow⟩ := List.append_inj h (by simp)
    -- the last bit is the parity, and the others are those of the half
    have hhalf : n / 2 = m / 2 := ih (by omega) (by omega) hhigh
    have hlow : (n % 2 == 1) = (m % 2 == 1) := List.singleton_inj.1 hlow
    rw [Bool.eq_iff_iff, beq_iff_eq, beq_iff_eq] at hlow
    omega

/-- The bits of a number are those of its upper part and of its lower part. -/
theorem bits_add (upper lower x y : Nat) (hy : y < 2 ^ lower) :
    bits (upper + lower) (x * 2 ^ lower + y) = bits upper x ++ bits lower y := by
  induction lower generalizing y with
  | zero =>
    obtain rfl : y = 0 := by omega
    simp [bits]
  | succ lower ih =>
    rw [Nat.pow_succ] at hy
    have hhalf : (x * 2 ^ (lower + 1) + y) / 2 = x * 2 ^ lower + y / 2 := by
      rw [Nat.pow_succ, ← Nat.mul_assoc]
      omega
    have hlow : (x * 2 ^ (lower + 1) + y) % 2 = y % 2 := by
      rw [Nat.pow_succ, ← Nat.mul_assoc]
      omega
    rw [← Nat.add_assoc, bits, hhalf, hlow, ih (y / 2) (by omega), bits, List.append_assoc]

/-- The same, read the other way. -/
theorem bits_split (upper lower n : Nat) :
    bits (upper + lower) n = bits upper (n / 2 ^ lower) ++ bits lower (n % 2 ^ lower) := by
  rw [← bits_add _ _ _ _ (Nat.mod_lt n (Nat.two_pow_pos lower)), Nat.div_add_mod']

/-! ## Forms are standard -/

/-! A group of three bytes is cut into four numbers: after six bits of the first byte, four of the
second and two of the third. -/

section Groups

variable (a b c : UInt8)

theorem bits_firstByte : bits 8 a.toNat = bits 6 (a.toNat / 4) ++ bits 2 (a.toNat % 4) :=
  bits_split 6 2 _

theorem bits_secondByte : bits 8 b.toNat = bits 4 (b.toNat / 16) ++ bits 4 (b.toNat % 16) :=
  bits_split 4 4 _

theorem bits_thirdByte : bits 8 c.toNat = bits 2 (c.toNat / 64) ++ bits 6 (c.toNat % 64) :=
  bits_split 2 6 _

theorem bits_secondNumber : bits 6 (a.toNat % 4 * 16 + b.toNat / 16) =
    bits 2 (a.toNat % 4) ++ bits 4 (b.toNat / 16) := by
  have hb := b.toNat_lt
  exact bits_add 2 4 _ _ (by omega)

theorem bits_thirdNumber : bits 6 (b.toNat % 16 * 4 + c.toNat / 64) =
    bits 4 (b.toNat % 16) ++ bits 2 (c.toNat / 64) := by
  have hc := c.toNat_lt
  exact bits_add 4 2 _ _ (by omega)

/-- The bits of a last byte alone, and those that fill it up. -/
theorem bits_one : bits 6 (a.toNat / 4) ++ bits 6 (a.toNat % 4 * 16) =
    bits 8 a.toNat ++ List.replicate 4 false := by
  -- a second byte that is zero gives the bits that fill up
  have hlast : bits 6 (a.toNat % 4 * 16) = bits 2 (a.toNat % 4) ++ List.replicate 4 false :=
    bits_secondNumber a 0
  rw [bits_firstByte, hlast, List.append_assoc]

/-- The bits of two last bytes, and those that fill them up. -/
theorem bits_two : bits 6 (a.toNat / 4) ++ (bits 6 (a.toNat % 4 * 16 + b.toNat / 16) ++
    bits 6 (b.toNat % 16 * 4)) =
      bits 8 a.toNat ++ (bits 8 b.toNat ++ List.replicate 2 false) := by
  have hlast : bits 6 (b.toNat % 16 * 4) = bits 4 (b.toNat % 16) ++ List.replicate 2 false :=
    bits_thirdNumber b 0
  rw [bits_firstByte, bits_secondByte, bits_secondNumber, hlast]
  simp only [List.append_assoc]

/-- The bits of three bytes. -/
theorem bits_three : bits 6 (a.toNat / 4) ++ (bits 6 (a.toNat % 4 * 16 + b.toNat / 16) ++
    (bits 6 (b.toNat % 16 * 4 + c.toNat / 64) ++ bits 6 (c.toNat % 64))) =
      bits 8 a.toNat ++ (bits 8 b.toNat ++ bits 8 c.toNat) := by
  rw [bits_firstByte, bits_secondByte, bits_thirdByte, bits_secondNumber, bits_thirdNumber]
  simp only [List.append_assoc]

end Groups

/-- **Base64 forms are standard**, group by group. -/
theorem represents_encode : ∀ bytes : Bytes, Represents (encode bytes) bytes
  | [] => ⟨[], 0, rfl, by decide, rfl, rfl⟩
  | [a] => by
    have ha := a.toNat_lt
    refine ⟨[⟨a.toNat / 4, by omega⟩, ⟨a.toNat % 4 * 16, by omega⟩], 2, ?_, by decide, ?_, ?_⟩
    · rw [encode, List.map_cons, List.map_singleton, ← digit_eq_symbol, ← digit_eq_symbol]
      rfl
    · rw [encode]
      simp
    · simpa using bits_one a
  | [a, b] => by
    have ha := a.toNat_lt
    have hb := b.toNat_lt
    refine ⟨[⟨a.toNat / 4, by omega⟩, ⟨a.toNat % 4 * 16 + b.toNat / 16, by omega⟩,
      ⟨b.toNat % 16 * 4, by omega⟩], 1, ?_, by decide, ?_, ?_⟩
    · simp only [encode, List.map_cons, List.map_nil, ← digit_eq_symbol]
      rfl
    · simp [encode]
    · simpa using bits_two a b
  | a :: b :: c :: rest => by
    have ha := a.toNat_lt
    have hb := b.toNat_lt
    have hc := c.toNat_lt
    -- only the last group is filled up, so the padding is that of the rest
    obtain ⟨numbers, padding, htext, hpadding, hlength, hbits⟩ := represents_encode rest
    refine ⟨⟨a.toNat / 4, by omega⟩ :: ⟨a.toNat % 4 * 16 + b.toNat / 16, by omega⟩ ::
      ⟨b.toNat % 16 * 4 + c.toNat / 64, by omega⟩ :: ⟨c.toNat % 64, by omega⟩ :: numbers,
      padding, ?_, hpadding, ?_, ?_⟩
    · simp only [encode, htext, List.map_cons, ← digit_eq_symbol, List.cons_append]
    · simp only [encode, List.length_cons]
      omega
    · have hgroup := bits_three a b c
      simp only [List.flatMap_cons, hbits, ← List.append_assoc] at hgroup ⊢
      rw [hgroup]

/-- The bits of all bytes tell the bytes. -/
theorem flatMap_bits_inj : ∀ {as bs : Bytes},
    as.flatMap (fun b => bits 8 b.toNat) = bs.flatMap (fun b => bits 8 b.toNat) → as = bs
  | [], [], _ => rfl
  | [], b :: bs, h => by
    have hlength := congrArg List.length h
    simp at hlength
    omega
  | a :: as, [], h => by
    have hlength := congrArg List.length h
    simp at hlength
  | a :: as, b :: bs, h => by
    rw [List.flatMap_cons, List.flatMap_cons] at h
    -- the bits of a byte are as many for every byte
    obtain ⟨hhead, htail⟩ := List.append_inj h (by simp)
    rw [UInt8.toNat_inj.1 (bits_injOn a.toNat_lt b.toNat_lt hhead), flatMap_bits_inj htail]

/-- **Decoding is unique**: a text represents one byte string at most. -/
theorem Represents.unique {text : List Char} {as bs : Bytes} (ha : Represents text as)
    (hb : Represents text bs) : as = bs := by
  obtain ⟨numbers, padding, rfl, -, -, has⟩ := ha
  obtain ⟨numbers', padding', htext, -, -, hbs⟩ := hb
  -- only the padding has equals signs
  have hcount : ∀ ns : List (Fin 64), (ns.map symbol).count '=' = 0 := by
    intro ns
    rw [List.count_eq_zero, List.mem_map]
    rintro ⟨n, -, hn⟩
    exact symbol_ne_equals n hn
  have hpadding := congrArg (List.count '=') htext
  rw [List.count_append, List.count_append, hcount, hcount, List.count_replicate_self,
    List.count_replicate_self, Nat.zero_add, Nat.zero_add] at hpadding
  subst hpadding
  -- with the padding gone, the text tells the numbers, and these the bits
  rw [List.append_cancel_right_eq, symbol_injective.list_map.eq_iff] at htext
  subst htext
  rw [has, List.append_cancel_right_eq] at hbs
  exact flatMap_bits_inj hbs

end Kelp.Base64
