import Kelp.Bytes

/-!
# String literals of the text format

`StringBody.decode?` gives the text that stands for what is written between the quotes of a string
literal.

- Control characters and the marks that change the writing direction are refused.
- An escape is a backslash with `t`, `n`, `r`, a quote, an apostrophe or a backslash, with two
  hexadecimal digits for a byte, or with `u` and the hexadecimal number of a character in braces.
  Between two digits of such a number any number of underscores may stand.
- The bytes so given must be the UTF-8 form of a text.
-/

namespace Kelp.Wat.StringBody

/-- Whether the character may stand in a string literal as it is. -/
def isPlain (c : Char) : Bool :=
  let n := c.toNat
  0x20 ≤ n && n != 0x7f && c != '"' && c != '\\' &&
    !([0x202a, 0x202b, 0x202d, 0x202e, 0x2066, 0x2067, 0x2068, 0x2069, 0x206c].contains n)

/-- The value of a hexadecimal digit. -/
def hexDigit? (c : Char) : Option Nat :=
  if c.isDigit then some (c.toNat - '0'.toNat)
  else if 'a' ≤ c && c ≤ 'f' then some (c.toNat - 'a'.toNat + 10)
  else if 'A' ≤ c && c ≤ 'F' then some (c.toNat - 'A'.toNat + 10)
  else none

/-- The character that an escape of one letter stands for. -/
def letterEscape? (c : Char) : Option Char :=
  if c = 't' then some '\t'
  else if c = 'n' then some '\n'
  else if c = 'r' then some '\r'
  else if c = '"' || c = '\x27' || c = '\\' then some c
  else none

/-- The character with the given number. -/
def charOfNat? (n : Nat) : Option Char :=
  if h : n.isValidChar then some (Char.ofNatAux n h) else none

mutual

/-- The bytes that the characters of a string literal stand for. -/
def bytes? : List Char → Option Bytes
  | [] => some []
  | '\\' :: 'u' :: '{' :: d :: rest =>
    match hexDigit? d with
    | some v => bracedBytes? v rest
    | none => none
  -- the letter escapes come first: none of them is a hexadecimal digit
  | '\\' :: c :: rest =>
    match letterEscape? c with
    | some e => (bytes? rest).map (String.utf8EncodeChar e ++ ·)
    | none =>
      match hexDigit? c, rest with
      | some high, d :: rest =>
        match hexDigit? d with
        | some low => (bytes? rest).map (UInt8.ofNat (high * 16 + low) :: ·)
        | none => none
      | _, _ => none
  | c :: rest => if isPlain c then (bytes? rest).map (String.utf8EncodeChar c ++ ·) else none

/-- The bytes that the characters of a string literal stand for, inside a character number in braces
of which the digits so far have the given value. -/
def bracedBytes? (value : Nat) : List Char → Option Bytes
  | [] => none
  | '}' :: rest =>
    match charOfNat? value with
    | some c => (bytes? rest).map (String.utf8EncodeChar c ++ ·)
    | none => none
  | '_' :: rest => groupedBytes? value rest
  | d :: rest =>
    match hexDigit? d with
    | some v => bracedBytes? (value * 16 + v) rest
    | none => none

/-- The bytes that the characters of a string literal stand for, inside a character number in braces
right after an underscore: another digit has to follow. -/
def groupedBytes? (value : Nat) : List Char → Option Bytes
  | [] => none
  | '_' :: rest => groupedBytes? value rest
  | d :: rest =>
    match hexDigit? d with
    | some v => bracedBytes? (value * 16 + v) rest
    | none => none

end

/-- The text that a string literal stands for. -/
def decode? (body : String) : Option String :=
  (bytes? body.toList).bind Bytes.toString?

end Kelp.Wat.StringBody
