/-!
# Decimal integers

Integers written as an optional minus sign and decimal digits.
-/

namespace Kelp.Decimal

/-- The number that decimal digits denote. Leading zeros do not count. -/
def natValue (digits : List Char) : Nat :=
  digits.foldl (fun n d => n * 10 + (d.toNat - '0'.toNat)) 0

/-- The integer that an optional minus sign and decimal digits denote. -/
def value : List Char → Int
  | '-' :: digits => -(natValue digits)
  | digits => natValue digits

/-- The longest decimal integer at the front of a text. -/
def leading (s : List Char) : Option (List Char) :=
  let (sign, rest) := match s with
    | '-' :: rest => (['-'], rest)
    | _ => ([], s)
  let digits := rest.takeWhile Char.isDigit
  if digits.isEmpty then none else some (sign ++ digits)

/-- The integer that a text consists of. -/
def read? (text : String) : Option Int :=
  if leading text.toList = some text.toList then some (value text.toList) else none

end Kelp.Decimal
