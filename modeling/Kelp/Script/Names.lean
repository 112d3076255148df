import Kelp.Script.Unprintable

/-!
# Names in scripts

How names of a program appear in a script.

- `binding`: a name that the script binds, as a parameter or a constant. A reserved word gets a `$`
  in front, which no name of a program contains.
- `propertyKey`: a name as the key of an object. A name that is not an identifier of the script
  language is written as a string literal.
-/

namespace Kelp.Script

/-- The words that a script cannot bind. -/
def reservedWords : List String :=
  ["arguments", "await", "break", "case", "catch", "class", "const", "continue", "debugger",
    "default", "delete", "do", "else", "enum", "eval", "export", "extends", "false", "finally",
    "for", "function", "if", "implements", "import", "in", "instanceof", "interface", "let",
    "new", "null", "package", "private", "protected", "public", "return", "static", "super",
    "switch", "this", "throw", "true", "try", "typeof", "var", "void", "while", "with", "yield"]

/-- Whether a script cannot bind the name. -/
def isReserved (name : String) : Bool := reservedWords.contains name

/-- The binding that a script uses for a name. Two names without a `$` never share one. -/
def binding (name : String) : String :=
  if isReserved name then "$" ++ name else name

/-! ## Property keys -/

/-- ASCII letters, the underscore and the dollar sign. -/
def isIdentStart (c : Char) : Bool :=
  c.isAlpha || c == '_' || c == '$'

/-- ASCII letters, digits, the underscore and the dollar sign. -/
def isIdentChar (c : Char) : Bool :=
  c.isAlphanum || c == '_' || c == '$'

/-- Whether the characters are an identifier. -/
def isIdent : List Char → Bool
  | [] => false
  | c :: rest => isIdentStart c && rest.all isIdentChar

/-- A character by its number: `\u`, then the hexadecimal number in braces. -/
def numericEscape (c : Char) : List Char :=
  ['\\', 'u', '{'] ++ Nat.toDigits 16 c.toNat ++ ['}']

/-- A character inside a string literal. -/
def escape (c : Char) : List Char :=
  if c = '\x00' then ['\\', '0']
  else if c = '\t' then ['\\', 't']
  else if c = '\n' then ['\\', 'n']
  else if c = '\r' then ['\\', 'r']
  else if c = '"' then ['\\', '"']
  else if c = '\\' then ['\\', '\\']
  else if isUnprintable c then numericEscape c
  else [c]

/-- The string literal that denotes a name. -/
def stringLiteral (name : List Char) : List Char :=
  ['"'] ++ name.flatMap escape ++ ['"']

/-- The property key that denotes a name. -/
def propertyKey (name : String) : String :=
  if isIdent name.toList then name else String.ofList (stringLiteral name.toList)

end Kelp.Script
