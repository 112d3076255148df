import Kelp.Decimal

/-!
# Lexemes

The smallest units of the grammar: keywords, identifiers, integer literals, dotted host paths,
punctuation and the end of the text. A lexeme holds no layout inside.

`Lexeme.matched` gives the characters that a lexeme takes from the front of a text, always as many
as it can.
-/

namespace Kelp.Grammar

/-! ## Characters -/

/-- ASCII letters, digits and the underscore: what identifiers and keywords consist of. -/
def isWordChar (c : Char) : Bool :=
  c.isAlphanum || c == '_'

/-- ASCII letters and the underscore: what an identifier starts with. -/
def isWordStart (c : Char) : Bool :=
  c.isAlpha || c == '_'

/-- The longest run of word characters at the front. -/
def leadingWord (s : List Char) : List Char :=
  s.takeWhile isWordChar

/-! ## Keywords and punctuation -/

/-- The reserved words of the language. -/
inductive Keyword where
  | kwStruct
  | kwFn
  | kwPub
  | kwImport
  | kwAs
  | kwLet
  | kwReturn
deriving DecidableEq, Repr, Inhabited

/-- How a keyword is written. -/
def Keyword.spelling : Keyword → String
  | .kwStruct => "struct"
  | .kwFn => "fn"
  | .kwPub => "pub"
  | .kwImport => "import"
  | .kwAs => "as"
  | .kwLet => "let"
  | .kwReturn => "return"

/-- Every keyword. -/
def Keyword.all : List Keyword :=
  [.kwStruct, .kwFn, .kwPub, .kwImport, .kwAs, .kwLet, .kwReturn]

/-- Whether the characters spell a keyword. -/
def isKeyword (word : List Char) : Bool :=
  Keyword.all.any fun k => k.spelling.toList == word

/-- Punctuation marks. -/
inductive Mark where
  | openBrace
  | closeBrace
  | openParen
  | closeParen
  | comma
  | colon
  | semicolon
  | equals
  | plus
  | times
  | dot
  | arrow
deriving DecidableEq, Repr, Inhabited

/-- The characters of a mark. -/
def Mark.chars : Mark → List Char
  | .openBrace => ['{']
  | .closeBrace => ['}']
  | .openParen => ['(']
  | .closeParen => [')']
  | .comma => [',']
  | .colon => [':']
  | .semicolon => [';']
  | .equals => ['=']
  | .plus => ['+']
  | .times => ['*']
  | .dot => ['.']
  | .arrow => ['-', '>']

/-! ## Matching -/

/-- An identifier: a word that does not start with a digit and is not a keyword. -/
def matchIdent (s : List Char) : Option (List Char) :=
  let word := leadingWord s
  if word.head?.any isWordStart && !isKeyword word then some word else none

/-- The rest of a host path after its first character: word characters, and every dot that an
identifier follows. -/
def hostPathTail : List Char → List Char
  | [] => []
  | c :: rest =>
    if isWordChar c || (c == '.' && (matchIdent rest).isSome) then c :: hostPathTail rest else []

/-- Identifiers joined by dots. A dot that no identifier follows is left alone. -/
def matchHostPath (s : List Char) : Option (List Char) :=
  if (matchIdent s).isSome then some (hostPathTail s) else none

/-- An integer literal as written, with the offset of its first character. -/
structure Literal where
  offset : Nat
  text : String
deriving DecidableEq, Repr, Inhabited

/-- The kinds of lexeme. -/
inductive Lexeme where
  | mark (m : Mark)
  | keyword (k : Keyword)
  | ident
  | number
  | hostPath
  | endOfText
deriving DecidableEq, Repr, Inhabited

/-- What a lexeme tells beyond its kind. -/
abbrev Lexeme.Value : Lexeme → Type
  | .mark _ => Unit
  | .keyword _ => Unit
  | .ident => String
  | .number => Literal
  | .hostPath => String
  | .endOfText => Unit

/-- The characters that the lexeme takes from the front of the text, if it is there. -/
def Lexeme.matched : Lexeme → List Char → Option (List Char)
  | .mark m, s => if m.chars.isPrefixOf s then some m.chars else none
  | .keyword k, s => if leadingWord s = k.spelling.toList then some k.spelling.toList else none
  | .ident, s => matchIdent s
  | .number, s => Decimal.leading s
  | .hostPath, s => matchHostPath s
  | .endOfText, s => if s.isEmpty then some [] else none

/-- The value of a lexeme that was found at the given offset. -/
def Lexeme.value : (l : Lexeme) → (offset : Nat) → (chars : List Char) → l.Value
  | .mark _, _, _ => ()
  | .keyword _, _, _ => ()
  | .ident, _, chars => String.ofList chars
  | .number, offset, chars => ⟨offset, String.ofList chars⟩
  | .hostPath, _, chars => String.ofList chars
  | .endOfText, _, _ => ()

end Kelp.Grammar
