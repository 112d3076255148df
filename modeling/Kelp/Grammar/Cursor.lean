import Kelp.Grammar.Lexeme

/-!
# Cursors and layout

A cursor is a place in the text together with the characters that are left. Layout is what may stand
between lexemes: spaces, tabs, carriage returns, line feeds, and comments from `//` to the end of
their line.
-/

namespace Kelp.Grammar

/-- A place in the text: the number of characters before it, and those after it. -/
structure Cursor where
  offset : Nat
  rest : List Char
deriving DecidableEq, Repr, Inhabited

/-- The beginning of a text. -/
def Cursor.start (text : List Char) : Cursor := ⟨0, text⟩

/-- The place `n` characters further on. -/
def Cursor.advance (c : Cursor) (n : Nat) : Cursor := ⟨c.offset + n, c.rest.drop n⟩

/-- Read a lexeme at the cursor. -/
def Lexeme.scan (l : Lexeme) (c : Cursor) : Option (l.Value × Cursor) :=
  (l.matched c.rest).map fun chars => (l.value c.offset chars, c.advance chars.length)

/-- The characters that separate lexemes. -/
def isBlank (c : Char) : Bool :=
  c == ' ' || c == '\t' || c == '\r' || c == '\n'

mutual

/-- Skip layout from the given offset on. -/
def skipLayout (offset : Nat) : List Char → Cursor
  | [] => ⟨offset, []⟩
  | '/' :: '/' :: rest => skipComment (offset + 2) rest
  | c :: rest => if isBlank c then skipLayout (offset + 1) rest else ⟨offset, c :: rest⟩

/-- Skip the rest of a comment, and the layout that follows its line. -/
def skipComment (offset : Nat) : List Char → Cursor
  | [] => ⟨offset, []⟩
  | c :: rest => if c = '\n' then skipLayout (offset + 1) rest else skipComment (offset + 1) rest

end

/-- The first place at or after the cursor where no layout stands. -/
def Cursor.skip (c : Cursor) : Cursor := skipLayout c.offset c.rest

end Kelp.Grammar
