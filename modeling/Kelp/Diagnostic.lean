/-!
# Diagnostics

Where and why a source text was refused.

- `Position.ofOffset` turns a character offset into a line and a column.
- `Diagnostic` is one refusal with its position; `ParseFailure` lists those of one source text, and
  `ParseFailure.message` is the text shown to the user.
-/

namespace Kelp

/-- A place in a source text. Lines and columns count from one, columns count characters. -/
structure Position where
  line : Nat
  column : Nat
deriving DecidableEq, Repr, Inhabited

/-- The first character of a text. -/
def Position.start : Position := ⟨1, 1⟩

/-- The place after the character `c`. A line ends at a line feed; a carriage return takes a column
of its own, which no longer shows once a line feed follows it. -/
def Position.next (p : Position) (c : Char) : Position :=
  if c = '\n' then ⟨p.line + 1, 1⟩ else ⟨p.line, p.column + 1⟩

/-- The place right after the characters `text`. -/
def Position.after (text : List Char) : Position :=
  text.foldl Position.next Position.start

/-- The place of the character with the given offset. -/
def Position.ofOffset (source : List Char) (offset : Nat) : Position :=
  Position.after (source.take offset)

/-- A message about one place of the source text. -/
structure Diagnostic where
  position : Position
  message : String
deriving DecidableEq, Repr, Inhabited

/-- The line that lists a diagnostic, as `line:column: message`. -/
def Diagnostic.line (d : Diagnostic) : String :=
  s!"{d.position.line}:{d.position.column}: {d.message}"

/-- The diagnostics of a refused source text. -/
structure ParseFailure where
  diagnostics : List Diagnostic
deriving DecidableEq, Repr, Inhabited

/-- A failure with one diagnostic. -/
def ParseFailure.single (position : Position) (message : String) : ParseFailure :=
  ⟨[⟨position, message⟩]⟩

/-- A headline, then every diagnostic on an indented line of its own. -/
def ParseFailure.message (f : ParseFailure) : String :=
  "failed to parse the source code" ++ String.join (f.diagnostics.map fun d => "\n  " ++ d.line)

end Kelp
