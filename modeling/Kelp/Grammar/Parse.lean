import Kelp.Diagnostic
import Kelp.Grammar.Productions

/-!
# Reading source text

`Program.parse` turns a source text into a program, or says where and why it cannot.

A text that the grammar refuses gives one diagnostic, at the furthest place where a rule failed. A
text that the grammar accepts is refused only for an integer literal that does not fit in 64 bits;
the first one is reported.
-/

namespace Kelp

namespace Grammar

/-- A bound on how many rules can be matched inside each other: no rule is entered again before a
character is taken. -/
def depthBound (text : List Char) : Nat :=
  Rule.all.length * (text.length + 1)

/-- The declarations of a text with its literals as written, or the attempts of a failed match. -/
def matchProgram (text : List Char) : Except Attempts (Program Literal) :=
  match Rule.run Attempts.record (depthBound text) .program (.start text) .start with
  | (some (program, _), _) => .ok program
  | (none, attempts) => .error attempts

/-! ## Messages -/

/-- Names joined for a reader: `A`, `A or B`, `A, B, or C`. -/
def enumerate : List String → String
  | [] => ""
  | [a] => a
  | [a, b] => a ++ " or " ++ b
  | names => ", ".intercalate names.dropLast ++ ", or " ++ names.getLastD ""

/-- The message of a text that the grammar refuses. -/
def Attempts.message (a : Attempts) : String :=
  "expected " ++ enumerate (a.expected.map Rule.label)

/-- The failure of a text that the grammar refuses: one diagnostic, at the furthest place (§E5). -/
def Attempts.failure (text : List Char) (a : Attempts) : ParseFailure :=
  .single (Position.ofOffset text a.offset) a.message

/-! ## Literals -/

namespace Literal

/-- The integer that a literal denotes. -/
def denoted (l : Literal) : Int :=
  Decimal.value l.text.toList

/-- Whether the literal denotes a 64-bit signed integer. -/
def fits (l : Literal) : Bool :=
  -0x8000000000000000 ≤ l.denoted && l.denoted < 0x8000000000000000

/-- The message about a literal that does not fit. -/
def message (l : Literal) : String :=
  s!"integer literal `{l.text}` does not fit in 64 bits"

/-- The integer that a literal of the text denotes, or the failure that it does not fit. -/
def resolve (text : List Char) (l : Literal) : Except ParseFailure Int :=
  if l.fits then .ok l.denoted
  else .error (.single (Position.ofOffset text l.offset) l.message)

end Literal

end Grammar

open Grammar in
/-- The program that a source text denotes. -/
def Program.parse (source : String) : Except ParseFailure (Program Int) :=
  let text := source.toList
  match matchProgram text with
  | .error attempts => .error (attempts.failure text)
  | .ok program => Program.traverse (Literal.resolve text) program

end Kelp
