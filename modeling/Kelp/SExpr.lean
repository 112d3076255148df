/-!
# S-expressions

Trees of atoms and lists, and their text: the children of a list stand between parentheses with one
space between two of them, and an atom is written as it is (§4.4).
-/

namespace Kelp

/-- An atom or a list of S-expressions. -/
inductive SExpr where
  | atom (text : String)
  | list (children : List SExpr)
deriving Repr, Inhabited

namespace SExpr

/-- An identifier atom, `$name`. -/
def ident (name : String) : SExpr := .atom ("$" ++ name)

/-- A string atom. The text between the quotes is taken as it is: a quote in it is not escaped, and
ends the string where the text is read again. -/
def quoted (body : String) : SExpr := .atom ("\"" ++ body ++ "\"")

/-- A list that starts with a keyword atom. -/
def clause (keyword : String) (arguments : List SExpr) : SExpr :=
  .list (.atom keyword :: arguments)

mutual

/-- The text of an S-expression. -/
def text : SExpr → String
  | .atom s => s
  | .list children => "(" ++ " ".intercalate (texts children) ++ ")"

/-- The texts of several S-expressions. -/
def texts : List SExpr → List String
  | [] => []
  | e :: es => e.text :: texts es

end

end SExpr

end Kelp
