import Kelp.SExpr

/-!
# Reading S-expressions

`SExpr.read?` is the way back from text to tree. It works in two steps: `tokens` cuts the text into
parentheses and atoms, `nest` builds the tree.

A quoted string is one atom, quotes included, whatever stands inside it. A backslash keeps the
character after it from ending the string. A string must not touch a plain atom.

This is what texts of modules are made of. The text format also has comments, `;;` up to the end of
the line and `(; ;)`, and annotations. They do not occur in texts of modules, where the only free
text is the module name of imports: to bring one in, that name has to end its own string literal.
The reader does not know them. It takes them for atoms and lists, which are no part of a module.
-/

namespace Kelp.SExpr

/-- A parenthesis or an atom. -/
inductive Token where
  | opening
  | closing
  | atom (text : String)
deriving DecidableEq, Repr, Inhabited

/-- The characters that separate atoms. -/
def isSpace (c : Char) : Bool :=
  c == ' ' || c == '\t' || c == '\n' || c == '\r'

/-- The characters that may follow a string. -/
def isDelimiter (c : Char) : Bool :=
  isSpace c || c == '(' || c == ')'

mutual

/-- Cut a text into tokens. -/
def tokens : List Char → Option (List Token)
  | [] => some []
  | c :: rest =>
    if isSpace c then tokens rest
    else if c = '(' then (tokens rest).map (.opening :: ·)
    else if c = ')' then (tokens rest).map (.closing :: ·)
    else if c = '"' then stringTokens [c] rest
    else atomTokens [c] rest

/-- Cut a text into tokens inside a plain atom, of which `read` holds the characters so far, the
last one first. -/
def atomTokens (read : List Char) : List Char → Option (List Token)
  | [] => some [.atom (String.ofList read.reverse)]
  | c :: rest =>
    if c = '"' then none
    else if isSpace c then (tokens rest).map (.atom (String.ofList read.reverse) :: ·)
    else if c = '(' then
      (tokens rest).map fun ts => .atom (String.ofList read.reverse) :: .opening :: ts
    else if c = ')' then
      (tokens rest).map fun ts => .atom (String.ofList read.reverse) :: .closing :: ts
    else atomTokens (c :: read) rest

/-- Cut a text into tokens inside a string, of which `read` holds the characters so far, the last
one first. -/
def stringTokens (read : List Char) : List Char → Option (List Token)
  | [] => none
  | '\\' :: [] => none
  | '\\' :: c :: rest => stringTokens (c :: '\\' :: read) rest
  | '"' :: rest =>
    -- what touches the closing quote would be part of the atom
    if rest.head?.all isDelimiter then
      (tokens rest).map (.atom (String.ofList ('"' :: read).reverse) :: ·)
    else none
  | c :: rest => stringTokens (c :: read) rest

end

/-- Build trees from tokens. `done` holds the finished children of the innermost open list and
`outer` those of the lists around it, each with the last child first. -/
def nest : (outer : List (List SExpr)) → (done : List SExpr) → List Token → Option (List SExpr)
  | [], done, [] => some done.reverse
  | _ :: _, _, [] => none
  | outer, done, .atom s :: ts => nest outer (.atom s :: done) ts
  | outer, done, .opening :: ts => nest (done :: outer) [] ts
  | [], _, .closing :: _ => none
  | above :: outer, done, .closing :: ts => nest outer (.list done.reverse :: above) ts

/-- The S-expression that a text consists of. -/
def read? (text : String) : Option SExpr :=
  match (tokens text.toList).bind (nest [] []) with
  | some [e] => some e
  | _ => none

end Kelp.SExpr
