import Mathlib.Algebra.Ring.Int.Defs
import Kelp.Syntax
import Kelp.Grammar.Cursor

/-!
# The language

What kelp programs look like, said without a reader: the tokens, how a text lays them out, and the
context-free productions that give a token sequence its tree.

- `Terminal` has the tokens, and `Terminal.Valid` says how they are spelled.
- `Layout ts text` says that the text consists of the tokens `ts` with blanks and comments before,
  between and after them. A token holds no layout inside, and two tokens that would run together as
  one word are kept apart.
- `Nonterminal.Derives` has one constructor for each production. Where a production offers a choice
  there are several constructors, and where it repeats there is one that stops and one that goes on.
-/

namespace Kelp.Grammar

/-! ## Tokens -/

/-- The tokens of the language. Names, literals and paths carry their text. -/
inductive Terminal where
  | mark (m : Mark)
  | keyword (k : Keyword)
  | ident (name : String)
  | number (text : String)
  | hostPath (path : String)
deriving DecidableEq, Repr, Inhabited

/-- The characters of a token. -/
def Terminal.chars : Terminal → List Char
  | .mark m => m.chars
  | .keyword k => k.spelling.toList
  | .ident name => name.toList
  | .number text => text.toList
  | .hostPath path => path.toList

/-- An identifier: letters, digits and underscores that do not start with a digit, other than the
keywords. -/
structure IsIdentifier (cs : List Char) : Prop where
  start : cs.head?.any isWordStart = true
  word : ∀ c ∈ cs, isWordChar c = true
  reserved : ∀ k : Keyword, cs ≠ k.spelling.toList

/-- An integer literal: digits with or without a minus sign before them. -/
def IsNumeral (cs : List Char) : Prop :=
  ∃ digits : List Char, digits ≠ [] ∧ (∀ d ∈ digits, d.isDigit = true) ∧
    (cs = digits ∨ cs = '-' :: digits)

/-- A host path: one or more identifiers joined by dots. -/
inductive IsHostPath : List Char → Prop where
  | ident {x : List Char} : IsIdentifier x → IsHostPath x
  | dot {x rest : List Char} : IsIdentifier x → IsHostPath rest → IsHostPath (x ++ '.' :: rest)

/-- Whether the text of a token is spelled as its kind asks. -/
def Terminal.Valid : Terminal → Prop
  | .mark _ => True
  | .keyword _ => True
  | .ident name => IsIdentifier name.toList
  | .number text => IsNumeral text.toList
  | .hostPath path => IsHostPath path.toList

/-! ## Layout -/

/-- What may stand before a token: blanks, and comments with the end of their line. -/
inductive Gap : List Char → Prop where
  | nil : Gap []
  | blank {c : Char} {g : List Char} : isBlank c = true → Gap g → Gap (c :: g)
  | comment {body g : List Char} : '\n' ∉ body → Gap g → Gap ('/' :: '/' :: (body ++ '\n' :: g))

/-- What may stand after the last token: a gap, and then perhaps a comment that the end of the text
cuts off. -/
inductive LastGap : List Char → Prop where
  | gap {g : List Char} : Gap g → LastGap g
  | comment {g body : List Char} : Gap g → '\n' ∉ body → LastGap (g ++ '/' :: '/' :: body)

/-- The characters do not run together with what follows them as one word. -/
def Apart (cs rest : List Char) : Prop :=
  ∀ a ∈ cs.getLast?, ∀ b ∈ rest.head?, ¬ (isWordChar a = true ∧ isWordChar b = true)

/-- The text lays out the tokens. -/
inductive Layout : List Terminal → List Char → Prop where
  | done {g : List Char} : LastGap g → Layout [] g
  | token {g rest : List Char} {t : Terminal} {ts : List Terminal} : Gap g → t.Valid →
      Apart t.chars rest → Layout ts rest → Layout (t :: ts) (g ++ (t.chars ++ rest))

/-! ## Productions -/

/-- The 64-bit signed integers. -/
def InInt64 (n : Int) : Prop := -2 ^ 63 ≤ n ∧ n ≤ 2 ^ 63 - 1

/-- The kinds of phrase. Where a phrase is a list, the phrases `more…` are what comes after its
first member. -/
inductive Nonterminal where
  | program
  | declaration
  | binders
  | moreBinders
  | result
  | statements
  | statement
  | sum
  | moreSummands
  | product
  | moreFactors
  | call
  | argumentLists
  | arguments
  | moreArguments
  | dotted
  | accessors
  | primary
deriving DecidableEq, Repr, Inhabited

/-- The trees of a kind of phrase. -/
abbrev Nonterminal.Value : Nonterminal → Type
  | .program => Program Int
  | .declaration => Decl Int
  | .binders => List Binder
  | .moreBinders => List Binder
  | .result => String
  | .statements => List (Stmt Int)
  | .statement => Stmt Int
  | .sum => Expr Int
  | .moreSummands => List (Expr Int)
  | .product => Expr Int
  | .moreFactors => List (Expr Int)
  | .call => Expr Int
  | .argumentLists => List (List (Expr Int))
  | .arguments => List (Expr Int)
  | .moreArguments => List (Expr Int)
  | .dotted => Expr Int
  | .accessors => List String
  | .primary => Expr Int

/-- **The grammar**: the token sequences of each kind of phrase, with their trees. -/
inductive Nonterminal.Derives : (n : Nonterminal) → List Terminal → n.Value → Prop where
  -- declarations
  | programNil : Derives .program [] []
  | programCons {ts us : List Terminal} {d : Decl Int} {p : Program Int} :
      Derives .declaration ts d → Derives .program us p → Derives .program (ts ++ us) (d :: p)
  | struct {name : String} {fs : List Terminal} {fields : List Binder} :
      Derives .binders fs fields →
      Derives .declaration
        ([.keyword .kwStruct, .ident name, .mark .openBrace] ++ fs ++ [.mark .closeBrace])
        (.struct { name, fields })
  | function {isPublic : Bool} {name returnType : String} {ps rs ss : List Terminal}
      {params : List Binder} {body : List (Stmt Int)} :
      Derives .binders ps params → Derives .result rs returnType → Derives .statements ss body →
      Derives .declaration
        ((if isPublic then [.keyword .kwPub] else []) ++
          [.keyword .kwFn, .ident name, .mark .openParen] ++ ps ++ [.mark .closeParen] ++ rs ++
          [.mark .openBrace] ++ ss ++ [.mark .closeBrace])
        (.function { isPublic, name, params, returnType, body })
  | host {path name returnType : String} {ps rs : List Terminal} {params : List Binder} :
      Derives .binders ps params → Derives .result rs returnType →
      Derives .declaration
        ([.keyword .kwImport, .hostPath path, .keyword .kwAs, .keyword .kwFn, .ident name,
            .mark .openParen] ++ ps ++ [.mark .closeParen] ++ rs ++ [.mark .semicolon])
        (.host { path, name, params, returnType })
  -- names with their types; a comma may follow the last one
  | bindersNil : Derives .binders [] []
  | bindersCons {name type : String} {ts : List Terminal} {bs : List Binder} :
      Derives .moreBinders ts bs →
      Derives .binders ([.ident name, .mark .colon, .ident type] ++ ts) ({ name, type } :: bs)
  | moreBindersNil : Derives .moreBinders [] []
  | moreBindersComma : Derives .moreBinders [.mark .comma] []
  | moreBindersCons {name type : String} {ts : List Terminal} {bs : List Binder} :
      Derives .moreBinders ts bs →
      Derives .moreBinders ([.mark .comma, .ident name, .mark .colon, .ident type] ++ ts)
        ({ name, type } :: bs)
  -- return types; a function without one returns `unit`
  | resultNone : Derives .result [] unitType
  | resultSome {type : String} : Derives .result [.mark .arrow, .ident type] type
  -- statements; only calls stand alone
  | statementsNil : Derives .statements [] []
  | statementsCons {ts us : List Terminal} {s : Stmt Int} {ss : List (Stmt Int)} :
      Derives .statement ts s → Derives .statements us ss →
      Derives .statements (ts ++ us) (s :: ss)
  | letStmt {name : String} {ts : List Terminal} {e : Expr Int} :
      Derives .sum ts e →
      Derives .statement
        ([.keyword .kwLet, .ident name, .mark .equals] ++ ts ++ [.mark .semicolon]) (.bind name e)
  | returnStmt {ts : List Terminal} {e : Expr Int} :
      Derives .sum ts e →
      Derives .statement ([.keyword .kwReturn] ++ ts ++ [.mark .semicolon]) (.ret e)
  | callStmt {ts us ws : List Terminal} {e : Expr Int} {es : List (Expr Int)}
      {ess : List (List (Expr Int))} :
      Derives .dotted ts e → Derives .arguments us es → Derives .argumentLists ws ess →
      Derives .statement (ts ++ us ++ ws ++ [.mark .semicolon]) (.eval (.call e (es :: ess)))
  -- sums and products; a chain with one operand is that operand
  | sumOne {ts : List Terminal} {e : Expr Int} : Derives .product ts e → Derives .sum ts e
  | sumMany {ts us : List Terminal} {e : Expr Int} {es : List (Expr Int)} :
      Derives .product ts e → Derives .moreSummands us es → es ≠ [] →
      Derives .sum (ts ++ us) (.sum (e :: es))
  | moreSummandsNil : Derives .moreSummands [] []
  | moreSummandsCons {ts us : List Terminal} {e : Expr Int} {es : List (Expr Int)} :
      Derives .product ts e → Derives .moreSummands us es →
      Derives .moreSummands (.mark .plus :: (ts ++ us)) (e :: es)
  | productOne {ts : List Terminal} {e : Expr Int} : Derives .call ts e → Derives .product ts e
  | productMany {ts us : List Terminal} {e : Expr Int} {es : List (Expr Int)} :
      Derives .call ts e → Derives .moreFactors us es → es ≠ [] →
      Derives .product (ts ++ us) (.product (e :: es))
  | moreFactorsNil : Derives .moreFactors [] []
  | moreFactorsCons {ts us : List Terminal} {e : Expr Int} {es : List (Expr Int)} :
      Derives .call ts e → Derives .moreFactors us es →
      Derives .moreFactors (.mark .times :: (ts ++ us)) (e :: es)
  -- calls, with every argument list that is written
  | callNone {ts : List Terminal} {e : Expr Int} : Derives .dotted ts e → Derives .call ts e
  | callSome {ts us : List Terminal} {e : Expr Int} {ess : List (List (Expr Int))} :
      Derives .dotted ts e → Derives .argumentLists us ess → ess ≠ [] →
      Derives .call (ts ++ us) (.call e ess)
  | argumentListsNil : Derives .argumentLists [] []
  | argumentListsCons {ts us : List Terminal} {es : List (Expr Int)}
      {ess : List (List (Expr Int))} :
      Derives .arguments ts es → Derives .argumentLists us ess →
      Derives .argumentLists (ts ++ us) (es :: ess)
  | argumentsNil : Derives .arguments [.mark .openParen, .mark .closeParen] []
  | argumentsCons {ts us : List Terminal} {e : Expr Int} {es : List (Expr Int)} :
      Derives .sum ts e → Derives .moreArguments us es →
      Derives .arguments ([.mark .openParen] ++ ts ++ us ++ [.mark .closeParen]) (e :: es)
  | moreArgumentsNil : Derives .moreArguments [] []
  | moreArgumentsComma : Derives .moreArguments [.mark .comma] []
  | moreArgumentsCons {ts us : List Terminal} {e : Expr Int} {es : List (Expr Int)} :
      Derives .sum ts e → Derives .moreArguments us es →
      Derives .moreArguments (.mark .comma :: (ts ++ us)) (e :: es)
  -- field accesses
  | dottedNone {ts : List Terminal} {e : Expr Int} : Derives .primary ts e → Derives .dotted ts e
  | dottedSome {ts us : List Terminal} {e : Expr Int} {names : List String} :
      Derives .primary ts e → Derives .accessors us names → names ≠ [] →
      Derives .dotted (ts ++ us) (.field e names)
  | accessorsNil : Derives .accessors [] []
  | accessorsCons {name : String} {ts : List Terminal} {names : List String} :
      Derives .accessors ts names →
      Derives .accessors ([.mark .dot, .ident name] ++ ts) (name :: names)
  -- literals, names, and expressions in parentheses, which leave no trace
  | const {text : String} :
      InInt64 (Decimal.value text.toList) →
      Derives .primary [.number text] (.const (Decimal.value text.toList))
  | var {name : String} : Derives .primary [.ident name] (.var name)
  | parens {ts : List Terminal} {e : Expr Int} :
      Derives .sum ts e →
      Derives .primary ([.mark .openParen] ++ ts ++ [.mark .closeParen]) e

end Kelp.Grammar
