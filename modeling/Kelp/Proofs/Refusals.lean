import Kelp.Proofs.EntryPoints
import Kelp.Proofs.Grammar.Attempts
import Kelp.Proofs.Grammar.Walk
import Kelp.Proofs.Resolvable

/-!
# Refusals

Why a source text can have no WebAssembly text. Most of the errors that the stages know of never
come up, since the grammar does not yield the shapes that they are about.

- `Refusal` lists what can come up: the grammar or a literal that does not fit, callees that are not
  plain names, several argument lists, and names that are bound twice.
- `Program.parse_of_syntaxTree?` and `Program.parse_of_no_tree`: parsing is matching and then
  walking the tree, and the walk ends early only at a literal.
- `Module.lower_refusal`: of the shapes that lowering refuses, those that remain for parsed
  programs.
- `compileToText_refusal` puts both together.
-/

namespace Kelp

open Grammar

/-- The failure of a literal that does not fit, at its place in the text. -/
def Grammar.Literal.failure (source : List Char) (l : Literal) : ParseFailure :=
  .single (Position.ofOffset source l.offset) l.message

/-- What a source text can be refused for on its way to WebAssembly text. -/
inductive Refusal (source : List Char) : Failure → Prop
  /-- Rules were expected at some place, and at least one. -/
  | grammar {offset : Nat} {rules : List Rule} (h : rules ≠ []) :
      Refusal source ⟨some .build, .parse (.single (Position.ofOffset source offset)
        ("expected " ++ enumerate (rules.map Rule.label)))⟩
  /-- A literal does not denote a 64-bit integer. -/
  | literal {l : Literal} (h : ¬ InInt64 l.denoted) :
      Refusal source ⟨some .build, .parse (l.failure source)⟩
  /-- A callee is not a plain name. -/
  | unsupportedCallee {kind : ExprKind} (h : kind ≠ .var) :
      Refusal source ⟨some .emit, .lowering (.unsupportedCallee kind)⟩
  /-- A call has several argument lists. -/
  | curriedCall {callee : String} {lists : Nat} (h : 2 ≤ lists) :
      Refusal source ⟨some .emit, .lowering (.curriedCall callee lists)⟩
  /-- A function binds a name twice. -/
  | duplicateLocal {function name : String} :
      Refusal source ⟨some .emit, .lowering (.duplicateLocal function name)⟩

/-! ## Parsing -/

section Parsing

variable {source : String}

/-- Literals are refused for their size only. -/
theorem Grammar.Literal.resolve_eq_error {text : List Char} {l : Literal} {failure : ParseFailure}
    (h : l.resolve text = .error failure) :
    ¬ InInt64 l.denoted ∧ failure = l.failure text := by
  have hsize : ¬ InInt64 l.denoted := by
    intro hfits
    have hok := (resolves_resolve text l l.denoted).2 ⟨hfits, rfl⟩
    rw [hok] at h
    cases h
  refine ⟨hsize, ?_⟩
  rw [Literal.resolve] at h
  split at h
  · cases h
  · cases h
    rfl

/-- A text with a tree is parsed by walking the tree. -/
theorem Program.parse_of_syntaxTree? {tree : SyntaxTree}
    (h : syntaxTree? source.toList = some tree) :
    Program.parse source = tree.toProgram source.toList := by
  have hwalk := map_toProgram_syntaxTree? source.toList
  unfold Program.parse
  extract_lets text
  rw [h] at hwalk
  generalize matchProgram source.toList = m at hwalk
  cases m with
  | error attempts => cases hwalk
  | ok program => exact (Option.some.inj hwalk).symm

/-- A text without a tree is refused by the grammar. -/
theorem Program.parse_of_no_tree (h : syntaxTree? source.toList = none) :
    ∃ attempts : Attempts, attempts.expected ≠ [] ∧
      Program.parse source = .error (attempts.failure source.toList) := by
  have hwalk := map_toProgram_syntaxTree? source.toList
  rw [h] at hwalk
  cases hmatch : matchProgram source.toList with
  | ok program =>
    rw [hmatch] at hwalk
    cases hwalk
  | error attempts =>
    refine ⟨attempts, matchProgram_expected hmatch, ?_⟩
    unfold Program.parse
    extract_lets text
    rw [hmatch]

/-- The walk of a tree ends early only at a literal that does not fit. -/
theorem toProgram_eq_error {tree : SyntaxTree} {failure : ParseFailure}
    (htree : syntaxTree? source.toList = some tree)
    (h : tree.toProgram source.toList = .error failure) :
    ∃ l : Literal, ¬ InInt64 l.denoted ∧ failure = l.failure source.toList := by
  have hwalk := map_toProgram_syntaxTree? source.toList
  rw [htree, Option.map_some, h] at hwalk
  obtain ⟨program, -, htraverse⟩ := Option.map_eq_some_iff.1 hwalk.symm
  obtain ⟨-, l, -, -, -, hl⟩ := (Program.traverse_eq_error_iff program failure).1 htraverse
  exact ⟨l, Literal.resolve_eq_error hl⟩

end Parsing

/-! ## Lowering -/

/-- Of the faults of shapes, chains without operands and calls without argument lists do not come up
in a well-formed expression. -/
theorem Expr.WellFormed.refusal_of_fault {source : List Char} {e : Expr Int}
    {error : LoweringError} (he : e.WellFormed) (h : e.Fault error) :
    Refusal source ⟨some .emit, .lowering error⟩ := by
  cases h with
  | emptySum => exact absurd he.1 (by simp)
  | emptyProduct => exact absurd he.1 (by simp)
  | @unsupportedCallee callee lists hcallee =>
    refine .unsupportedCallee fun hkind => ?_
    cases callee with
    | var f => exact hcallee f rfl
    | _ => cases hkind
  | missingArgumentList => exact absurd rfl he.2.1
  | curriedCall hlists => exact .curriedCall hlists

/-- A parsed module is refused for a repeated name or for a call. -/
theorem Module.lower_refusal {source : List Char} {m : Module} {importModule : String}
    {error : LoweringError} (hm : m.WellFormed) (h : m.lower importModule = .error error) :
    Refusal source ⟨some .emit, .lowering error⟩ := by
  obtain ⟨before, f, after, hfunctions, -, hf⟩ := Module.lower_eq_error_iff.1 h
  have hwell : f.WellFormed := hm.functions f (by simp [hfunctions])
  cases hf with
  | duplicateLocal _ => exact .duplicateLocal
  | node _ hnode =>
    obtain ⟨before, n, after, hnodes, -, hn⟩ := hnode
    have hn' : n.WellFormed := hwell.wellFormed_of_mem_nodes n (by simp [hnodes])
    exact hn'.refusal_of_fault hn

/-! ## Texts -/

/-- **Refused sources.** Whether a source has a tree decides how it is parsed: the tree is walked,
and the walk ends early only at a literal that does not fit; without a tree, the grammar says which
rules it expected. A source that has no WebAssembly text is refused for one of the reasons that
`Refusal` lists. -/
theorem compileToText_refusal (source : String) (options : Options) :
    (∀ tree, syntaxTree? source.toList = some tree →
      Program.parse source = tree.toProgram source.toList ∧
        ∀ failure, tree.toProgram source.toList = .error failure →
          ∃ l : Literal, ¬ InInt64 l.denoted ∧ failure = l.failure source.toList) ∧
    (syntaxTree? source.toList = none → ∃ attempts : Attempts, attempts.expected ≠ [] ∧
      Program.parse source = .error (attempts.failure source.toList)) ∧
    ∀ failure, compileToText source options = .error failure →
      Refusal source.toList failure := by
  refine ⟨fun tree htree => ?_, Program.parse_of_no_tree, fun failure h => ?_⟩
  · exact ⟨Program.parse_of_syntaxTree? htree, fun _ => toProgram_eq_error htree⟩
  · rcases build_or_failsBefore source options with ⟨m, text, hm, htext⟩ | ⟨failure', hfails⟩
    · rw [compileToText_of_text hm htext] at h
      cases h
    · rw [compileToText_of_failsBefore hfails] at h
      cases h
      cases hfails with
      | lowering hparse hlower =>
        exact Module.lower_refusal
          (Module.wellFormed_ofProgram (Program.wellFormed_of_parse hparse)) hlower
      | parse hparse =>
        -- with a tree only its literals can be refused, and without one it is the grammar that
        -- refuses
        cases htree : syntaxTree? source.toList with
        | some tree =>
          rw [Program.parse_of_syntaxTree? htree] at hparse
          obtain ⟨l, hl, rfl⟩ := toProgram_eq_error htree hparse
          exact .literal hl
        | none =>
          obtain ⟨attempts, hexpected, hfailure⟩ := Program.parse_of_no_tree htree
          rw [hfailure] at hparse
          cases hparse
          exact .grammar hexpected

/-- A source whose tree is walked to its end and whose module is then refused. -/
def curriedSource : String := "fn f() -> i32 { return g(1)(2); }"

theorem compileToText_curriedSource :
    (∃ tree, syntaxTree? curriedSource.toList = some tree ∧
      Program.parse curriedSource = tree.toProgram curriedSource.toList) ∧
    compileToText curriedSource {} = .error ⟨some .emit, .lowering (.curriedCall "g" 2)⟩ ∧
    Refusal curriedSource.toList ⟨some .emit, .lowering (.curriedCall "g" 2)⟩ := by
  have htree : (syntaxTree? curriedSource.toList).isSome = true := by decide +kernel
  have htext : compileToText curriedSource {} =
      .error ⟨some .emit, .lowering (.curriedCall "g" 2)⟩ := by decide +kernel
  obtain ⟨tree, htree⟩ := Option.isSome_iff_exists.1 htree
  obtain ⟨hwalk, -, hrefusal⟩ := compileToText_refusal curriedSource {}
  exact ⟨⟨tree, htree, (hwalk tree htree).1⟩, htext, hrefusal _ htext⟩

end Kelp
