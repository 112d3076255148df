import Mathlib.Data.List.FinRange
import Mathlib.Data.List.OfFn
import Mathlib.Data.List.Perm.Basic
import Kelp.Proofs.EntryPoints
import Kelp.Proofs.Grammar.Stripping
import Kelp.Proofs.Parsing

/-!
# Rearranged sources

Changes to a source that its products do not show.

- `CompilesAlike` says that two sources have the same module and the same products.
- `strip_compilesAlike`: sources with the same stripped form compile alike, or neither parses.
- `Program.parse_append`: a source goes on after a line feed with the declarations of another one.
  The line feed ends a comment that the first source may end with, and keeps words apart.
- `Program.exists_pieces`: conversely, a source can be cut into its declarations.
- `KeepsKindOrder` says which orders of declarations keep structs, functions and host functions in
  order among themselves, and `KeepsKindOrder.ofProgram_eq` that the module is the same then.
- `sources_concatenate` puts the last four together.
-/

namespace Kelp

open Grammar

/-! ## Sources with the same products -/

/-- The sources have the same module, and the same text, binary and loader or the same failures,
whatever the options are. -/
structure CompilesAlike (source source' : String) : Prop where
  module : buildModule source = buildModule source'
  text : ∀ options, compileToText source options = compileToText source' options
  binary : ∀ options, compileToBinary source options = compileToBinary source' options
  loader : ∀ options, compileToLoader source options = compileToLoader source' options

section Alike

variable {source source' : String}

/-- Everything is made from the module. -/
theorem compilesAlike_of_module (h : buildModule source = buildModule source') :
    CompilesAlike source source' where
  module := h
  text options := by
    unfold compileToText
    rw [h]
  binary options := by
    unfold compileToBinary
    rw [h]
  loader options := by
    unfold compileToLoader compileWith
    rw [h]

/-- Sources compile alike if their declarations are sorted alike. -/
theorem compilesAlike_of_parse {p p' : Program Int} (hp : Program.parse source = .ok p)
    (hp' : Program.parse source' = .ok p') (h : Module.ofProgram p = Module.ofProgram p') :
    CompilesAlike source source' := by
  refine compilesAlike_of_module ?_
  rw [buildModule_eq_ok_iff.2 ⟨p, hp, rfl⟩, buildModule_eq_ok_iff.2 ⟨p', hp', h.symm⟩]

end Alike

/-! ## Layout -/

/-- Stripping a source changes nothing about what it parses to. -/
theorem Program.parse_strip_eq_ok_iff {source : String} {p : Program Int} :
    Program.parse (strip source) = .ok p ↔ Program.parse source = .ok p := by
  simp only [Program.parse_eq_ok_iff, strip, String.toList_ofList, layout_stripped_iff]

/-- **Layout never matters.** A source parses exactly if its stripped form does, and then to the
same program. So two sources with the same stripped form compile alike, unless neither parses. -/
theorem strip_compilesAlike :
    (∀ (source : String) (p : Program Int),
      Program.parse source = .ok p ↔ Program.parse (strip source) = .ok p) ∧
    (∀ source source' : String, strip source = strip source' →
      (∃ p, Program.parse source = .ok p ∧ Program.parse source' = .ok p ∧
        CompilesAlike source source') ∨
      ∃ e e', Program.parse source = .error e ∧ Program.parse source' = .error e') := by
  refine ⟨fun source p => Program.parse_strip_eq_ok_iff.symm, fun source source' hstrip => ?_⟩
  have hparse : ∀ p, Program.parse source = .ok p ↔ Program.parse source' = .ok p := by
    intro p
    rw [← Program.parse_strip_eq_ok_iff, hstrip, Program.parse_strip_eq_ok_iff]
  cases h : Program.parse source with
  | ok p =>
    have h' := (hparse p).1 h
    exact .inl ⟨p, rfl, h', compilesAlike_of_parse h h' rfl⟩
  -- only successes are compared: the places in diagnostics may differ
  | error e =>
    cases h' : Program.parse source' with
    | ok p => cases h.symm.trans ((hparse p).2 h')
    | error e' => exact .inr ⟨e, e', rfl, rfl⟩

/-- A source on one line. -/
def plainSource : String := " pub fn f(a: i32) -> i32 \x7b return a + 1; \x7d "

/-- The same with comments, one of them at the end. -/
def commentedSource : String :=
  "//one\x7b // two\r\npub\tfn f(a:\n\ni32) ->//\ni32 \x7b return a + 1; \x7d// three"

theorem commentedSource_compiles : strip commentedSource = strip plainSource ∧
    ∃ loader, compileToLoader commentedSource {} = .ok loader ∧
      compileToLoader plainSource {} = .ok loader := by
  have hstrip : strip commentedSource = strip plainSource := by decide +kernel
  have hmodule : (buildModule plainSource).toOption.map
      (·.assembles ({} : Options).importModule) = some true := by decide +kernel
  obtain ⟨m, hm, hassembles⟩ := map_toOption_eq_some_iff.1 hmodule
  obtain ⟨loader, hloader⟩ :=
    exists_loader_of_assembles hm rfl ⟨by decide, by decide⟩ hassembles
  rcases strip_compilesAlike.2 _ _ hstrip with ⟨p, -, -, halike⟩ | ⟨e, e', -, herror⟩
  · exact ⟨hstrip, loader, (halike.loader {}).trans hloader, hloader⟩
  · cases (compileToLoader_of_failsBefore (.parse herror)).symm.trans hloader

/-! ## Concatenation -/

namespace Grammar

/-- Layout may go on with layout. -/
theorem Gap.append {g g' : List Char} (h : Gap g) (h' : Gap g') : Gap (g ++ g') := by
  induction h with
  | nil => exact h'
  | blank hc _ ih => exact .blank hc ih
  | comment hbody _ ih =>
    rw [List.cons_append, List.cons_append, List.append_assoc, List.cons_append]
    exact .comment hbody ih

/-- A line feed makes any layout a gap. -/
theorem LastGap.append_newline {g : List Char} (h : LastGap g) : Gap (g ++ ['\n']) := by
  cases h with
  | gap hg => exact hg.append (.blank rfl .nil)
  | comment hg hbody =>
    rw [List.append_assoc]
    exact hg.append (.comment hbody .nil)

/-- Layout may be put in front of anything. -/
theorem Layout.gap_append {ws : List Terminal} {g s : List Char} (hg : Gap g) (h : Layout ws s) :
    Layout ws (g ++ s) := by
  cases h with
  | done hg' =>
    cases hg' with
    | gap hg' => exact .done (.gap (hg.append hg'))
    | comment hg' hbody =>
      rw [← List.append_assoc]
      exact .done (.comment (hg.append hg') hbody)
  | token hg' ht hapart hrest =>
    rw [← List.append_assoc]
    exact .token (hg.append hg') ht hapart hrest

/-- A line feed keeps apart what the end of the text kept apart. -/
theorem Apart.append_newline {cs rest : List Char} (h : Apart cs rest) (s : List Char) :
    Apart cs (rest ++ '\n' :: s) := by
  cases rest with
  | nil =>
    rintro a - b hb ⟨-, hword⟩
    cases hb
    exact absurd hword (by decide)
  | cons b rest => exact h

/-- Texts are joined by a line feed, whatever the first one ends with. -/
theorem Layout.append {ws ws' : List Terminal} {s s' : List Char} (h : Layout ws s)
    (h' : Layout ws' s') : Layout (ws ++ ws') (s ++ '\n' :: s') := by
  induction h with
  | done hg =>
    -- what is left of the first text becomes a gap of the second one
    rw [List.append_cons]
    exact h'.gap_append hg.append_newline
  | token hg ht hapart _ ih =>
    rw [List.append_assoc, List.append_assoc]
    exact .token hg ht (hapart.append_newline s') ih

/-- Declarations may go on with declarations: a program is a sequence of them. -/
theorem Nonterminal.Derives.append {ws ws' : List Terminal} {p p' : Program Int}
    (h : Nonterminal.Derives .program ws p) (h' : Nonterminal.Derives .program ws' p') :
    Nonterminal.Derives .program (ws ++ ws') (p ++ p') := by
  induction p generalizing ws with
  | nil =>
    cases h
    exact h'
  | cons d p ih =>
    cases h with
    | programCons hd hp =>
      rw [List.append_assoc]
      exact .programCons hd (ih hp)

/-- A text is cut between tokens. -/
theorem Layout.exists_cut {ws ws' : List Terminal} {s : List Char} (h : Layout (ws ++ ws') s) :
    ∃ front rest, s = front ++ rest ∧ Layout ws front ∧ Layout ws' rest := by
  induction ws generalizing s with
  | nil => exact ⟨[], s, rfl, .done (.gap .nil), h⟩
  | cons t ws ih =>
    cases h with
    | @token g s _ _ hg ht hapart hs =>
      obtain ⟨front, rest, rfl, hfront, hrest⟩ := ih hs
      refine ⟨g ++ (t.chars ++ front), rest, ?_, .token hg ht ?_ hfront, hrest⟩
      · simp only [List.append_assoc]
      · -- the cut is either behind this token or further on
        cases front with
        | nil => exact apart_nil _
        | cons c front => exact hapart

end Grammar

/-- Sources are joined by a line feed, and so are their programs. -/
theorem Program.parse_append {source source' : String} {p p' : Program Int}
    (hp : Program.parse source = .ok p) (hp' : Program.parse source' = .ok p') :
    Program.parse (source ++ "\n" ++ source') = .ok (p ++ p') := by
  obtain ⟨ws, hlayout, hws⟩ := Program.parse_eq_ok_iff.1 hp
  obtain ⟨ws', hlayout', hws'⟩ := Program.parse_eq_ok_iff.1 hp'
  refine Program.parse_eq_ok_iff.2 ⟨ws ++ ws', ?_, hws.append hws'⟩
  have htext : (source ++ "\n" ++ source').toList =
      source.toList ++ '\n' :: source'.toList := by simp
  rw [htext]
  exact hlayout.append hlayout'

/-- The module with the declarations of both. -/
def Module.append (m m' : Module) : Module where
  structs := m.structs ++ m'.structs
  functions := m.functions ++ m'.functions
  hosts := m.hosts ++ m'.hosts

/-- Declarations are sorted by kind one program after the other. -/
theorem Module.ofProgram_append (p p' : Program Int) :
    Module.ofProgram (p ++ p') = (Module.ofProgram p).append (Module.ofProgram p') := by
  simp only [Module.ofProgram, Module.append, List.filterMap_append]

theorem buildModule_append {source source' : String} {m m' : Module}
    (hm : buildModule source = .ok m) (hm' : buildModule source' = .ok m') :
    buildModule (source ++ "\n" ++ source') = .ok (m.append m') := by
  obtain ⟨p, hp, rfl⟩ := buildModule_eq_ok_iff.1 hm
  obtain ⟨p', hp', rfl⟩ := buildModule_eq_ok_iff.1 hm'
  exact buildModule_eq_ok_iff.2
    ⟨p ++ p', Program.parse_append hp hp', Module.ofProgram_append p p'⟩

/-! ## Pieces -/

/-- The texts one after the other, each with a line feed behind it. -/
def unlines (texts : List String) : String := String.join (texts.map (· ++ "\n"))

/-- Pieces with one declaration each, one to a line, in any order and any number. -/
theorem Program.parse_unlines {ι : Type} {piece : ι → String} {decl : ι → Decl Int}
    (h : ∀ i, Program.parse (piece i) = .ok [decl i]) (order : List ι) :
    Program.parse (unlines (order.map piece)) = .ok (order.map decl) := by
  induction order with
  | nil => rfl
  | cons i order ih =>
    have hcons : unlines ((i :: order).map piece) =
        piece i ++ "\n" ++ unlines (order.map piece) := by
      simp only [unlines, List.map_cons, String.join_cons]
    rw [hcons]
    exact Program.parse_append (h i) ih

/-- **A source is cut into its declarations**, with layout behind the last one. -/
theorem Program.exists_pieces {source : String} {p : Program Int}
    (h : Program.parse source = .ok p) : ∃ (piece : Fin p.length → String) (rest : String),
      source = String.join (List.ofFn piece) ++ rest ∧ Program.parse rest = .ok [] ∧
      ∀ i, Program.parse (piece i) = .ok [p.get i] := by
  induction p generalizing source with
  | nil => exact ⟨nofun, source, by simp, h, nofun⟩
  | cons d p ih =>
    obtain ⟨ws, hlayout, hws⟩ := Program.parse_eq_ok_iff.1 h
    cases hws with
    | @programCons ts us _ _ hd hp =>
      -- the first piece goes up to the last token of the first declaration
      obtain ⟨front, tail, hsource, hfront, htail⟩ := hlayout.exists_cut
      have hpiece : Program.parse (String.ofList front) = .ok [d] := by
        refine Program.parse_eq_ok_iff.2 ⟨ts ++ [], ?_, .programCons hd .programNil⟩
        rw [List.append_nil, String.toList_ofList]
        exact hfront
      have htail : Program.parse (String.ofList tail) = .ok p := by
        refine Program.parse_eq_ok_iff.2 ⟨us, ?_, hp⟩
        rw [String.toList_ofList]
        exact htail
      obtain ⟨piece, rest, heq, hrest, hpieces⟩ := ih htail
      refine ⟨Fin.cons (String.ofList front) piece, rest, ?_, hrest, Fin.cases hpiece hpieces⟩
      rw [List.ofFn_cons, String.join_cons, String.append_assoc, ← heq, ← String.toList_inj,
        String.toList_append, String.toList_ofList, String.toList_ofList, hsource]

/-! ## Orders -/

/-- The kinds of declaration. -/
inductive DeclKind where
  | struct
  | function
  | host
deriving DecidableEq, Repr, Inhabited

/-- The kind of a declaration. -/
def Decl.kind {κ : Type} : Decl κ → DeclKind
  | .struct _ => .struct
  | .function _ => .function
  | .host _ => .host

/-- The order has every declaration once, and those of a kind as they are in the program. -/
structure KeepsKindOrder (p : Program Int) (order : List (Fin p.length)) : Prop where
  perm : order.Perm (List.finRange p.length)
  kinds : order.Pairwise fun i j => (p.get i).kind = (p.get j).kind → i < j

section Orders

variable {p : Program Int} {order : List (Fin p.length)}

/-- Declarations of a kind are found in the same order. -/
theorem KeepsKindOrder.filter_eq (h : KeepsKindOrder p order) (kind : DeclKind) :
    order.filter (fun i => (p.get i).kind = kind) =
      (List.finRange p.length).filter (fun i => (p.get i).kind = kind) := by
  have hsorted : (order.filter fun i => (p.get i).kind = kind).Pairwise (· < ·) := by
    refine List.Pairwise.imp_of_mem ?_ (h.kinds.filter _)
    intro i j hi hj hlt
    have hi := of_decide_eq_true (List.mem_filter.1 hi).2
    have hj := of_decide_eq_true (List.mem_filter.1 hj).2
    exact hlt (hi.trans hj.symm)
  -- both lists are sorted and have the same members
  refine List.Perm.eq_of_pairwise ?_ hsorted ((List.pairwise_lt_finRange _).filter _)
    (h.perm.filter _)
  intro i j _ _ hij hji
  exact absurd (hij.trans hji) (lt_irrefl i)

/-- What is taken from the declarations of one kind does not depend on the order. -/
theorem KeepsKindOrder.filterMap_eq (h : KeepsKindOrder p order) {α : Type}
    {f : Decl Int → Option α} (kind : DeclKind) (hf : ∀ d, f d ≠ none → d.kind = kind) :
    (order.map p.get).filterMap f = p.filterMap f := by
  have hkind : ∀ is : List (Fin p.length), (is.map p.get).filterMap f =
      ((is.filter fun i => (p.get i).kind = kind).map p.get).filterMap f := by
    intro is
    rw [List.filterMap_map, List.filterMap_map, List.filterMap_filter]
    refine List.filterMap_congr fun i _ => ?_
    by_cases hi : (p.get i).kind = kind
    · rw [if_pos (decide_eq_true hi)]
    · rw [if_neg (by simpa using hi)]
      exact by_contra fun hne => hi (hf _ hne)
  -- among the declarations of one kind, nothing was moved
  rw [hkind, h.filter_eq, ← hkind, ← List.ofFn_eq_map, List.ofFn_get]

/-- Modules do not show how kinds of declarations are interleaved. -/
theorem KeepsKindOrder.ofProgram_eq (h : KeepsKindOrder p order) :
    Module.ofProgram (order.map p.get) = Module.ofProgram p := by
  have hstruct : ∀ d : Decl Int, d.struct? ≠ none → d.kind = .struct := by
    rintro (d | d | d) hd
    · rfl
    · exact absurd rfl hd
    · exact absurd rfl hd
  have hfunction : ∀ d : Decl Int, d.function? ≠ none → d.kind = .function := by
    rintro (d | d | d) hd
    · exact absurd rfl hd
    · rfl
    · exact absurd rfl hd
  have hhost : ∀ d : Decl Int, d.host? ≠ none → d.kind = .host := by
    rintro (d | d | d) hd
    · exact absurd rfl hd
    · exact absurd rfl hd
    · rfl
  rw [Module.ofProgram, h.filterMap_eq .struct hstruct, h.filterMap_eq .function hfunction,
    h.filterMap_eq .host hhost, Module.ofProgram]

end Orders

/-- **Compilation units concatenate.** Two accepted sources with a line feed between them are an
accepted source with the declarations of both, and the module of it has theirs kind by kind. So
declarations of different kinds commute: a source whose declarations are those of another one, in an
order that keeps those of each kind in order, compiles as the other one does. Every accepted source
can be reordered so, since it consists of pieces with one declaration each, and pieces in any order,
one to a line, are accepted. -/
theorem sources_concatenate :
    (∀ (source source' : String) (p p' : Program Int), Program.parse source = .ok p →
      Program.parse source' = .ok p' →
        Program.parse (source ++ "\n" ++ source') = .ok (p ++ p')) ∧
    (∀ (source source' : String) (m m' : Module), buildModule source = .ok m →
      buildModule source' = .ok m' →
        buildModule (source ++ "\n" ++ source') = .ok (m.append m')) ∧
    (∀ (source source' : String) (p : Program Int) (order : List (Fin p.length)),
      Program.parse source = .ok p → Program.parse source' = .ok (order.map p.get) →
        KeepsKindOrder p order → CompilesAlike source source') ∧
    (∀ (source : String) (p : Program Int), Program.parse source = .ok p →
      ∃ (piece : Fin p.length → String) (rest : String),
        source = String.join (List.ofFn piece) ++ rest ∧ Program.parse rest = .ok [] ∧
        (∀ i, Program.parse (piece i) = .ok [p.get i]) ∧
        ∀ order : List (Fin p.length),
          Program.parse (unlines (order.map piece)) = .ok (order.map p.get) ∧
          (KeepsKindOrder p order → CompilesAlike source (unlines (order.map piece)))) := by
  have halike : ∀ (source source' : String) (p : Program Int) (order : List (Fin p.length)),
      Program.parse source = .ok p → Program.parse source' = .ok (order.map p.get) →
        KeepsKindOrder p order → CompilesAlike source source' :=
    fun source source' p order hp hp' horder =>
      compilesAlike_of_parse hp hp' horder.ofProgram_eq.symm
  refine ⟨fun _ _ _ _ => Program.parse_append, fun _ _ _ _ => buildModule_append, halike, ?_⟩
  intro source p hp
  obtain ⟨piece, rest, hsource, hrest, hpieces⟩ := Program.exists_pieces hp
  refine ⟨piece, rest, hsource, hrest, hpieces, fun order => ?_⟩
  have horder := Program.parse_unlines hpieces order
  exact ⟨horder, halike source _ p order hp horder⟩

/-- A source with a declaration of each kind. -/
def declaringSource : String :=
  "fn f() \x7b g(); \x7d import log as fn g(); struct P \x7b x: i32 \x7d // the end"

theorem declaringSource_reordered :
    ∃ (p : Program Int) (order : List (Fin p.length)) (source : String),
      Program.parse declaringSource = .ok p ∧ order.map Fin.val = [2, 0, 1] ∧
      KeepsKindOrder p order ∧ Program.parse source = .ok (order.map p.get) ∧
      CompilesAlike declaringSource source := by
  have hkinds : (Program.parse declaringSource).toOption.map (·.map Decl.kind) =
      some [.function, .host, .struct] := by decide +kernel
  obtain ⟨p, hp, hkinds⟩ := map_toOption_eq_some_iff.1 hkinds
  have hlength : p.length = 3 := by simpa using congrArg List.length hkinds
  obtain ⟨a, b, c, rfl⟩ := List.length_eq_three.1 hlength
  obtain ⟨piece, rest, -, -, -, hpieces⟩ := sources_concatenate.2.2.2 _ _ hp
  have horder : KeepsKindOrder [a, b, c] [2, 0, 1] := by
    have hperm : List.Perm [(2 : Fin 3), 0, 1] (List.finRange 3) := by decide
    simp only [List.map_cons, List.map_nil, List.cons.injEq] at hkinds
    exact ⟨hperm, by simp [hkinds]⟩
  exact ⟨_, [2, 0, 1], _, hp, rfl, horder, (hpieces _).1, (hpieces _).2 horder⟩

end Kelp
