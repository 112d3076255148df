import Kelp.Proofs.Except
import Kelp.Proofs.Script.Loading

/-!
# Statements of loaders

The statements of a script, read from its lines.

- `Statement.ofLine?` reads a line as a statement, and `statements?` all lines of a script.
- `statements?_scriptText`: the text of a script is read as the statements that it was written from,
  where every statement stands on one line and binds an identifier.
- `behind?` gives the lines behind the last declaration of a constant.
-/

namespace Kelp.Script

open Reader

/-! ## Reading statements -/

/-- A value with the semicolon behind it, up to the end of the line. -/
def valueToEnd : Reader Char String := fun text =>
  if text.getLast? = some ';' then some (String.ofList text.dropLast, []) else none

/-- A declaration that starts with the given words. -/
def declarationBy (words : String) (make : String → String → Statement) :
    Reader Char Statement := do
  fixed words
  let name ← word isIdentChar
  fixed " = "
  return make name (← valueToEnd)

/-- A statement that consists of the given words and a value. -/
def valueBehind (words : String) (make : String → Statement) : Reader Char Statement := do
  fixed words
  return make (← valueToEnd)

/-- An export of a binding under another name. -/
def exportAs : Reader Char Statement := do
  fixed "export \x7b "
  let binding ← word isIdentChar
  fixed " as "
  let name ← word isIdentChar
  fixed " \x7d;"
  return .exportAs binding name

/-- A statement. -/
def statement : Reader Char Statement :=
  declarationBy "const " .constant <|> declarationBy "export const " .exportConstant <|>
    exportAs <|> valueBehind "export default " .exportDefault <|>
    valueBehind "module.exports = " .moduleExports

/-- The statement that a line consists of. -/
def Statement.ofLine? (line : List Char) : Option Statement := exactly statement line

/-- The lines of a text, each of which has to end with a line break. -/
def lines? (text : List Char) : Option (List (List Char)) :=
  let pieces := text.splitOn '\n'
  if pieces.getLast? = some [] then some pieces.dropLast else none

/-- The statements of a script, one for each line. -/
def statements? (script : String) : Option (List Statement) :=
  (lines? script.toList).bind (·.mapM Statement.ofLine?)

/-- The lines behind the last one that starts as given. -/
def behind? (start : List Char) : List (List Char) → Option (List (List Char))
  | [] => none
  | l :: ls =>
    match behind? start ls with
    | some rest => some rest
    | none => if start <+: l then some ls else none

/-! ## Lines

The line of a statement is its `body` and a line break. No other line break is in it, so the lines
of a script are the bodies of its statements. -/

/-- A name and another part of a statement between fixed words. -/
def partsText (opening name middle part closing : String) : List Char :=
  opening.toList ++ (name.toList ++ (middle.toList ++ (part.toList ++ closing.toList)))

/-- A value behind fixed words. -/
def valueText (words value : String) : List Char := words.toList ++ (value.toList ++ [';'])

/-- The line of a statement without its line break. -/
def Statement.body : Statement → List Char
  | .constant name value => partsText "const " name " = " value ";"
  | .exportConstant name value => partsText "export const " name " = " value ";"
  | .exportAs binding name => partsText "export \x7b " binding " as " name " \x7d;"
  | .exportDefault value => valueText "export default " value
  | .moduleExports value => valueText "module.exports = " value

theorem toList_parts (opening name middle part closing : String) :
    (opening ++ name ++ middle ++ part ++ (closing ++ "\n")).toList =
      partsText opening name middle part closing ++ ['\n'] := by
  simp [partsText]

theorem toList_value (words value : String) :
    (words ++ value ++ ";\n").toList = valueText words value ++ ['\n'] := by
  simp [valueText]

/-- A statement is written as one line. -/
theorem Statement.toList_line (s : Statement) : s.line.toList = s.body ++ ['\n'] := by
  cases s with
  | constant name value => exact toList_parts "const " name " = " value ";"
  | exportConstant name value => exact toList_parts "export const " name " = " value ";"
  | exportAs binding name => exact toList_parts "export \x7b " binding " as " name " \x7d;"
  | exportDefault value => exact toList_value "export default " value
  | moduleExports value => exact toList_value "module.exports = " value

/-- A statement that binds identifiers, on one line. -/
def Statement.Readable : Statement → Prop
  | .constant name value => IsBinding name ∧ '\n' ∉ value.toList
  | .exportConstant name value => IsBinding name ∧ '\n' ∉ value.toList
  | .exportAs binding name => IsBinding binding ∧ IsBinding name
  | .exportDefault value => '\n' ∉ value.toList
  | .moduleExports value => '\n' ∉ value.toList

theorem IsBinding.newline_notMem {name : String} (h : IsBinding name) : '\n' ∉ name.toList :=
  fun hc => absurd (h.2 _ hc) (by decide)

theorem newline_notMem_partsText {opening name middle part closing : String}
    (hwords : '\n' ∉ opening.toList ∧ '\n' ∉ middle.toList ∧ '\n' ∉ closing.toList)
    (hname : IsBinding name) (hpart : '\n' ∉ part.toList) :
    '\n' ∉ partsText opening name middle part closing := by
  simp [partsText, hwords, hname.newline_notMem, hpart]

theorem newline_notMem_valueText {words value : String} (hwords : '\n' ∉ words.toList)
    (hvalue : '\n' ∉ value.toList) : '\n' ∉ valueText words value := by
  simp [valueText, hwords, hvalue]

theorem Statement.Readable.newline_notMem {s : Statement} (h : s.Readable) : '\n' ∉ s.body := by
  cases s with
  | constant name value => exact newline_notMem_partsText (by simp) h.1 h.2
  | exportConstant name value => exact newline_notMem_partsText (by simp) h.1 h.2
  | exportAs binding name => exact newline_notMem_partsText (by simp) h.1 h.2.newline_notMem
  | exportDefault value => exact newline_notMem_valueText (by simp) h
  | moduleExports value => exact newline_notMem_valueText (by simp) h

/-- The line of the first statement, and then the other ones. -/
theorem toList_scriptText_cons (s : Statement) (rest : List Statement) :
    (scriptText (s :: rest)).toList = s.body ++ '\n' :: (scriptText rest).toList := by
  rw [scriptText, List.map_cons, String.join_cons, String.toList_append, Statement.toList_line,
    List.append_assoc]
  rfl

/-- Lines up to a line break, and then the lines behind it. -/
theorem lines?_append {front rest : List Char} {ls : List (List Char)} (h : lines? rest = some ls) :
    lines? (front ++ '\n' :: rest) = some (front.splitOn '\n' ++ ls) := by
  rw [lines?] at h ⊢
  rw [List.splitOn_append_cons_self]
  simp only [Option.ite_none_right_eq_some, Option.some.injEq] at h ⊢
  obtain ⟨hlast, rfl⟩ := h
  have hne : rest.splitOn '\n' ≠ [] := List.splitOn_ne_nil _ _
  rw [List.getLast?_append_of_ne_nil _ hne, List.dropLast_append_of_ne_nil hne]
  exact ⟨hlast, rfl⟩

/-- The lines of a script are those of its statements. -/
theorem lines?_scriptText {ss : List Statement} (h : ∀ s ∈ ss, s.Readable) :
    lines? (scriptText ss).toList = some (ss.map Statement.body) := by
  induction ss with
  | nil => rfl
  | cons s ss ih =>
    rw [List.forall_mem_cons] at h
    rw [toList_scriptText_cons, lines?_append (ih h.2),
      List.splitOn_eq_singleton h.1.newline_notMem]
    rfl

/-- The last lines of a script, whatever lines the statements before them are written on. -/
theorem exists_lines?_scriptText (before : List Statement) {ss : List Statement}
    (h : ∀ s ∈ ss, s.Readable) :
    ∃ front, lines? (scriptText (before ++ ss)).toList = some (front ++ ss.map Statement.body) := by
  induction before with
  | nil => exact ⟨[], lines?_scriptText h⟩
  | cons s before ih =>
    obtain ⟨front, hfront⟩ := ih
    -- a statement with line breaks in it makes several lines
    refine ⟨s.body.splitOn '\n' ++ front, ?_⟩
    rw [List.cons_append, toList_scriptText_cons, lines?_append hfront, List.append_assoc]

/-! ## Statements -/

/-- A word ends where something of another kind follows. -/
theorem word_append {p : Char → Bool} {s : String} {rest : List Char} (hne : s.toList ≠ [])
    (hs : ∀ c ∈ s.toList, p c = true) (hrest : ∀ c ∈ rest.head?, p c = false) :
    word p (s.toList ++ rest) = some (s, rest) := by
  refine (bind_of_eq (run_append hne hs hrest)).trans ?_
  show some (String.ofList s.toList, rest) = _
  rw [String.ofList_toList]

theorem valueToEnd_append (value : String) :
    valueToEnd (value.toList ++ [';']) = some (value, []) := by
  simp [valueToEnd]

/-- A declaration is read from its line. -/
theorem declarationBy_partsText (words : String) (make : String → String → Statement)
    {name : String} (hname : IsBinding name) (value : String) :
    declarationBy words make (partsText words name " = " value ";") =
      some (make name value, []) := by
  refine ((reads_fixed words).bind_apply _).trans ?_
  refine (bind_of_eq (word_append hname.1 hname.2 (by simp [isIdentChar]))).trans ?_
  refine ((reads_fixed " = ").bind_apply _).trans ?_
  exact bind_of_eq (valueToEnd_append value)

theorem valueBehind_valueText (words : String) (make : String → Statement) (value : String) :
    valueBehind words make (valueText words value) = some (make value, []) := by
  refine ((reads_fixed words).bind_apply _).trans ?_
  exact bind_of_eq (valueToEnd_append value)

/-- An export under another name is read from its line. -/
theorem exportAs_partsText {binding name : String} (hbinding : IsBinding binding)
    (hname : IsBinding name) :
    exportAs (partsText "export \x7b " binding " as " name " \x7d;") =
      some (.exportAs binding name, []) := by
  refine ((reads_fixed "export \x7b ").bind_apply _).trans ?_
  refine (bind_of_eq (word_append hbinding.1 hbinding.2 (by simp [isIdentChar]))).trans ?_
  refine ((reads_fixed " as ").bind_apply _).trans ?_
  refine (bind_of_eq (word_append hname.1 hname.2 (by simp [isIdentChar]))).trans ?_
  have hend := (reads_fixed " \x7d;").bind_apply
    (f := fun _ => pure (Statement.exportAs binding name)) []
  rwa [List.append_nil] at hend

section Alternatives

variable {α : Type} {r r' : Reader Char α} {text : List Char}

theorem orElse_of_some {x : α × List Char} (h : r text = some x) : (r <|> r') text = some x := by
  show (r text).orElse _ = _
  rw [h]
  rfl

/-- Fixed words are read only where they stand. -/
theorem expect_eq_none {ts text : List Char} (h : ¬ ts <+: text) : expect ts text = none := by
  induction ts generalizing text with
  | nil => exact absurd List.nil_prefix h
  | cons t ts ih =>
    cases text with
    | nil => rfl
    | cons c text =>
      by_cases hc : c = t
      · subst hc
        rw [List.cons_prefix_cons, not_and] at h
        exact ((reads_mark c).bind_apply text).trans (ih (h rfl))
      · have hmark : mark t (c :: text) = none := by
          show (if c = t then pure () else failure : Reader Char Unit) text = none
          rw [if_neg hc]
          rfl
        show (mark t (c :: text)).bind _ = none
        rw [hmark]
        rfl

/-- An alternative that starts with other words is skipped. -/
theorem orElse_skip {words : String} {f : Unit → Reader Char α} {x : α × List Char}
    (h : ¬ words.toList <+: text) (hr : r text = some x) :
    ((fixed words >>= f) <|> r) text = some x := by
  have hnone : (fixed words >>= f) text = none := by
    show (expect words.toList text).bind _ = none
    rw [expect_eq_none h]
    rfl
  show ((fixed words >>= f) text).orElse _ = _
  rw [hnone]
  exact hr

end Alternatives

/-- A statement is read from its line. -/
theorem Statement.Readable.ofLine?_body {s : Statement} (h : s.Readable) :
    Statement.ofLine? s.body = some s := by
  suffices hs : statement s.body = some (s, []) by
    rw [Statement.ofLine?, exactly, hs]
    rfl
  cases s with
  | constant name value => exact orElse_of_some (declarationBy_partsText _ _ h.1 value)
  -- from here on, the kinds that are tried before start with other words
  | exportConstant name value =>
    refine orElse_skip (by simp [Statement.body, partsText]) ?_
    exact orElse_of_some (declarationBy_partsText _ _ h.1 value)
  | exportAs binding name =>
    refine orElse_skip (by simp [Statement.body, partsText]) ?_
    refine orElse_skip (by simp [Statement.body, partsText]) ?_
    exact orElse_of_some (exportAs_partsText h.1 h.2)
  | exportDefault value =>
    refine orElse_skip (by simp [Statement.body, valueText]) ?_
    refine orElse_skip (by simp [Statement.body, valueText]) ?_
    refine orElse_skip (by simp [Statement.body, valueText]) ?_
    exact orElse_of_some (valueBehind_valueText _ _ value)
  | moduleExports value =>
    refine orElse_skip (by simp [Statement.body, valueText]) ?_
    refine orElse_skip (by simp [Statement.body, valueText]) ?_
    refine orElse_skip (by simp [Statement.body, valueText]) ?_
    refine orElse_skip (by simp [Statement.body, valueText]) ?_
    exact valueBehind_valueText _ _ value

/-- Different statements stand on different lines. -/
theorem Statement.Readable.eq_of_body {s t : Statement} (hs : s.Readable) (ht : t.Readable)
    (h : s.body = t.body) : s = t := by
  have hread := hs.ofLine?_body
  rw [h, ht.ofLine?_body] at hread
  exact (Option.some.inj hread).symm

/-- Statements are read line by line. -/
theorem mapM_ofLine?_body {ss : List Statement} (h : ∀ s ∈ ss, s.Readable) :
    (ss.map Statement.body).mapM Statement.ofLine? = some ss := by
  rw [mapM_eq_some_iff, List.forall₂_map_left_iff, List.forall₂_same]
  exact fun s hs => (h s hs).ofLine?_body

/-- **Statements are read back**: the text of a script is read as the statements that it was written
from, each on a line of its own. -/
theorem statements?_scriptText {ss : List Statement} (h : ∀ s ∈ ss, s.Readable) :
    statements? (scriptText ss) = some ss := by
  rw [statements?, lines?_scriptText h, Option.bind_some]
  exact mapM_ofLine?_body h

/-! ## Lines behind a declaration -/

/-- Nothing is behind a line that does not exist. -/
theorem behind?_eq_none {start : List Char} {ls : List (List Char)} (h : ∀ l ∈ ls, ¬ start <+: l) :
    behind? start ls = none := by
  induction ls with
  | nil => rfl
  | cons l ls ih =>
    rw [List.forall_mem_cons] at h
    rw [behind?, ih h.2]
    exact if_neg h.1

/-- What stands behind the last declaration, whatever stands before it. -/
theorem behind?_append {start l : List Char} (before : List (List Char)) {after : List (List Char)}
    (hl : start <+: l) (hafter : ∀ l ∈ after, ¬ start <+: l) :
    behind? start (before ++ l :: after) = some after := by
  induction before with
  | nil =>
    rw [List.nil_append, behind?, behind?_eq_none hafter]
    exact if_pos hl
  | cons l' before ih => rw [List.cons_append, behind?, ih]

end Kelp.Script
