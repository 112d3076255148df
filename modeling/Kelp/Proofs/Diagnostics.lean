import Mathlib.Order.Bounds.Defs
import Kelp.Proofs.Except
import Kelp.Proofs.Grammar.Attempts
import Kelp.Proofs.Grammar.Runs

/-!
# Diagnostics of refused texts

A text that the grammar refuses is reported at the furthest place where a rule failed.

- `Position.place` gives lines and columns by the ends of lines. `Position.before_place`: they grow
  with the offset, so that a line and a column tell the offset.
- `Attempts.Reports` is what the recorded attempts say about the failures of a run. Backtracking
  never takes a record back, and a rule may keep, replace or drop what its parts recorded:
  `Attempts.reports_record` is about one failure, whatever was recorded before.
- `Program.parse_furthest_failure` is about whole texts.
-/

namespace Kelp

open Grammar

/-! ## Lines and columns -/

namespace Position

/-- The place that is reached over the given characters. A line ends with a line feed, alone or with
a carriage return before it. A carriage return by itself ends no line. -/
def reach : Position → List Char → Position
  | p, [] => p
  | p, '\r' :: '\n' :: rest => reach ⟨p.line + 1, 1⟩ rest
  | p, '\n' :: rest => reach ⟨p.line + 1, 1⟩ rest
  | p, _ :: rest => reach ⟨p.line, p.column + 1⟩ rest

/-- The line and column of an offset in a text. -/
def place (text : List Char) (offset : Nat) : Position := reach start (text.take offset)

/-- One place comes before another: in an earlier line, or earlier in the same line. -/
def Before (p q : Position) : Prop := p.line < q.line ∨ p.line = q.line ∧ p.column < q.column

/-- What `reach` says by the ends of lines is what the parser computes character by character. -/
theorem reach_eq_foldl (p : Position) (cs : List Char) : reach p cs = cs.foldl next p := by
  fun_induction reach p cs with
  | case1 p => rfl
  -- the carriage return moves by a column, which the line feed behind it resets
  | case2 p rest ih => exact ih
  | case3 p rest ih => exact ih
  | case4 p c rest _ hc ih => rw [ih, List.foldl_cons, next, if_neg hc]

/-- The place that a diagnostic carries is the line and the column of its offset. -/
theorem ofOffset_eq_place (text : List Char) (offset : Nat) :
    ofOffset text offset = place text offset :=
  (reach_eq_foldl start (text.take offset)).symm

theorem Before.trans {p q r : Position} (h : p.Before q) (h' : q.Before r) : p.Before r := by
  unfold Before at *
  omega

theorem Before.irrefl (p : Position) : ¬ p.Before p := by
  unfold Before
  omega

/-- Every character leads to a later place, a line feed to the next line. -/
theorem before_next (p : Position) (c : Char) : p.Before (p.next c) := by
  unfold next
  split
  · exact .inl (Nat.lt_succ_self _)
  · exact .inr ⟨rfl, Nat.lt_succ_self _⟩

/-- So do one or more characters. -/
theorem before_foldl_next (p : Position) (c : Char) (cs : List Char) :
    p.Before ((c :: cs).foldl next p) := by
  induction cs generalizing p c with
  | nil => exact p.before_next c
  | cons d cs ih => exact (p.before_next c).trans (ih (p.next c) d)

/-- **Places grow with their offsets.** -/
theorem before_place {text : List Char} {i j : Nat} (hij : i < j) (hj : j ≤ text.length) :
    (place text i).Before (place text j) := by
  -- the longer way is the shorter one and at least one more character
  have hsplit : text.take i ++ (text.take j).drop i = text.take j := by
    have h := List.take_append_drop i (text.take j)
    rwa [List.take_take, Nat.min_eq_left (Nat.le_of_lt hij)] at h
  obtain ⟨c, cs, hcs⟩ : ∃ c cs, (text.take j).drop i = c :: cs := by
    refine List.exists_cons_of_length_pos ?_
    rw [List.length_drop, List.length_take]
    omega
  rw [place, place, reach_eq_foldl, reach_eq_foldl, ← hsplit, List.foldl_append, hcs]
  exact before_foldl_next _ c cs

/-- A line and a column tell the offset. -/
theorem place_inj {text : List Char} {i j : Nat} (hi : i ≤ text.length) (hj : j ≤ text.length)
    (h : place text i = place text j) : i = j := by
  rcases Nat.lt_trichotomy i j with hij | hij | hij
  · exact absurd (h ▸ before_place hij hj) (Before.irrefl _)
  · exact hij
  · exact absurd (h ▸ before_place hij hi) (Before.irrefl _)

end Position

/-! ## What is recorded -/

namespace Grammar

/-- The attempts that are recorded after the given failures: no failure was further on, and the
recorded rules failed at the place that is remembered. -/
structure Attempts.Reports (a : Attempts) (fs : List RuleFailure) : Prop where
  furthest : ∀ f ∈ fs, f.offset ≤ a.offset
  failed : ∀ r ∈ a.rules, ⟨r, a.offset⟩ ∈ fs

/-- Recording a failure takes account of it, whatever was recorded when the rule began. -/
theorem Attempts.reports_record {r : Rule} {offset : Nat} {before after : Attempts}
    {fs : List RuleFailure} (h : after.Reports fs) :
    (Attempts.record r offset before after).Reports (fs ++ [⟨r, offset⟩]) := by
  -- the failures so far, and the new one at a place that is not further on
  have hfurthest : offset ≤ after.offset →
      ∀ f ∈ fs ++ [⟨r, offset⟩], f.offset ≤ after.offset := fun hle =>
    List.forall_mem_append.2 ⟨h.furthest, List.forall_mem_singleton.2 hle⟩
  have hfailed : ∀ r' ∈ after.rules, ⟨r', after.offset⟩ ∈ fs ++ [⟨r, offset⟩] := fun r' hr' =>
    List.mem_append_left _ (h.failed r' hr')
  have hnew : (⟨r, offset⟩ : RuleFailure) ∈ fs ++ [⟨r, offset⟩] :=
    List.mem_append_right _ (List.mem_singleton_self _)
  unfold Attempts.record
  extract_lets earlier
  split
  next hcount =>
    -- the record of a part stands for the rule
    have hoffset : offset = after.offset := by
      by_contra hne
      rw [Attempts.countAt, if_neg hne] at hcount
      cases hcount
    exact ⟨hfurthest (Nat.le_of_eq hoffset), hfailed⟩
  next =>
    split
    next hoffset =>
      -- same place: some records of the parts are kept, and the rule is added
      subst hoffset
      refine ⟨hfurthest (Nat.le_refl _), List.forall_mem_append.2 ⟨fun r' hr' => ?_, ?_⟩⟩
      · exact hfailed r' (List.mem_of_mem_take hr')
      · exact List.forall_mem_singleton.2 hnew
    next hne =>
      split
      next hlt =>
        -- further on than all before: nothing but the rule is kept
        refine ⟨List.forall_mem_append.2 ⟨fun f hf => ?_, ?_⟩, List.forall_mem_singleton.2 hnew⟩
        · exact Nat.le_trans (h.furthest f hf) (Nat.le_of_lt hlt)
        · exact List.forall_mem_singleton.2 (Nat.le_refl _)
      -- the parts failed further on, so this failure adds nothing
      next hge => exact ⟨hfurthest (by omega), hfailed⟩

/-- The depth that the parser allows is enough for whole texts. -/
theorem depth_program (text : List Char) :
    heightBound (Cursor.start text).left (Rule.level .program) < depthBound text := by
  have hleft : (Cursor.start text).left ≤ text.length := (Cursor.start text).length_skip_le
  have hmul := Nat.mul_le_mul_left Rule.all.length hleft
  have hlevel := Rule.level_lt .program
  rw [heightBound, depthBound, Nat.mul_succ]
  omega

/-- The run of the grammar on a text is what `matchProgram` goes by. -/
theorem exists_runs_matchProgram (text : List Char) :
    (∃ program c fs, matchProgram text = .ok program ∧
      Rule.Runs .program (.start text) (some (program, c)) fs) ∨
    ∃ attempts fs, matchProgram text = .error attempts ∧
      Rule.Runs .program (.start text) none fs ∧ attempts.Reports fs := by
  have hstart : Attempts.start.Reports [] := ⟨List.forall_mem_nil _, List.forall_mem_nil _⟩
  -- recording is one way to trace a run, and it keeps `Reports`
  have hrun : Follows Attempts.Reports _ _ (Rule.run Attempts.record _ _ _ _) :=
    Rule.run_traced (fun _ _ _ _ _ => Attempts.reports_record) (depthBound text) .program
      (.start text) .start [] (depth_program text) hstart
  unfold matchProgram
  generalize Rule.run Attempts.record (depthBound text) .program (.start text) .start = m at hrun ⊢
  obtain ⟨fs, hfs, hreports⟩ := hrun
  rcases m with ⟨_ | ⟨program, c⟩, attempts⟩
  · exact .inr ⟨attempts, fs, rfl, ⟨_, hfs⟩, hreports⟩
  · exact .inl ⟨program, c, fs, rfl, ⟨_, hfs⟩⟩

/-- The grammar refuses the text: its run does not match. -/
def Refused (text : List Char) : Prop :=
  ∀ program c fs, ¬ Rule.Runs .program (.start text) (some (program, c)) fs

/-- A text is refused exactly when the parser finds no match. -/
theorem refused_iff {text : List Char} : Refused text ↔ (matchProgram text).isOk = false := by
  rcases exists_runs_matchProgram text with ⟨program, c, fs, hmatch, hruns⟩ |
    ⟨attempts, fs, hmatch, hruns, -⟩
  · rw [hmatch]
    exact iff_of_false (fun h => h program c fs hruns) Bool.noConfusion
  · rw [hmatch]
    refine iff_of_true (fun program c gs hruns' => ?_) rfl
    -- the run that fails is the only run
    cases (Rule.Runs.unique hruns hruns').1

/-- The names of the rules in the order of the grammar, behind the one for the end of the text. -/
def ruleNames : List String :=
  ["EOI", "kw_struct", "kw_fn", "kw_pub", "kw_import", "kw_as", "kw_let", "kw_return", "ident",
    "int_lit", "program", "type_ref", "typed_name", "typed_names", "return_type", "struct_def",
    "func_def", "block", "host_path", "extern_func", "let_stmt", "return_stmt", "expr_stmt", "sum",
    "product", "call", "call_expr", "arg_list", "dot"]

/-- The rules carry these names, in this order. -/
theorem map_label_all : Rule.all.map Rule.label = ruleNames := by decide

theorem nodup_ruleNames : ruleNames.Nodup := by decide

end Grammar

/-- **Diagnostics point at the furthest failure.** A text that the grammar refuses has one run,
which fails, and one diagnostic. Its line and column are those of exactly one offset of the text,
since places grow with their offsets. That offset is the greatest one at which a rule failed during
the run, and the message names one or more rules, each once and in the order of the grammar, all of
which failed there. -/
theorem Program.parse_furthest_failure {source : String} (h : Refused source.toList) :
    ∃ fs p rules,
      (∀ m fs', Rule.Runs .program (.start source.toList) m fs' ↔ m = none ∧ fs' = fs) ∧
      Program.parse source = .error ⟨[⟨Position.place source.toList p,
        "expected " ++ enumerate (rules.map Rule.label)⟩]⟩ ∧
      p ≤ source.toList.length ∧
      (∀ i j, i < j → j ≤ source.toList.length →
        (Position.place source.toList i).Before (Position.place source.toList j)) ∧
      (∀ q ≤ source.toList.length,
        Position.place source.toList q = Position.place source.toList p → q = p) ∧
      IsGreatest {q | ∃ r, ⟨r, q⟩ ∈ fs} p ∧
      rules ≠ [] ∧ (rules.map Rule.label).Nodup ∧ (rules.map Rule.label).Sublist ruleNames ∧
      ∀ r ∈ rules, ⟨r, p⟩ ∈ fs := by
  rcases exists_runs_matchProgram source.toList with ⟨program, c, fs, -, hruns⟩ |
    ⟨attempts, fs, hmatch, hruns, hreports⟩
  · exact absurd hruns (h program c fs)
  · have hexpected := matchProgram_expected hmatch
    have hfailed : ∀ r ∈ attempts.expected, ⟨r, attempts.offset⟩ ∈ fs := fun r hr =>
      hreports.failed r (of_decide_eq_true (List.mem_filter.1 hr).2)
    -- a rule is named, so something did fail at the place that is remembered
    obtain ⟨r, hr⟩ := List.exists_mem_of_ne_nil _ hexpected
    have hlength : attempts.offset ≤ source.toList.length := by
      obtain ⟨n, hn⟩ := hruns
      exact (Rule.RunsIn.staysWithin _ n .program hn (Nat.zero_add _)).2 _ (hfailed r hr)
    have hnames : (attempts.expected.map Rule.label).Sublist ruleNames := by
      rw [← map_label_all]
      exact List.filter_sublist.map Rule.label
    refine ⟨fs, attempts.offset, attempts.expected, fun m fs' => ⟨fun hruns' => ?_, ?_⟩, ?_,
      hlength, fun i j => Position.before_place, fun q hq => Position.place_inj hq hlength,
      ⟨⟨r, hfailed r hr⟩, ?_⟩, hexpected, nodup_ruleNames.sublist hnames, hnames, hfailed⟩
    · exact Rule.Runs.unique hruns' hruns
    · rintro ⟨rfl, rfl⟩
      exact hruns
    · rw [← Position.ofOffset_eq_place]
      unfold Program.parse
      extract_lets text
      rw [hmatch]
      rfl
    · rintro q ⟨r', hr'⟩
      exact hreports.furthest _ hr'

/-- A source with a variable where only a call may stand, in its second line. -/
def bareVariable : String := "fn f() \x7b\r\n  a;\r\x7d"

theorem bareVariable_reported : Refused bareVariable.toList ∧
    ∃ fs, Rule.Runs .program (.start bareVariable.toList) none fs ∧
      IsGreatest {q | ∃ r, ⟨r, q⟩ ∈ fs} 13 ∧
      Program.parse bareVariable = .error ⟨[⟨⟨2, 4⟩, "expected arg_list"⟩]⟩ := by
  have hrefused : Refused bareVariable.toList := refused_iff.2 (by decide +kernel)
  have hparse : (Program.parse bareVariable).map (fun _ => ()) =
      .error ⟨[⟨⟨2, 4⟩, "expected arg_list"⟩]⟩ := by decide +kernel
  have hplace : Position.place bareVariable.toList 13 = ⟨2, 4⟩ := by decide +kernel
  obtain ⟨fs, p, rules, hruns, hreport, -, -, hunique, hgreatest, -⟩ :=
    Program.parse_furthest_failure hrefused
  rw [hreport] at hparse
  have hdiagnostic := Except.error.inj hparse
  have hposition : Position.place bareVariable.toList p = ⟨2, 4⟩ := by
    simp only [ParseFailure.mk.injEq, List.cons.injEq, Diagnostic.mk.injEq] at hdiagnostic
    exact hdiagnostic.1.1
  obtain rfl := hunique 13 (by decide +kernel) (hplace.trans hposition.symm)
  exact ⟨hrefused, fs, (hruns none fs).2 ⟨rfl, rfl⟩, hgreatest, hreport.trans (by rw [hdiagnostic])⟩

end Kelp
