import Kelp.Cli.Run
import Kelp.Proofs.Cli.FileSystem
import Kelp.Proofs.EntryPoints

/-!
# What a run leaves behind

A run of the command line writes the artifact that it was asked for, or nothing.

- `Arguments.commandLine` is a way to ask for given arguments, and `parse?_commandLine` says that it
  does.
- `Arguments.product?` is what the compiler makes of a source text, as a library. `toOption_build`:
  a run makes the same, whichever artifact it is asked for.
- `run_writes_artifact_or_nothing`: a run that cannot read its source, or cannot compile it, fails
  and changes nothing. Any other run puts the artifact at its output path and changes nothing else.
-/

namespace Kelp.Cli

/-! ## Command lines -/

/-- An option with its value. -/
def optionText (name value : String) : String := "--" ++ name ++ "=" ++ value

/-- A command line that asks for the given arguments. -/
def Arguments.commandLine (a : Arguments) : List String :=
  [optionText "emit" a.artifact.label, optionText "format" a.options.format.label,
    optionText "import-module" a.options.importModule] ++
  (if a.options.validate then [] else ["--no-validate"]) ++
  (if a.verbose then ["--verbose"] else []) ++
  "--" :: a.source :: a.output.toList

/-- An option with a value is told from one without by its first equals sign. -/
theorem Form.of_optionText {name : String} (hname : ∀ c ∈ name.toList, c ≠ '=') (value : String) :
    Form.of (optionText name value) = .assignment name value := by
  have hkept : ∀ c ∈ name.toList, decide (c ≠ '=') = true := fun c hc => decide_eq_true (hname c hc)
  have htake : (name.toList ++ '=' :: value.toList).takeWhile (· ≠ '=') = name.toList := by
    rw [List.takeWhile_append_of_pos hkept]
    simp
  have hdrop : (name.toList ++ '=' :: value.toList).dropWhile (· ≠ '=') = '=' :: value.toList := by
    rw [List.dropWhile_append_of_pos hkept]
    simp
  have htext : (optionText name value).toList =
      '-' :: '-' :: (name.toList ++ '=' :: value.toList) := by
    simp [optionText]
  have hne : name.toList ++ '=' :: value.toList ≠ [] := by simp
  rw [Form.of, htext]
  -- two dashes and at least one more character: neither a separator nor short
  generalize name.toList ++ '=' :: value.toList = rest at *
  cases rest with
  | nil => exact absurd rfl hne
  | cons c rest =>
    simp only [htake, hdrop, String.ofList_toList]

/-- An option with a value is collected under its name. -/
theorem collect_optionText {name : String} (hname : ∀ c ∈ name.toList, c ≠ '=') (value : String)
    (c : Collected) (rest : List String) :
    collect c (optionText name value :: rest) = c.valued name value >>= (collect · rest) := by
  rw [collect, Form.of_optionText hname]

theorem Artifact.ofLabel?_label (artifact : Artifact) :
    Artifact.ofLabel? artifact.label = some artifact := by
  cases artifact <;> decide

theorem LoaderFormat.ofLabel?_label (format : LoaderFormat) :
    LoaderFormat.ofLabel? format.label = some format := by
  cases format <;> decide

/-- Flags that were not given before. -/
theorem collect_flags {c : Collected} (hc : c.noValidate = false ∧ c.verbose = false)
    (validate verbose : Bool) (rest : List String) :
    collect c ((if validate then [] else ["--no-validate"]) ++
        (if verbose then ["--verbose"] else []) ++ rest) =
      collect { c with noValidate := !validate, verbose } rest := by
  have hnoValidate : Form.of "--no-validate" = .long "no-validate" := by decide
  have hverbose : Form.of "--verbose" = .long "verbose" := by decide
  obtain ⟨_, _, _, _, noValidate, verbose'⟩ := c
  obtain ⟨rfl, rfl⟩ := hc
  cases validate <;> cases verbose <;>
    simp [collect, hnoValidate, hverbose, takesValue, Collected.flag, Collected.setNoValidate,
      Collected.setVerbose, ok_bind]

/-- Behind the separator, whatever is given is a path. -/
theorem collect_positionals {c : Collected} (hc : c.positionals = []) {source : String}
    {output : Option String} (hsource : source ≠ "") (houtput : output ≠ some "") :
    collect c ("--" :: source :: output.toList) =
      .ok { c with positionals := source :: output.toList } := by
  have hform : Form.of "--" = .separator := by decide
  rw [collect, hform]
  cases output with
  | none => simp [Collected.positional, hsource, hc, bind, Except.bind, pure, Except.pure]
  | some output =>
    have houtput : output ≠ "" := fun h => houtput (h ▸ rfl)
    simp [Collected.positional, hsource, houtput, hc, bind, Except.bind, pure, Except.pure]

/-- **Every set of arguments can be asked for.** -/
theorem parse?_commandLine {a : Arguments} (hsource : a.source ≠ "")
    (houtput : a.output ≠ some "") : Request.parse? a.commandLine = some (.compile a) := by
  have hemit : ∀ c ∈ "emit".toList, c ≠ '=' := by simp
  have hformat : ∀ c ∈ "format".toList, c ≠ '=' := by simp
  have himport : ∀ c ∈ "import-module".toList, c ≠ '=' := by simp
  have hcollect : collect {} a.commandLine = .ok {
      positionals := a.source :: a.output.toList
      artifact := some a.artifact
      format := some a.options.format
      importModule := some a.options.importModule
      noValidate := !a.options.validate
      verbose := a.verbose } := by
    simp only [Arguments.commandLine, List.cons_append, List.nil_append, collect_optionText hemit,
      collect_optionText hformat, collect_optionText himport, Collected.valued,
      Artifact.ofLabel?_label, LoaderFormat.ofLabel?_label, String.reduceEq, if_true, if_false,
      ok_bind]
    -- options come first, then flags, then paths behind the separator
    rw [collect_flags ⟨rfl, rfl⟩]
    exact collect_positionals rfl hsource houtput
  rw [Request.parse?, hcollect]
  obtain ⟨source, output, artifact, ⟨format, validate, importModule⟩, verbose⟩ := a
  cases output <;> simp [Collected.arguments?]

/-! ## Artifacts -/

/-- The artifact that is asked for, as the compiler makes it from a source text. -/
def Arguments.product? (a : Arguments) (source : String) : Option Bytes :=
  match a.artifact with
  | .loader => (compileToLoader source a.options).toOption.map Bytes.ofString
  | .text => (compileToText source a.options).toOption.map Bytes.ofString
  | .binary => (compileToBinary source a.options).toOption

theorem toOption_map {ε α β : Type} (f : α → β) (x : Except ε α) :
    (x.map f).toOption = x.toOption.map f := by
  cases x with
  | error e => rfl
  | ok a => rfl

/-- **Artifacts**: a run makes what the compiler makes. -/
theorem toOption_build (a : Arguments) (source : String) :
    (a.build source).toOption = a.product? source := by
  rw [Arguments.build, Arguments.product?]
  cases a.artifact with
  | loader => exact toOption_map _ _
  | binary => rfl
  | text =>
    -- a run makes the text by its own two steps, which leave no stage in a failure
    rcases build_or_failsBefore source a.options with ⟨m, text, hm, htext⟩ | ⟨failure, hfails⟩
    · rw [compileToText_of_text hm htext, hm]
      show ((unstaged (emitText m a.options)).map Bytes.ofString).toOption = _
      rw [htext]
      rfl
    · rw [compileToText_of_failsBefore hfails]
      rcases hfails.stages with hbuild | ⟨m, hm, hemit⟩
      · cases hm : buildModule source with
        | error e => rfl
        | ok m =>
          rw [hm] at hbuild
          cases hbuild
      · rw [hm]
        show ((unstaged (emitText m a.options)).map Bytes.ofString).toOption = _
        cases htext : emitText m a.options with
        | error e => rfl
        | ok text =>
          rw [htext] at hemit
          cases hemit

/-! ## Runs -/

section Runs

variable {fs : FileSystem} {a : Arguments}

/-! A run goes as far as it finds what the next step needs. -/

/-- A source that cannot be read ends the run. -/
theorem Arguments.run_of_no_source {error : RunError}
    (hread : fs.readText a.source = .error error) :
    a.run fs = ⟨1, [.compiling a.source], some error, fs⟩ := by
  have hsource : sourceText a.source (fs.read a.source) = .error error := hread
  simp [Arguments.run, Arguments.runIn, Session.world, hsource, exitCode]

/-- Compilation comes to nothing, and with it the run. -/
theorem Arguments.run_of_build_error {source : String} {failure : Failure}
    (hread : fs.readText a.source = .ok source) (hbuild : a.build source = .error failure) :
    a.run fs = ⟨1, .compiling a.source :: a.events source, some (.compile failure), fs⟩ := by
  have hsource : sourceText a.source (fs.read a.source) = .ok source := hread
  simp [Arguments.run, Arguments.runIn, Session.world, hsource, hbuild, exitCode]

/-- Only the last step of a run depends on its output path. -/
theorem Arguments.run_of_build {source : String} {artifact : Bytes}
    (hread : fs.readText a.source = .ok source) (hbuild : a.build source = .ok artifact) :
    a.run fs = match fs.write a.outputPath artifact with
      | .error error =>
        ⟨1, .compiling a.source :: a.events source, some (.write a.outputPath error), fs⟩
      | .ok after =>
        ⟨0, .compiling a.source :: a.events source ++ [.wrote a.outputPath], none, after⟩ := by
  have hsource : sourceText a.source (fs.read a.source) = .ok source := hread
  cases hwrite : fs.write a.outputPath artifact with
  | error error =>
    simp [Arguments.run, Arguments.runIn, Session.world, hsource, hbuild, hwrite, exitCode]
  | ok after =>
    simp [Arguments.run, Arguments.runIn, Session.world, hsource, hbuild, hwrite, exitCode]

/-- A run without a source text or without an artifact. -/
theorem Arguments.run_of_no_artifact
    (h : ∀ source, fs.readText a.source = .ok source → a.product? source = none) :
    (a.run fs).exitCode = 1 ∧ (a.run fs).files = fs := by
  cases hread : fs.readText a.source with
  | error error =>
    rw [Arguments.run_of_no_source hread]
    exact ⟨rfl, rfl⟩
  | ok source =>
    have hbuild := h source hread
    rw [← toOption_build] at hbuild
    cases hbuild' : a.build source with
    | error failure =>
      rw [Arguments.run_of_build_error hread hbuild']
      exact ⟨rfl, rfl⟩
    | ok artifact =>
      rw [hbuild'] at hbuild
      cases hbuild

section Artifact

variable {source : String} {artifact : Bytes} (hread : fs.readText a.source = .ok source)
  (hartifact : a.product? source = some artifact)

include hread hartifact

/-- A run whose output can be written leaves what writing it leaves. -/
theorem Arguments.run_of_artifact {after : FileSystem}
    (hwrite : fs.write a.outputPath artifact = .ok after) :
    (a.run fs).exitCode = 0 ∧ (a.run fs).files = after := by
  rw [← toOption_build, toOption_eq_some_iff] at hartifact
  rw [Arguments.run_of_build hread hartifact, hwrite]
  exact ⟨rfl, rfl⟩

/-- A run whose output cannot be written leaves everything as it was. -/
theorem Arguments.run_of_not_canWrite (hwrite : ¬ fs.CanWrite a.outputPath) :
    (a.run fs).exitCode = 1 ∧ (a.run fs).files = fs := by
  obtain ⟨error, hwrite⟩ := FileSystem.write_eq_error hwrite artifact
  rw [← toOption_build, toOption_eq_some_iff] at hartifact
  rw [Arguments.run_of_build hread hartifact, hwrite]
  exact ⟨rfl, rfl⟩

end Artifact

end Runs

/-- A command line is run as the arguments that it asks for. -/
theorem run_of_parse? {arguments : List String} {a : Arguments}
    (h : Request.parse? arguments = some (.compile a)) (fs : FileSystem) :
    (run arguments fs).exitCode = (a.run fs).exitCode ∧
      (run arguments fs).files = (a.run fs).files := by
  rw [run, h]
  exact ⟨rfl, rfl⟩

/-- **A run writes its artifact or nothing.** Every set of arguments can be asked for. The output
goes to the given path, or else to that of the source with the extension of the artifact. Without a
source text, or where the compiler makes no artifact of it, a run fails and all files are as before.
Otherwise it succeeds, the output path holds the artifact, and no other file has changed, unless the
output path cannot be written: then, too, the run fails and all files are as before. -/
theorem run_writes_artifact_or_nothing (fs : FileSystem) :
    (∀ a : Arguments, a.source ≠ "" → a.output ≠ some "" →
      Request.parse? a.commandLine = some (.compile a)) ∧
    ∀ (arguments : List String) (a : Arguments), Request.parse? arguments = some (.compile a) →
      (∀ output, a.output = some output → a.outputPath = output) ∧
      (a.output = none → Path.Extended (a.artifact.extension a.options.format).toList
        a.source.toList a.outputPath.toList) ∧
      ((∀ source, fs.readText a.source = .ok source → a.product? source = none) →
        (run arguments fs).exitCode = 1 ∧ (run arguments fs).files = fs) ∧
      ∀ source artifact, fs.readText a.source = .ok source → a.product? source = some artifact →
        (fs.CanWrite a.outputPath → (run arguments fs).exitCode = 0 ∧
          (run arguments fs).files.read a.outputPath = .ok artifact ∧
          fs.AgreesExcept (run arguments fs).files a.outputPath) ∧
        (¬ fs.CanWrite a.outputPath →
          (run arguments fs).exitCode = 1 ∧ (run arguments fs).files = fs) := by
  refine ⟨fun _ => parse?_commandLine, fun arguments a h => ?_⟩
  obtain ⟨hexit, hfiles⟩ := run_of_parse? h fs
  rw [hexit, hfiles]
  refine ⟨fun output houtput => ?_, fun houtput => ?_, Arguments.run_of_no_artifact,
    fun source artifact hread hartifact => ⟨fun hwrite => ?_,
      Arguments.run_of_not_canWrite hread hartifact⟩⟩
  · rw [Arguments.outputPath, houtput, Option.getD_some]
  · rw [Arguments.outputPath, houtput, Option.getD_none]
    exact Path.extended_withExtension _ _
  · obtain ⟨-, l, -, hl, -⟩ := id hwrite
    -- the output path is a place where a file can be put, so writing it succeeds
    have hafter := FileSystem.write_eq_ok_iff.2
      ⟨hwrite, l, hl, (rfl : _ = fs.withFile l artifact)⟩
    obtain ⟨hexit, hfiles⟩ := Arguments.run_of_artifact hread hartifact hafter
    rw [hfiles]
    exact ⟨hexit, FileSystem.read_of_write hafter, FileSystem.agreesExcept_of_write hafter⟩

/-- A directory with a source file, and with a file that the text of it replaces. -/
def workspace : FileSystem where
  current := ["work"]
  directories := [["work"]]
  files := [(["work", "a.kelp"], Bytes.ofString "pub fn f() { }"), (["work", "a.wat"], [])]

/-- What asks for the text of the source file. -/
def textArguments : Arguments where
  source := "./a.kelp"
  output := none
  artifact := .text
  options := {}
  verbose := false

theorem workspace_run :
    (run ["--emit", "wat", "./a.kelp"] workspace).exitCode = 0 ∧
      (run ["--emit", "wat", "./a.kelp"] workspace).files.read "./a.wat" =
        .ok (Bytes.ofString "(module (func $f) (export \"f\" (func $f)))") ∧
      ((run ["--emit", "wat", "./a.kelp"] workspace).files.read "./a.kelp").toOption =
        some (Bytes.ofString "pub fn f() { }") := by
  have hparse : Request.parse? ["--emit", "wat", "./a.kelp"] = some (.compile textArguments) := by
    decide +kernel
  have hread : (workspace.readText "./a.kelp").toOption = some "pub fn f() { }" := by
    decide +kernel
  have hartifact : textArguments.product? "pub fn f() { }" =
      some (Bytes.ofString "(module (func $f) (export \"f\" (func $f)))") := by decide +kernel
  have hsource : workspace.locate "./a.kelp" = .ok ["work", "a.kelp"] := by rfl
  have houtput : workspace.locate "./a.wat" = .ok ["work", "a.wat"] := by rfl
  have hentry : workspace.lookUp ["work", "a.wat"] = .ok (some (.file [])) := by rfl
  rw [toOption_eq_some_iff] at hread
  obtain ⟨-, -, -, hrun⟩ := (run_writes_artifact_or_nothing workspace).2 _ _ hparse
  obtain ⟨hexit, hwritten, hagrees⟩ := (hrun _ _ hread hartifact).1
    ⟨by decide, _, _, houtput, hentry, by decide⟩
  refine ⟨hexit, hwritten, ?_⟩
  rw [hagrees.contents "./a.kelp"]
  · decide +kernel
  · show workspace.locate "./a.kelp" ≠ workspace.locate "./a.wat"
    rw [hsource, houtput]
    simp

end Kelp.Cli
