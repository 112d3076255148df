import Kelp.Proofs.Emission

/-!
# Entry points

All ways to compile go through the same stages: a source is parsed, its module is lowered to text,
the text is handed to a toolchain, and the binary that comes back is wrapped in a loader.

- `FailsBefore` says which stage fails first when no text is made, and `finish` what becomes of the
  answer of a toolchain.
- `compileWith_of_text` and `compileWith_of_failsBefore`: with any toolchain, whatever its effects,
  compilation is one call on the text of the source, or none if there is no text.
- `compileToBinary_eq_ok_iff` lists the stages that a source with a binary has gone through, and
  `exists_assembly` collects them.
- `compileToLoader_of_binary` and `compileToLoader_of_failure`: with the built-in toolchain, the
  loader is made from the binary of the source, and fails as the binary does.
- `exists_binary_iff_assembles`: whether there is a binary can be told from the lowered module, and
  its text need not be read for that.
- `entryPoints_agree` puts all of this together: loader, binary and precompiled module stand or fall
  together, whatever the format is, and validation only ever refuses.
-/

namespace Kelp

/-! ## Definitions -/

/-- The first stage that fails on the way to a text, and the failure that it gives. -/
inductive FailsBefore (source : String) (options : Options) : Failure → Prop
  | parse {e : ParseFailure} (h : Program.parse source = .error e) :
      FailsBefore source options ⟨some .build, .parse e⟩
  | lowering {p : Program Int} {e : LoweringError} (hparse : Program.parse source = .ok p)
      (h : (Module.ofProgram p).lower options.importModule = .error e) :
      FailsBefore source options ⟨some .emit, .lowering e⟩

/-- What becomes of the answer of a toolchain: the loader of a binary, or the failure to assemble
one. -/
def finish (m : Module) (options : Options) : Except CompileError Bytes → Except Failure String
  | .ok binary => .ok (Loader.text binary m options.importModule options.format)
  | .error error => .error ⟨some .assemble, error⟩

/-- The toolchain that answers as given, and notes each text that it is handed. -/
def recording (answer : String → Except CompileError Bytes) :
    Toolchain (StateM (List String)) := fun text => do
  modify (· ++ [text])
  return answer text

/-! ## Stages -/

section Stages

variable {source : String} {options : Options}

theorem Stage.within_ok {α : Type} (stage : Stage) (a : α) :
    stage.within (.ok a) = .ok a := rfl

theorem Stage.within_error {α : Type} (stage : Stage) (cause : CompileError) :
    stage.within (.error cause : Except CompileError α) = .error ⟨some stage, cause⟩ := rfl

/-- A stage that succeeds had nothing to wrap. -/
theorem Stage.within_eq_ok {α : Type} {stage : Stage} {x : Except CompileError α} {a : α}
    (h : stage.within x = .ok a) : x = .ok a := by
  cases x with
  | error e => cases h
  | ok b =>
    cases h
    rfl

/-- The outcome of the first two stages. -/
theorem build_or_failsBefore (source : String) (options : Options) :
    (∃ m text, buildModule source = .ok m ∧ emitText m options = .ok text) ∨
      ∃ failure, FailsBefore source options failure := by
  cases hparse : Program.parse source with
  | error e => exact .inr ⟨_, .parse hparse⟩
  | ok p =>
    cases hlower : (Module.ofProgram p).lower options.importModule with
    | error e => exact .inr ⟨_, .lowering hparse hlower⟩
    | ok t =>
      exact .inl ⟨_, _, buildModule_eq_ok_iff.2 ⟨p, hparse, rfl⟩,
        emitText_eq_ok_iff.2 ⟨t, hlower, rfl⟩⟩

/-- The outcome of the two stages where one of them fails. -/
theorem FailsBefore.stages {failure : Failure} (h : FailsBefore source options failure) :
    Stage.build.within (buildModule source) = .error failure ∨
      ∃ m, buildModule source = .ok m ∧
        Stage.emit.within (emitText m options) = .error failure := by
  cases h with
  | @parse e h =>
    have hm : buildModule source = .error (.parse e) := by
      unfold buildModule
      rw [h]
    exact .inl (hm ▸ Stage.within_error .build (.parse e))
  | @lowering p e hparse h =>
    have htext : emitText (Module.ofProgram p) options = .error (.lowering e) := by
      unfold emitText
      rw [h]
    exact .inr ⟨_, buildModule_eq_ok_iff.2 ⟨p, hparse, rfl⟩,
      htext ▸ Stage.within_error .emit (.lowering e)⟩

/-- Whether there is a text depends on one option only. -/
theorem FailsBefore.congr {options' : Options} {failure : Failure}
    (h : FailsBefore source options failure)
    (hoptions : options.importModule = options'.importModule) :
    FailsBefore source options' failure := by
  cases h with
  | parse h => exact .parse h
  | lowering hparse h => exact .lowering hparse (hoptions ▸ h)

/-- The text of a module depends neither on the format of its loader nor on validation. -/
theorem emitText_congr {m : Module} {options' : Options}
    (h : options.importModule = options'.importModule) :
    emitText m options = emitText m options' := by
  unfold emitText
  rw [h]

end Stages

/-! ## Texts -/

section Text

variable {source : String} {options : Options}

/-- The text of a source is what its module is emitted as. -/
theorem compileToText_of_text {m : Module} {text : String} (hm : buildModule source = .ok m)
    (htext : emitText m options = .ok text) : compileToText source options = .ok text := by
  unfold compileToText
  rw [hm, Stage.within_ok]
  show Stage.emit.within (emitText m options) = _
  rw [htext, Stage.within_ok]

/-- Without a text, the failure is that of the first stage that fails. -/
theorem compileToText_of_failsBefore {failure : Failure} (h : FailsBefore source options failure) :
    compileToText source options = .error failure := by
  unfold compileToText
  rcases h.stages with hbuild | ⟨m, hm, hemit⟩
  · rw [hbuild]
    rfl
  · rw [hm, Stage.within_ok]
    exact hemit

end Text

/-! ## Toolchains -/

section Toolchains

variable {μ : Type → Type} [Monad μ] {source : String} {options : Options}

/-- Once the module is built, its source is not looked at any more. -/
theorem compileWith_of_build (toolchain : Toolchain μ) {m : Module}
    (hm : buildModule source = .ok m) :
    compileWith toolchain source options = loaderWith toolchain m options := by
  unfold compileWith
  rw [hm, Stage.within_ok]

/-- **No call**: where the source has no text, the failure is known without the toolchain. -/
theorem compileWith_of_failsBefore (toolchain : Toolchain μ) {failure : Failure}
    (h : FailsBefore source options failure) :
    compileWith toolchain source options = pure (.error failure) := by
  rcases h.stages with hbuild | ⟨m, hm, hemit⟩
  · unfold compileWith
    rw [hbuild]
  · rw [compileWith_of_build toolchain hm]
    unfold loaderWith
    rw [hemit]

/-- **One call**: where the source has a text, the toolchain is called on it, and nothing else is
done. -/
theorem compileWith_of_text [LawfulMonad μ] (toolchain : Toolchain μ) {m : Module} {text : String}
    (hm : buildModule source = .ok m) (htext : emitText m options = .ok text) :
    compileWith toolchain source options = finish m options <$> toolchain text := by
  rw [compileWith_of_build toolchain hm]
  unfold loaderWith
  rw [htext, Stage.within_ok]
  simp only [assembleWith, bind_assoc, pure_bind, map_eq_pure_bind]
  -- the effects of the two sides are those of the call, so only its answer is left
  refine bind_congr fun answer => ?_
  cases answer with
  | ok binary => rfl
  | error error => rfl

end Toolchains

/-! ## The built-in toolchain -/

section Builtin

variable {source : String} {options : Options}

/-- The binary of a source is what the built-in toolchain makes of its text. -/
theorem compileToBinary_of_text {m : Module} {text : String} (hm : buildModule source = .ok m)
    (htext : emitText m options = .ok text) : compileToBinary source options =
      Stage.assemble.within (builtinToolchain options.validate text) := by
  unfold compileToBinary
  rw [hm, Stage.within_ok]
  show (Stage.emit.within (emitText m options)).bind _ = _
  rw [htext]
  rfl

/-- Without a text there is no binary, for the same reason. -/
theorem compileToBinary_of_failsBefore {failure : Failure}
    (h : FailsBefore source options failure) :
    compileToBinary source options = .error failure := by
  unfold compileToBinary
  rcases h.stages with hbuild | ⟨m, hm, hemit⟩
  · rw [hbuild]
    rfl
  · rw [hm, Stage.within_ok]
    show (Stage.emit.within (emitText m options)).bind _ = _
    rw [hemit]
    rfl

/-- The loader of a source is made from what the built-in toolchain makes of its text. -/
theorem compileToLoader_of_text {m : Module} {text : String} (hm : buildModule source = .ok m)
    (htext : emitText m options = .ok text) : compileToLoader source options =
      finish m options (builtinToolchain options.validate text) := by
  unfold compileToLoader
  rw [compileWith_of_text _ hm htext]
  rfl

/-- Without a text there is no loader, for the same reason. -/
theorem compileToLoader_of_failsBefore {failure : Failure}
    (h : FailsBefore source options failure) :
    compileToLoader source options = .error failure := by
  unfold compileToLoader
  rw [compileWith_of_failsBefore _ h]
  rfl

/-- A module that was built before gives what its source gives. -/
theorem compileModule_of_build {m : Module} (hm : buildModule source = .ok m) :
    compileModule m options = compileToLoader source options := by
  unfold compileModule compileToLoader
  rw [compileWith_of_build _ hm]

/-- A text is assembled when the module that is read from it has all names resolved, and is valid
where that is asked for. -/
theorem builtinToolchain_eq_ok_iff {validate : Bool} {text : String} {binary : Bytes} :
    builtinToolchain validate text = .ok binary ↔
      ∃ w r, Wat.Module.read? text = some w ∧ w.resolve? = some r ∧
        (validate = true → r.isValid = true) ∧ r.encode = binary := by
  unfold builtinToolchain Wat.assemble
  constructor
  · intro h
    cases hr : (Wat.Module.read? text).bind Wat.Module.resolve? with
    | none =>
      rw [hr] at h
      cases h
    | some r =>
      obtain ⟨w, hw, hresolve⟩ := Option.bind_eq_some_iff.1 hr
      rw [hr] at h
      -- assembled, so all that can still refuse the text is the validation
      by_cases hvalid : (validate && !r.isValid) = true
      · simp [hvalid] at h
      · simp only [hvalid, Bool.false_eq_true, if_false] at h
        cases h
        exact ⟨w, r, hw, hresolve, by simpa using hvalid, rfl⟩
  · rintro ⟨w, r, hw, hr, hvalid, rfl⟩
    rw [hw, Option.bind_some, hr]
    cases validate with
    | false => rfl
    | true => simp [hvalid rfl]

/-- A text that is valid is assembled to the same binary without validation. -/
theorem builtinToolchain_false {text : String} {binary : Bytes}
    (h : builtinToolchain true text = .ok binary) :
    builtinToolchain false text = .ok binary := by
  obtain ⟨w, r, hw, hr, -, hbinary⟩ := builtinToolchain_eq_ok_iff.1 h
  exact builtinToolchain_eq_ok_iff.2 ⟨w, r, hw, hr, nofun, hbinary⟩

/-- **The stages of a binary**: the declarations of the source, the module that they are lowered to,
the module that the assembler reads from its text, and the module with all names resolved. -/
theorem compileToBinary_eq_ok_iff {binary : Bytes} :
    compileToBinary source options = .ok binary ↔
      ∃ m t w r, buildModule source = .ok m ∧ m.lower options.importModule = .ok t ∧
        Wat.Module.read? t.text = some w ∧ w.resolve? = some r ∧
        (options.validate = true → r.isValid = true) ∧ r.encode = binary := by
  constructor
  · intro h
    rcases build_or_failsBefore source options with ⟨m, text, hm, hemit⟩ | ⟨failure, hfails⟩
    · rw [compileToBinary_of_text hm hemit] at h
      obtain ⟨t, ht, rfl⟩ := emitText_eq_ok_iff.1 hemit
      obtain ⟨w, r, hstages⟩ := builtinToolchain_eq_ok_iff.1 (Stage.within_eq_ok h)
      exact ⟨m, t, w, r, hm, ht, hstages⟩
    · cases (compileToBinary_of_failsBefore hfails).symm.trans h
  · rintro ⟨m, t, w, r, hm, ht, hstages⟩
    rw [compileToBinary_of_text hm (emitText_eq_ok_iff.2 ⟨t, ht, rfl⟩),
      builtinToolchain_eq_ok_iff.2 ⟨w, r, hstages⟩, Stage.within_ok]

/-- **Accepted sources** go through all stages. -/
theorem exists_assembly {binary : Bytes} (hvalidate : options.validate = true)
    (h : compileToBinary source options = .ok binary) :
    ∃ a : Assembly source options, a.resolved.encode = binary := by
  obtain ⟨m, t, w, r, hm, ht, hw, hr, hvalid, hbinary⟩ := compileToBinary_eq_ok_iff.1 h
  exact ⟨⟨m, t.text, w, r, hm, emitText_eq_ok_iff.2 ⟨t, ht, rfl⟩, hw, hr, hvalid hvalidate⟩,
    hbinary⟩

end Builtin

/-! ## Recorded calls -/

section Recording

variable {source : String} {options : Options} (answer : String → Except CompileError Bytes)

/-- A source with a text is handed over once. -/
theorem run_recording_ok {text : String} (h : compileToText source options = .ok text) :
    ∃ m, buildModule source = .ok m ∧
      (compileWith (recording answer) source options).run [] =
        (finish m options (answer text), [text]) := by
  rcases build_or_failsBefore source options with ⟨m, text', hm, hemit⟩ | ⟨failure, hfails⟩
  · cases (compileToText_of_text hm hemit).symm.trans h
    rw [compileWith_of_text _ hm hemit]
    exact ⟨m, hm, rfl⟩
  · cases (compileToText_of_failsBefore hfails).symm.trans h

/-- A source without a text is never handed over. -/
theorem run_recording_error {failure : Failure}
    (h : compileToText source options = .error failure) :
    FailsBefore source options failure ∧
      (compileWith (recording answer) source options).run [] = (.error failure, []) := by
  rcases build_or_failsBefore source options with ⟨m, text, hm, hemit⟩ | ⟨failure', hfails⟩
  · cases (compileToText_of_text hm hemit).symm.trans h
  · cases (compileToText_of_failsBefore hfails).symm.trans h
    rw [compileWith_of_failsBefore _ hfails]
    exact ⟨hfails, rfl⟩

/-- Noting the texts does not change what comes out. -/
theorem fst_run_recording (source : String) (options : Options) :
    ((compileWith (recording answer) source options).run []).1 =
      compileWith (fun text => (pure (answer text) : Id _)) source options := by
  rcases build_or_failsBefore source options with ⟨m, text, hm, hemit⟩ | ⟨failure, hfails⟩
  · rw [compileWith_of_text _ hm hemit, compileWith_of_text _ hm hemit]
    rfl
  · rw [compileWith_of_failsBefore _ hfails, compileWith_of_failsBefore _ hfails]
    rfl

end Recording

/-! ## Agreement -/

section Agreement

variable {source : String} {options : Options} {m : Module} {binary : Bytes}

/-- The loader of a source carries the binary of the source. -/
theorem compileToLoader_of_binary (hm : buildModule source = .ok m)
    (h : compileToBinary source options = .ok binary) : compileToLoader source options =
      .ok (Loader.text binary m options.importModule options.format) := by
  rcases build_or_failsBefore source options with ⟨m', text, hm', hemit⟩ | ⟨failure, hfails⟩
  · cases hm.symm.trans hm'
    rw [compileToBinary_of_text hm hemit] at h
    rw [compileToLoader_of_text hm hemit, Stage.within_eq_ok h]
    rfl
  · cases (compileToBinary_of_failsBefore hfails).symm.trans h

/-- Where there is no binary, the loader fails in the same way. -/
theorem compileToLoader_of_failure {failure : Failure}
    (h : compileToBinary source options = .error failure) :
    compileToLoader source options = .error failure := by
  rcases build_or_failsBefore source options with ⟨m, text, hm, hemit⟩ | ⟨failure', hfails⟩
  · rw [compileToBinary_of_text hm hemit] at h
    rw [compileToLoader_of_text hm hemit]
    -- there is a text, so it must be the toolchain that failed
    cases hassemble : builtinToolchain options.validate text with
    | ok binary =>
      rw [hassemble] at h
      cases h
    | error error =>
      rw [hassemble] at h
      cases h
      rfl
  · cases (compileToBinary_of_failsBefore hfails).symm.trans h
    exact compileToLoader_of_failsBefore hfails

theorem exists_module_of_binary (h : compileToBinary source options = .ok binary) :
    ∃ m, buildModule source = .ok m := by
  obtain ⟨m, -, -, -, hm, -⟩ := compileToBinary_eq_ok_iff.1 h
  exact ⟨m, hm⟩

/-- A source has a loader exactly when it has a binary. -/
theorem exists_loader_iff : (∃ loader, compileToLoader source options = .ok loader) ↔
    ∃ binary, compileToBinary source options = .ok binary := by
  cases hbinary : compileToBinary source options with
  | ok binary =>
    obtain ⟨m, hm⟩ := exists_module_of_binary hbinary
    exact iff_of_true ⟨_, compileToLoader_of_binary hm hbinary⟩ ⟨binary, rfl⟩
  | error failure =>
    rw [compileToLoader_of_failure hbinary]
    exact iff_of_false nofun nofun

/-- Whether a module is lowered to one that has all names resolved and is valid. -/
def Module.assembles (m : Module) (importModule : String) : Bool :=
  ((m.lower importModule).toOption.bind Wat.Module.resolve?).any Wasm.Module.isValid

/-- **Accepted sources, without their text**: a source has a binary exactly when its module
assembles, if the name of the module that host functions are imported from is closed. -/
theorem exists_binary_iff_assembles (hm : buildModule source = .ok m)
    (hvalidate : options.validate = true)
    (hclosed : m.hosts ≠ [] → SExpr.IsClosedBody options.importModule.toList) :
    (∃ binary, compileToBinary source options = .ok binary) ↔
      m.assembles options.importModule = true := by
  have hnamed := (wellFormed_of_buildModule hm).wellNamed
  rw [Module.assembles, Option.any_eq_true]
  constructor
  · rintro ⟨binary, h⟩
    obtain ⟨m', t, w, r, hm', ht, hw, hr, hvalid, -⟩ := compileToBinary_eq_ok_iff.1 h
    cases hm.symm.trans hm'
    -- the assembler reads what was lowered
    cases (Module.read?_text_lower hnamed hclosed ht).symm.trans hw
    exact ⟨r, Option.bind_eq_some_iff.2 ⟨t, toOption_eq_some_iff.2 ht, hr⟩, hvalid hvalidate⟩
  · rintro ⟨r, hstages, hvalid⟩
    obtain ⟨t, ht, hr⟩ := Option.bind_eq_some_iff.1 hstages
    rw [toOption_eq_some_iff] at ht
    have hread := Module.read?_text_lower hnamed hclosed ht
    exact ⟨_, compileToBinary_eq_ok_iff.2 ⟨m, t, t, r, hm, ht, hread, hr, fun _ => hvalid, rfl⟩⟩

/-- A source whose module assembles has a loader. -/
theorem exists_loader_of_assembles (hm : buildModule source = .ok m)
    (hvalidate : options.validate = true)
    (hclosed : SExpr.IsClosedBody options.importModule.toList)
    (h : m.assembles options.importModule = true) :
    ∃ loader, compileToLoader source options = .ok loader :=
  exists_loader_iff.2 ((exists_binary_iff_assembles hm hvalidate fun _ => hclosed).2 h)

/-- A loader is made for the binary of its source. -/
theorem exists_binary_of_loader (hm : buildModule source = .ok m) {loader : String}
    (h : compileToLoader source options = .ok loader) :
    ∃ binary, compileToBinary source options = .ok binary ∧
      loader = Loader.text binary m options.importModule options.format := by
  cases hbinary : compileToBinary source options with
  | ok binary =>
    cases (compileToLoader_of_binary hm hbinary).symm.trans h
    exact ⟨binary, rfl, rfl⟩
  | error failure => cases (compileToLoader_of_failure hbinary).symm.trans h

/-- The format of the loader does not matter to the binary. -/
theorem compileToBinary_format (source : String) (options : Options) (format : LoaderFormat) :
    compileToBinary source { options with format } = compileToBinary source options := by
  rcases build_or_failsBefore source options with ⟨m, text, hm, hemit⟩ | ⟨failure, hfails⟩
  · have hemit' : emitText m { options with format } = .ok text := emitText_congr rfl ▸ hemit
    rw [compileToBinary_of_text hm hemit, compileToBinary_of_text hm hemit']
  · have hfails' : FailsBefore source { options with format } failure := hfails.congr rfl
    rw [compileToBinary_of_failsBefore hfails, compileToBinary_of_failsBefore hfails']

/-- Validation only refuses: a binary that passes is the one that is made without. -/
theorem compileToBinary_unvalidated
    (h : compileToBinary source { options with validate := true } = .ok binary) :
    compileToBinary source { options with validate := false } = .ok binary := by
  rcases build_or_failsBefore source { options with validate := true } with
    ⟨m, text, hm, hemit⟩ | ⟨failure, hfails⟩
  · have hemit' : emitText m { options with validate := false } = .ok text :=
      emitText_congr rfl ▸ hemit
    rw [compileToBinary_of_text hm hemit] at h
    rw [compileToBinary_of_text hm hemit', builtinToolchain_false (Stage.within_eq_ok h),
      Stage.within_ok]
  · cases (compileToBinary_of_failsBefore hfails).symm.trans h

/-- Validation does not change the loader of a source that passes it. -/
theorem compileToLoader_unvalidated {loader : String}
    (h : compileToLoader source { options with validate := true } = .ok loader) :
    compileToLoader source { options with validate := false } = .ok loader := by
  cases hbinary : compileToBinary source { options with validate := true } with
  | ok binary =>
    obtain ⟨m, hm⟩ := exists_module_of_binary hbinary
    rw [compileToLoader_of_binary hm hbinary] at h
    rw [compileToLoader_of_binary hm (compileToBinary_unvalidated hbinary)]
    exact h
  | error failure => cases (compileToLoader_of_failure hbinary).symm.trans h

end Agreement

/-- **All entry points agree.** With any toolchain there is one call, on the text that the source
compiles to, and none if there is no text; what comes out is the loader of the binary that the call
gave, or the failure of the first stage that failed. With the built-in toolchain, the loader is made
from the binary of the source and fails as the binary does, a module that was built before gives the
same, the format of the loader does not matter to the binary, and neither does validation where it
passes. -/
theorem entryPoints_agree (source : String) (options : Options) :
    (∀ answer : String → Except CompileError Bytes,
      (∀ text, compileToText source options = .ok text → ∃ m, buildModule source = .ok m ∧
        (compileWith (recording answer) source options).run [] =
          (finish m options (answer text), [text])) ∧
      (∀ failure, compileToText source options = .error failure →
        FailsBefore source options failure ∧
          (compileWith (recording answer) source options).run [] = (.error failure, []))) ∧
    (∀ answer : String → Except CompileError Bytes,
      ((compileWith (recording answer) source options).run []).1 =
        compileWith (fun text => (pure (answer text) : Id _)) source options) ∧
    (∀ binary, compileToBinary source options = .ok binary → ∃ m, buildModule source = .ok m ∧
      compileToLoader source options =
        .ok (Loader.text binary m options.importModule options.format)) ∧
    (∀ failure, compileToBinary source options = .error failure →
      compileToLoader source options = .error failure) ∧
    (∀ m, buildModule source = .ok m →
      compileModule m options = compileToLoader source options) ∧
    (∀ format, compileToBinary source { options with format } = compileToBinary source options) ∧
    (∀ binary, compileToBinary source { options with validate := true } = .ok binary →
      compileToBinary source { options with validate := false } = .ok binary) ∧
    (∀ text, compileToLoader source { options with validate := true } = .ok text →
      compileToLoader source { options with validate := false } = .ok text) := by
  refine ⟨fun answer => ⟨fun _ => run_recording_ok answer, fun _ => run_recording_error answer⟩,
    fun answer => fst_run_recording answer source options, fun binary h => ?_,
    fun _ => compileToLoader_of_failure, fun _ => compileModule_of_build,
    compileToBinary_format source options, fun _ => compileToBinary_unvalidated,
    fun _ => compileToLoader_unvalidated⟩
  obtain ⟨m, hm⟩ := exists_module_of_binary h
  exact ⟨m, hm, compileToLoader_of_binary hm h⟩

end Kelp
