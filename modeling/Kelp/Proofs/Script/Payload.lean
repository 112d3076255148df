import Kelp.Proofs.EntryPoints
import Kelp.Proofs.Script.Loading

/-!
# The module inside a loader

A loader opens with a quoted text, and that text alone decides which binary the loader carries. No
character of it is a quote, so it ends where the next quote stands, whatever the rest of the loader
says.

- `Loader.Embeds` says which text a loader opens with, and `Embeds.unique` that there is one only.
- `embeds_text`: the text is the Base64 form of the binary.
- `loader_recovers_binary` puts this together: the binary is what the text stands for, for every
  loader that a source compiles to as well, and loaders of different binaries differ.
-/

namespace Kelp

open Script

namespace Loader

/-- What a loader says before its binary. -/
def opening : String := "const wasmBase64 = \""

/-- The loader opens with the given text between quotes. -/
def Embeds (loader : String) (text : List Char) : Prop :=
  '"' ∉ text ∧ ∃ rest, loader.toList = opening.toList ++ (text ++ '"' :: rest)

/-- The text has digits of Base64 only, and equals signs behind them. -/
def IsPadded (text : List Char) : Prop :=
  ∃ digits padding, text = digits ++ List.replicate padding '=' ∧
    ∀ c ∈ digits, c.isAlphanum = true ∨ c = '+' ∨ c = '/'

/-- Only such texts stand for bytes. -/
theorem isPadded_of_represents {text : List Char} {bytes : Bytes}
    (h : Base64.Represents text bytes) : IsPadded text := by
  obtain ⟨numbers, padding, htext, -⟩ := h
  exact ⟨_, padding, htext, List.forall_mem_map.2 fun n _ => Base64.symbol_isAlphanum n⟩

/-- The text ends at the first quote, so there is no choice. -/
theorem Embeds.unique {loader : String} {text text' : List Char} (h : Embeds loader text)
    (h' : Embeds loader text') : text = text' := by
  -- the text is what comes before the first quote
  have htaken : ∀ {text rest : List Char}, '"' ∉ text →
      (text ++ '"' :: rest).takeWhile (· ≠ '"') = text := by
    intro text rest hquote
    rw [List.takeWhile_append_of_pos fun c hc => by simpa using ne_of_mem_of_not_mem hc hquote]
    simp
  obtain ⟨hquote, rest, hloader⟩ := h
  obtain ⟨hquote', rest', hloader'⟩ := h'
  rw [hloader, List.append_cancel_left_eq] at hloader'
  rw [← htaken hquote, hloader', htaken hquote']

section Text

variable (binary : Bytes) (m : Module) (importModule : String) (format : LoaderFormat)

/-- The Base64 form of the binary has no quote in it, so it ends where the loader says. -/
theorem embeds_text : Embeds (text binary m importModule format) (Base64.encode binary) := by
  refine ⟨fun h => (Base64.ne_of_mem_encode h).1 rfl, ?_⟩
  have hopening : opening.toList = "const ".toList ++ ("wasmBase64".toList ++
      (" = ".toList ++ "\"".toList)) := rfl
  refine ⟨';' :: '\n' :: (scriptText ((instantiate binary m importModule).tail ++
    republish m format)).toList, ?_⟩
  rw [text, statements, instantiate, List.cons_append, toList_scriptText_constant,
    toList_declaration, hopening]
  simp

end Text

end Loader

open Loader

/-- The loader of a source embeds the Base64 form of its binary. -/
theorem embeds_compileToLoader {source : String} {options : Options} {loader : String}
    (h : compileToLoader source options = .ok loader) :
    ∃ binary, compileToBinary source options = .ok binary ∧
      Embeds loader (Base64.encode binary) := by
  rcases build_or_failsBefore source options with ⟨m, -, hm, -⟩ | ⟨failure, hfails⟩
  · obtain ⟨binary, hbinary, rfl⟩ := exists_binary_of_loader hm h
    exact ⟨binary, hbinary, embeds_text ..⟩
  · cases (compileToLoader_of_failsBefore hfails).symm.trans h

/-- **The module is recoverable from its loader.** Every loader opens with a quoted text of Base64
digits that stands for its binary and for no other byte string. In the loader of a source, it stands
for the binary of that source. So loaders of different binaries differ, whatever else they are made
for. -/
theorem loader_recovers_binary :
    (∀ (binary : Bytes) (m : Module) (importModule : String) (format : LoaderFormat),
      ∃ digits, Embeds (text binary m importModule format) digits ∧ IsPadded digits ∧
        ∀ bytes, Base64.Represents digits bytes ↔ bytes = binary) ∧
    (∀ (source : String) (options : Options) (loader : String),
      compileToLoader source options = .ok loader →
        ∃ digits, Embeds loader digits ∧
          ∀ bytes, Base64.Represents digits bytes ↔
            compileToBinary source options = .ok bytes) ∧
    (∀ (binary binary' : Bytes) (m m' : Module) (importModule importModule' : String)
      (format format' : LoaderFormat),
      text binary m importModule format = text binary' m' importModule' format' →
        binary = binary') := by
  have hdecodes : ∀ binary bytes, Base64.Represents (Base64.encode binary) bytes ↔
      bytes = binary := fun binary bytes =>
    ⟨fun h => h.unique (Base64.represents_encode binary),
      fun h => h ▸ Base64.represents_encode bytes⟩
  refine ⟨fun binary m importModule format => ⟨Base64.encode binary, embeds_text .., ?_,
    hdecodes binary⟩, ?_, ?_⟩
  · exact isPadded_of_represents (Base64.represents_encode binary)
  · intro source options loader hloader
    obtain ⟨binary, hbinary, hembeds⟩ := embeds_compileToLoader hloader
    refine ⟨Base64.encode binary, hembeds, fun bytes => ?_⟩
    rw [hdecodes, hbinary, Except.ok.injEq, eq_comm]
  · intro binary binary' m m' importModule importModule' format format' htext
    -- equal loaders open with the same digits, which stand for one binary only
    have hdigits := (embeds_text binary m importModule format).unique
      (htext ▸ embeds_text binary' m' importModule' format')
    have hbinary := Base64.represents_encode binary
    rw [hdigits] at hbinary
    exact hbinary.unique (Base64.represents_encode binary')

/-- A source with a host function. -/
def hostedSource : String := "import log as fn f(); pub fn g() \x7b f(); \x7d"

/-- The key of the import object stands between quotes too. -/
def quotedOptions : Options := { importModule := "a-b" }

theorem hostedSource_recovered : ∃ loader digits binary,
    compileToLoader hostedSource quotedOptions = .ok loader ∧ Embeds loader digits ∧
    Base64.Represents digits binary ∧
    compileToBinary hostedSource quotedOptions = .ok binary := by
  have hmodule : (buildModule hostedSource).toOption.map
      (·.assembles quotedOptions.importModule) = some true := by decide +kernel
  obtain ⟨m, hm, hassembles⟩ := map_toOption_eq_some_iff.1 hmodule
  obtain ⟨loader, hloader⟩ :=
    exists_loader_of_assembles hm rfl ⟨by decide, by decide⟩ hassembles
  obtain ⟨binary, hbinary, -⟩ := embeds_compileToLoader hloader
  obtain ⟨digits, hembeds, hdecodes⟩ := loader_recovers_binary.2.1 _ _ _ hloader
  exact ⟨loader, digits, binary, hloader, hembeds, (hdecodes binary).2 hbinary, hbinary⟩

end Kelp
