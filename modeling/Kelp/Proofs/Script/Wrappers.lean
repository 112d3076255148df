import Kelp.Proofs.Emission
import Kelp.Proofs.Script.Exports

/-!
# Wrappers of loaders

The functions that a loader has for the host's functions, read from its statements.

- `Loader.wrappers?` reads the object that the constant `importObject` holds. The key under which
  the functions stand in it is skipped, so that they are found whatever the name of the module is.
- `statements?_text`: a loader is read as the statements that it was made from. None of them has a
  line break in it, since keys are written with escapes.
- `wrappers?_text`: a loader has one wrapper for each host function, in order.
-/

namespace Kelp

open Reader Script

/-! ## Reading wrappers -/

namespace Script

/-- Skips a string literal up to its closing quote, which is one without a backslash before it. -/
def literalEnd : Reader Char Unit
  | [] => none
  | '"' :: rest => some ((), rest)
  | '\\' :: _ :: rest => literalEnd rest
  | _ :: rest => literalEnd rest

/-- Skips a property key. -/
def anyKey : Reader Char Unit
  | '"' :: rest => literalEnd rest
  | text => (word isIdentChar text).map fun p => ((), p.2)

/-- The functions of an object with one property, which is an object of functions. -/
def wrappers : Reader Char (List (String × Forwarder)) := do
  fixed "\x7b "
  anyKey
  fixed ": \x7b"
  let functions ← fun text => properties text.length text
  fixed " \x7d"
  return functions

/-- The value of the constant that is declared under a name. -/
def valueOf? (name : String) : List Statement → Option String
  | [] => none
  | .constant name' value :: rest => if name' = name then some value else valueOf? name rest
  | _ :: rest => valueOf? name rest

end Script

/-- The wrappers of a loader, each with the name that it stands under. -/
def Loader.wrappers? (loader : String) : Option (List (String × Forwarder)) := do
  let value ← valueOf? "importObject" (← statements? loader)
  exactly Script.wrappers value.toList

/-! ## Skipping keys -/

namespace Script

/-- A number has hexadecimal digits only. -/
theorem isSome_hexDigit?_of_hexValue {ds : List Char} {value n : Nat}
    (h : hexValue value ds = some n) {d : Char} (hd : d ∈ ds) :
    ∃ v, Wat.StringBody.hexDigit? d = some v := by
  induction ds generalizing value with
  | nil => cases hd
  | cons d' ds ih =>
    obtain ⟨v, hv, h⟩ := Option.bind_eq_some_iff.1 h
    rcases List.mem_cons.1 hd with rfl | hd
    · exact ⟨v, hv⟩
    · exact ih h hd

/-- The characters of a number in braces mean nothing to a literal, and are on its line. -/
theorem ne_of_mem_numericEscape_tail {n : Nat} {d : Char}
    (hd : d ∈ ['{'] ++ Nat.toDigits 16 n ++ ['}']) : d ≠ '"' ∧ d ≠ '\\' ∧ d ≠ '\n' := by
  simp only [List.mem_append, List.mem_singleton] at hd
  rcases hd with (rfl | hd) | rfl
  · decide
  · obtain ⟨v, hv⟩ := isSome_hexDigit?_of_hexValue (hexValue_toDigits n) hd
    exact ⟨Wat.StringBody.ne_of_hexDigit? hv (by decide),
      Wat.StringBody.ne_of_hexDigit? hv (by decide), Wat.StringBody.ne_of_hexDigit? hv (by decide)⟩
  · decide

/-- Characters without an escape by a letter mean nothing to a literal either. -/
theorem ne_of_notMem_letterEscapes {c : Char} (h : ∀ x, (c, x) ∉ letterEscapes) :
    c ≠ '"' ∧ c ≠ '\\' ∧ c ≠ '\n' := by
  refine ⟨?_, ?_, ?_⟩
  · rintro rfl
    exact h '"' (by decide)
  · rintro rfl
    exact h '\\' (by decide)
  · rintro rfl
    exact h 'n' (by decide)

/-- A character that means nothing to a literal is skipped. -/
theorem literalEnd_cons {c : Char} (h : c ≠ '"' ∧ c ≠ '\\') (rest : List Char) :
    literalEnd (c :: rest) = literalEnd rest := by
  rw [literalEnd]
  · exact h.1
  · exact fun _ _ hc => absurd hc h.2

theorem literalEnd_append {cs : List Char} (h : ∀ c ∈ cs, c ≠ '"' ∧ c ≠ '\\') (rest : List Char) :
    literalEnd (cs ++ rest) = literalEnd rest := by
  induction cs with
  | nil => rfl
  | cons c cs ih =>
    rw [List.forall_mem_cons] at h
    rw [List.cons_append, literalEnd_cons h.1, ih h.2]

/-- No character ends a literal by its escape. -/
theorem literalEnd_escape (c : Char) (rest : List Char) :
    literalEnd (escape c ++ rest) = literalEnd rest := by
  rcases escape_cases c with ⟨-, h⟩ | ⟨x, -, h⟩ | ⟨-, -, h⟩ | ⟨-, hletter, h⟩
  · rw [h]
    rfl
  · rw [h]
    rfl
  · have hshape : numericEscape c ++ rest =
        '\\' :: 'u' :: (['{'] ++ Nat.toDigits 16 c.toNat ++ ['}'] ++ rest) := by
      simp [numericEscape]
    rw [h, hshape, literalEnd]
    refine literalEnd_append (fun d hd => ?_) rest
    exact ⟨(ne_of_mem_numericEscape_tail hd).1, (ne_of_mem_numericEscape_tail hd).2.1⟩
  · have hne := ne_of_notMem_letterEscapes hletter
    rw [h, List.singleton_append, literalEnd_cons ⟨hne.1, hne.2.1⟩]

/-- A literal ends where it should, whatever name it stands for. -/
theorem literalEnd_flatMap_escape (name rest : List Char) :
    literalEnd (name.flatMap escape ++ '"' :: rest) = some ((), rest) := by
  induction name with
  | nil => rfl
  | cons c name ih => rw [List.flatMap_cons, List.append_assoc, literalEnd_escape, ih]

/-- Every key is skipped, whatever its name is. -/
theorem anyKey_propertyKey (name : String) {rest : List Char}
    (hrest : ∀ c ∈ rest.head?, isIdentChar c = false) :
    anyKey ((propertyKey name).toList ++ rest) = some ((), rest) := by
  by_cases hname : isIdent name.toList = true
  · have hchars := forall_isIdentChar_of_isIdent hname
    have hne : name.toList ≠ [] := by
      intro hnil
      rw [hnil] at hname
      cases hname
    rw [propertyKey, if_pos hname, anyKey]
    · show (word isIdentChar (name.toList ++ rest)).map _ = _
      rw [word_append hne hchars hrest]
      rfl
    · -- an identifier does not start with a quote
      intro rest' heq
      have hmem : '"' ∈ name.toList := by
        cases hcs : name.toList with
        | nil => exact absurd hcs hne
        | cons c cs =>
          rw [hcs, List.cons_append, List.cons.injEq] at heq
          rw [← heq.1]
          exact List.mem_cons_self
      exact absurd (hchars _ hmem) (by decide)
  · rw [toList_propertyKey_append hname, anyKey, literalEnd_flatMap_escape]

/-- The functions are read from the object, whatever the key in front of them is. -/
theorem reads_wrappers {hosts : List HostFunction} (hhosts : ∀ h ∈ hosts, h.WellFormed)
    (importModule : String) :
    Reads wrappers (Kelp.importObject hosts importModule).toList (forwarders hosts) := by
  intro rest
  obtain ⟨spaces, hspaces, htext⟩ := toList_importObject hosts importModule
  rw [htext, List.append_assoc]
  refine ((reads_fixed "\x7b ").bind_apply _).trans ?_
  rw [List.append_assoc]
  refine (bind_of_eq (anyKey_propertyKey importModule (by simp [isIdentChar]))).trans ?_
  have hend : Reads (do
      let functions ← fun text => properties text.length text
      fixed " \x7d"
      return functions) (propertiesText hosts ++ (spaces ++ ['}']) ++ " \x7d".toList)
      (forwarders hosts) :=
    (reads_allProperties hhosts hspaces).bind ((reads_fixed " \x7d").finish (reads_pure _))
  exact ((reads_fixed ": \x7b").bind hend) rest

/-! ## Lines of wrappers -/

/-- No character is written with a line break. -/
theorem newline_notMem_escape (c : Char) : '\n' ∉ escape c := by
  rcases escape_cases c with ⟨-, h⟩ | ⟨x, hx, h⟩ | ⟨-, -, h⟩ | ⟨-, hletter, h⟩
  · rw [h]
    decide
  · have hall : ∀ p ∈ letterEscapes, '\n' ∉ ['\\', p.2] := by decide
    rw [h]
    exact hall _ hx
  · have hshape : numericEscape c = ['\\', 'u'] ++ (['{'] ++ Nat.toDigits 16 c.toNat ++ ['}']) := by
      simp [numericEscape]
    rw [h, hshape, List.mem_append, not_or]
    exact ⟨by decide, fun hd => (ne_of_mem_numericEscape_tail hd).2.2 rfl⟩
  · rw [h, List.mem_singleton]
    exact (ne_of_notMem_letterEscapes hletter).2.2.symm

theorem newline_notMem_propertyKey (name : String) : '\n' ∉ (propertyKey name).toList := by
  rw [propertyKey]
  split
  next hname => exact fun hc => absurd (forall_isIdentChar_of_isIdent hname _ hc) (by decide)
  next =>
    simp only [String.toList_ofList, stringLiteral, List.mem_append, List.mem_singleton,
      List.mem_flatMap, not_or, not_exists, not_and]
    exact ⟨⟨by decide, fun c _ => newline_notMem_escape c⟩, by decide⟩

theorem newline_notMem_intercalate {sep : String} (hsep : '\n' ∉ sep.toList) {xs : List String}
    (h : ∀ x ∈ xs, '\n' ∉ x.toList) : '\n' ∉ (sep.intercalate xs).toList := by
  cases xs with
  | nil => simp
  | cons x xs =>
    rw [List.forall_mem_cons] at h
    simp only [String.toList_intercalate, List.map_cons, intercalate_cons, List.mem_append,
      List.mem_flatMap, List.mem_map, not_or, not_exists, not_and]
    refine ⟨h.1, ?_⟩
    rintro _ ⟨y, hy, rfl⟩
    exact ⟨hsep, h.2 y hy⟩

theorem newline_notMem_wrapper {h : HostFunction} (hh : h.WellFormed) :
    '\n' ∉ h.wrapper.toList := by
  -- what varies are the key, the parameters and the path
  have hparams : '\n' ∉ (", ".intercalate h.forwarder.params).toList := by
    refine newline_notMem_intercalate (by decide) (List.forall_mem_map.2 fun b hb => ?_)
    exact (isBinding_binding (hh.params b hb).name).newline_notMem
  have hpath : '\n' ∉ h.path.toList := fun hc =>
    absurd ((isPathChar_of_isHostPath hh.path).2 _ hc) (by decide)
  rw [wrapper_eq]
  simp [-String.toList_intercalate, forwarderText, paramsText, newline_notMem_propertyKey, hparams,
    hpath]

/-- The import object stands on one line. -/
theorem newline_notMem_importObject {hosts : List HostFunction}
    (hhosts : ∀ h ∈ hosts, h.WellFormed) (importModule : String) :
    '\n' ∉ (Kelp.importObject hosts importModule).toList := by
  have hwrappers : '\n' ∉ (" ".intercalate (hosts.map HostFunction.wrapper)).toList :=
    newline_notMem_intercalate (by decide)
      (List.forall_mem_map.2 fun h hh => newline_notMem_wrapper (hhosts h hh))
  rw [Kelp.importObject]
  split
  · simp [newline_notMem_propertyKey]
  · simp [-String.toList_intercalate, newline_notMem_propertyKey, hwrappers]

end Script

/-! ## Statements of loaders -/

namespace Loader

variable (binary : Bytes) {m : Module} (hm : m.WellFormed) (importModule : String)
  (format : LoaderFormat)

include hm

theorem isName_of_mem_publicFunctions {f : FunctionDef Int} (hf : f ∈ m.publicFunctions) :
    IsName f.name :=
  (hm.functions f (List.mem_of_mem_filter hf)).name

/-- Every statement of a loader binds identifiers and stands on one line. -/
theorem readable_of_mem_statements {s : Statement}
    (hs : s ∈ statements binary m importModule format) : s.Readable := by
  have hobject := newline_notMem_importObject hm.hosts importModule
  rw [statements, List.mem_append] at hs
  rcases hs with hs | hs
  · -- only the binary and the object of wrappers are not fixed texts
    simp only [instantiate, List.mem_cons, List.not_mem_nil, or_false] at hs
    rcases hs with rfl | rfl | rfl | rfl | rfl
    · exact ⟨⟨by decide, List.all_eq_true.mp rfl⟩, newline_notMem_binary binary⟩
    · exact ⟨⟨by decide, List.all_eq_true.mp rfl⟩, by decide⟩
    · exact ⟨⟨by decide, List.all_eq_true.mp rfl⟩, by decide⟩
    · exact ⟨⟨by decide, List.all_eq_true.mp rfl⟩, hobject⟩
    · exact readable_instanceStatement
  · cases format with
    | commonJs =>
      rw [republish, List.mem_singleton] at hs
      subst hs
      show '\n' ∉ exports.toList
      simp [exports]
    | esModule =>
      exact (readable_of_mem_republish (fun f hf => isName_of_mem_publicFunctions hm hf) hs).1

/-- **Statements**: a loader is read as the statements that it was made from. -/
theorem statements?_text : statements? (text binary m importModule format) =
    some (statements binary m importModule format) :=
  statements?_scriptText fun _ hs => readable_of_mem_statements binary hm importModule format hs

/-- **Wrappers**: a loader has one for each host function, in order. -/
theorem wrappers?_text : wrappers? (text binary m importModule format) =
    some (forwarders m.hosts) := by
  have hvalue : valueOf? "importObject" (statements binary m importModule format) =
      some (Kelp.importObject m.hosts importModule) := by
    simp [statements, instantiate, valueOf?]
  simp only [wrappers?, statements?_text binary hm, Option.bind_eq_bind, Option.bind_some, hvalue]
  exact exactly_of_reads (reads_wrappers hm.hosts importModule)

end Loader

end Kelp
