import Kelp.Proofs.Except
import Kelp.Proofs.Script.Bindings
import Mathlib.Data.List.TakeWhile
import Mathlib.Tactic.MkIffOfInductiveProp

/-!
# Scopes

What the names in a forwarding function stand for, by the rules of lexical scoping.

- `Surroundings` is what a script finds around a function: values of names, properties of values,
  and calls. All of these are in a monad, so that they may have effects or fail.
- `Forwarder.invoke` calls a function with values. Its parameters hide names around it, and so do
  the two names that every function has of its own.
- `Forwarder.Forwards`: the function is legal, and to call it is to call what a path stands for
  around it, with the same values.
- `HostFunction.forwards_iff`: the function for a host function forwards exactly when its parameters
  have different names, none of which is the start of the path, and the path starts with a name that
  stands for the same thing in every function.
-/

namespace Kelp

namespace Script

/-! ## Words -/

/-- The words that are never names. -/
def keywords : List String :=
  ["break", "case", "catch", "class", "const", "continue", "debugger", "default", "delete", "do",
    "else", "enum", "export", "extends", "finally", "for", "function", "if", "import", "in",
    "instanceof", "new", "return", "super", "switch", "throw", "try", "typeof", "var", "void",
    "while", "with"]

/-- The words that are names in other scripts than ES modules. -/
def strictWords : List String :=
  ["await", "implements", "interface", "let", "package", "private", "protected", "public",
    "static", "yield"]

/-- The words that every function has a meaning of its own for. -/
def ownWords : List String := ["arguments", "this"]

/-- The words that are not used for parameters, with those that stand for a fixed value and the one
that runs code in the scope of its caller. -/
def unbindable : List String :=
  keywords ++ strictWords ++ ownWords ++ ["false", "null", "true"] ++ ["eval"]

/-- Scripts reserve all of these words. -/
theorem isReserved_of_mem_unbindable : ∀ x ∈ unbindable, isReserved x = true := by decide

/-- The word stands for a value in scripts of the given format. -/
def IsReference (format : LoaderFormat) (x : String) : Prop :=
  x ∉ keywords ∧ (format = .esModule → x ∉ strictWords)

instance (format : LoaderFormat) (x : String) : Decidable (IsReference format x) :=
  inferInstanceAs (Decidable (_ ∧ _))

/-- Any word that may be a parameter may also be used as a value. -/
theorem isReference_of_notMem_unbindable {x : String} (h : x ∉ unbindable)
    (format : LoaderFormat) : IsReference format x := by
  simp only [unbindable, List.mem_append, not_or] at h
  exact ⟨h.1.1.1.1, fun _ => h.1.1.1.2⟩

/-- The name that a path starts with. -/
def root (path : String) : String := String.ofList (path.toList.takeWhile (· ≠ '.'))

/-- The names behind the first one in a path. -/
def fields (path : String) : List String := (path.toList.splitOn '.').tail.map String.ofList

/-! ## Calls -/

/-- What a script finds around a function. A function is called with or without a receiver. -/
structure Surroundings (μ : Type → Type) (V : Type) where
  value : String → μ V
  property : V → String → μ V
  call : (receiver : Option V) → (function : V) → (arguments : List V) → μ V

section Calls

variable {μ : Type → Type} [Monad μ] {V : Type} (s : Surroundings μ V)

/-- What a path stands for where names have the given values, and the object that has it as its
last property. -/
def Surroundings.find (value : String → μ V) (path : String) : μ (Option V × V) := do
  let start ← value (root path)
  (fields path).foldlM (fun p x => return (some p.2, ← s.property p.2 x)) (none, start)

/-- Calls what a path stands for. -/
def Surroundings.apply (path : String) (values : List V) : μ V := do
  let (receiver, f) ← s.find s.value path
  s.call receiver f values

end Calls

end Script

open Script

namespace Forwarder

section Calls

variable {μ : Type → Type} [Monad μ] {V : Type} (f : Forwarder) (s : Surroundings μ V)
  (own : String → V) (values : List V)

/-- What a name stands for inside of a function that is called with the given values. The last one
of several parameters with the same name counts. -/
def value (x : String) : μ V :=
  match (f.params.zip values).reverse.lookup x with
  | some v => return v
  | none => if x ∈ ownWords then return own x else s.value x

/-- Calls a function with values, one for each parameter. -/
def invoke : μ V := do
  let (receiver, g) ← s.find (f.value s own values) f.callee
  let arguments ← f.arguments.mapM (f.value s own values)
  s.call receiver g arguments

end Calls

/-- The function is legal in scripts of the given format. A path that starts with a keyword is not.
Of these paths, `new.target` could be written inside of a function, but it is no expression outside
of functions, so that there is nothing there to forward to. -/
structure Legal (format : LoaderFormat) (f : Forwarder) : Prop where
  params : ∀ x ∈ f.params, x ∉ unbindable
  distinct : format = .esModule → f.params.Nodup
  callee : IsReference format (root f.callee)
  arguments : ∀ x ∈ f.arguments, IsReference format x

/-- To call the function is to call what the path stands for around it, with the same values in the
same order. The bare name `eval` in front of arguments makes no such call: by its form it runs code
in the scope of the function, where that code sees the parameters. The form counts, so this is
excluded for functions without parameters too, in which there is nothing to see. -/
structure Forwards (format : LoaderFormat) (path : String) (f : Forwarder) : Prop where
  legal : f.Legal format
  callee : f.callee ≠ "eval"
  invoke_eq : ∀ (μ : Type → Type) [Monad μ] [LawfulMonad μ] (V : Type) (s : Surroundings μ V)
    (own : String → V) (values : List V), values.length = f.params.length →
      f.invoke s own values = s.apply path values

/-! ## Functions that forward -/

section Forward

variable {μ : Type → Type} [Monad μ] {V : Type} {f : Forwarder} (s : Surroundings μ V)
  (own : String → V)

/-- A name that is no parameter stands for the same thing inside and outside. -/
theorem value_of_notMem {x : String} (hx : x ∉ f.params) (hown : x ∉ ownWords)
    (values : List V) : f.value s own values x = s.value x := by
  have hnone : (f.params.zip values).reverse.lookup x = none := by
    rw [List.lookup_eq_none_iff]
    rintro ⟨y, v⟩ hp
    rw [List.mem_reverse] at hp
    rw [bne_iff_ne]
    rintro rfl
    exact hx (List.of_mem_zip hp).1
  rw [value, hnone]
  exact if_neg hown

variable {values : List V} (hlength : values.length = f.params.length) (hnodup : f.params.Nodup)

include hlength hnodup

/-- A parameter stands for its own value. -/
theorem value_of_mem_zip {x : String} {v : V} (h : (x, v) ∈ f.params.zip values) :
    f.value s own values x = pure v := by
  have hkeys : ((f.params.zip values).reverse.map Prod.fst).Nodup := by
    rwa [List.map_reverse, List.nodup_reverse, List.map_fst_zip hlength.ge]
  rw [value, lookup_eq_some_of_mem hkeys (List.mem_reverse.2 h)]

/-- So all parameters together stand for the values. -/
theorem mapM_value [LawfulMonad μ] : f.params.mapM (f.value s own values) = pure values := by
  refine mapM_eq_pure (List.forall₂_iff_zip.2 ⟨hlength.symm, fun h => ?_⟩)
  exact value_of_mem_zip s own hlength hnodup h

/-- A function forwards if its parameters are distinct and none of them hides the start of the path.
-/
theorem invoke_eq_apply [LawfulMonad μ] (harguments : f.arguments = f.params)
    (hroot : root f.callee ∉ f.params) (hown : root f.callee ∉ ownWords) :
    f.invoke s own values = s.apply f.callee values := by
  -- only the start of the path is looked up by name
  have hfind : s.find (f.value s own values) f.callee = s.find s.value f.callee := by
    rw [Surroundings.find, value_of_notMem s own hroot hown]
    rfl
  simp only [invoke, Surroundings.apply, hfind, harguments, mapM_value s own hlength hnodup,
    pure_bind]

end Forward

/-! ## Functions that do not forward

Surroundings in which every name stands for zero, and a call fails with what was called and what it
was called with. Where the parameters have other values, the failure shows what the names in the
function stood for. -/

/-- Surroundings in which calls are seen. -/
def probe : Surroundings (Except (List Nat)) Nat where
  value _ := .ok 0
  property v _ := .ok v
  call _ f values := .error (f :: values)

/-- Here a path stands for what its start stands for. -/
theorem find_probe {value : String → Except (List Nat) Nat} {path : String} {v : Nat}
    (h : value (root path) = .ok v) : ∃ receiver, probe.find value path = .ok (receiver, v) := by
  have hfields : ∀ (xs : List String) (receiver : Option Nat), ∃ receiver',
      xs.foldlM (fun p x => return (some p.2, ← probe.property p.2 x)) (receiver, v) =
        (.ok (receiver', v) : Except (List Nat) _) := by
    intro xs
    induction xs with
    | nil => exact fun receiver => ⟨receiver, rfl⟩
    | cons x xs ih => exact fun _ => ih (some v)
  obtain ⟨receiver, hreceiver⟩ := hfields (fields path) none
  refine ⟨receiver, ?_⟩
  rw [Surroundings.find, h]
  exact hreceiver

/-- What a name stands for in a function that is called in these surroundings. -/
def seen (f : Forwarder) (values : List Nat) (x : String) : Nat :=
  ((f.params.zip values).reverse.lookup x).getD (if x ∈ ownWords then 1 else 0)

theorem value_probe (f : Forwarder) (values : List Nat) (x : String) :
    f.value probe (fun _ => 1) values x = .ok (f.seen values x) := by
  rw [value, seen]
  cases (f.params.zip values).reverse.lookup x with
  | some v => rfl
  | none =>
    by_cases hown : x ∈ ownWords
    · simp only [if_pos hown]
      rfl
    · simp only [if_neg hown]
      rfl

/-- The failure of a call shows what all names stood for. -/
theorem invoke_probe (f : Forwarder) (values : List Nat) :
    f.invoke probe (fun _ => 1) values =
      .error (f.seen values (root f.callee) :: f.arguments.map (f.seen values)) := by
  obtain ⟨receiver, hfind⟩ := find_probe (f.value_probe values (root f.callee))
  have harguments : f.arguments.mapM (f.value probe (fun _ => 1) values) =
      .ok (f.arguments.map (f.seen values)) := by
    rw [mapM_eq_ok_iff, List.forall₂_map_right_iff, List.forall₂_same]
    exact fun x _ => f.value_probe values x
  rw [invoke, hfind, ok_bind]
  simp only [harguments]
  rfl

/-- Around the function, every path stands for zero. -/
theorem apply_probe (path : String) (values : List Nat) :
    probe.apply path values = .error (0 :: values) := by
  have hvalue : probe.value (root path) = .ok 0 := rfl
  obtain ⟨receiver, hfind⟩ := find_probe hvalue
  rw [Surroundings.apply, hfind]
  rfl

/-- In a function that forwards, the names stand for what they should in these surroundings. -/
theorem Forwards.seen {format : LoaderFormat} {path : String} {f : Forwarder}
    (h : f.Forwards format path) {values : List Nat} (hlength : values.length = f.params.length) :
    f.seen values (root f.callee) = 0 ∧ f.arguments.map (f.seen values) = values := by
  have heq := h.invoke_eq _ _ probe (fun _ => 1) values hlength
  rw [invoke_probe, apply_probe, Except.error.injEq, List.cons.injEq] at heq
  exact heq

/-- Parameters hide the start of the path, if they have the same name. -/
theorem seen_ne_zero {f : Forwarder} {values : List Nat} (hlength : values.length = f.params.length)
    (hpos : ∀ v ∈ values, v ≠ 0) {x : String} (hx : x ∈ f.params ∨ x ∈ ownWords) :
    f.seen values x ≠ 0 := by
  rw [Forwarder.seen]
  cases hlookup : (f.params.zip values).reverse.lookup x with
  | some v =>
    obtain ⟨front, back, hzip⟩ := List.lookup_eq_some_iff.1 hlookup
    have hmem : (x, v) ∈ f.params.zip values := by
      rw [← List.mem_reverse, hzip.1]
      simp
    exact hpos v (List.of_mem_zip hmem).2
  | none =>
    rcases hx with hx | hx
    · have hkeys : x ∈ (f.params.zip values).reverse.map Prod.fst := by
        rwa [List.map_reverse, List.mem_reverse, List.map_fst_zip hlength.ge]
      obtain ⟨p, hp, rfl⟩ := List.mem_map.1 hkeys
      rw [List.lookup_eq_none_iff] at hlookup
      exact absurd rfl (bne_iff_ne.1 (hlookup p hp))
    · rw [Option.getD_none, if_pos hx]
      exact Nat.one_ne_zero

/-- **Forwarding functions**: a function that passes on its parameters forwards exactly when they
differ from each other and from the start of the path. -/
theorem forwards_iff {format : LoaderFormat} {f : Forwarder} (harguments : f.arguments = f.params) :
    f.Forwards format f.callee ↔ f.Legal format ∧ f.callee ≠ "eval" ∧ f.params.Nodup ∧
      root f.callee ∉ f.params ∧ root f.callee ∉ ownWords := by
  constructor
  · -- with a number of its own for each parameter, the probe shows which one a name stands for
    intro h
    have hlength : (List.range' 1 f.params.length).length = f.params.length := List.length_range'
    have hpos : ∀ v ∈ List.range' 1 f.params.length, v ≠ 0 := by
      intro v hv
      rw [List.mem_range'_1] at hv
      omega
    obtain ⟨hroot, hparams⟩ := h.seen hlength
    refine ⟨h.legal, h.callee, ?_, fun hmem => ?_, fun hmem => ?_⟩
    · rw [harguments] at hparams
      refine List.Nodup.of_map (f.seen (List.range' 1 f.params.length)) ?_
      rw [hparams]
      exact List.nodup_range'
    · exact seen_ne_zero hlength hpos (.inl hmem) hroot
    · exact seen_ne_zero hlength hpos (.inr hmem) hroot
  · rintro ⟨hlegal, hcallee, hnodup, hroot, hown⟩
    refine ⟨hlegal, hcallee, fun μ _ _ V s own values hlength => ?_⟩
    exact invoke_eq_apply s own hlength hnodup harguments hroot hown

end Forwarder

/-! ## Host functions -/

/-- A script can forward to the host function: no parameter is hidden by another one or hides the
start of the path, and the path starts with a name that is not special to functions. -/
@[mk_iff]
structure HostFunction.Forwardable (format : LoaderFormat) (h : HostFunction) : Prop where
  distinct : (h.params.map Binder.name).Nodup
  free : ∀ p ∈ h.params, p.name = root h.path → isReserved p.name = true
  reference : IsReference format (root h.path)
  own : root h.path ∉ ownWords
  callee : h.path ≠ "eval"

instance (format : LoaderFormat) (h : HostFunction) : Decidable (h.Forwardable format) :=
  decidable_of_iff' _ (HostFunction.forwardable_iff format h)

namespace Script

/-- A path starts with a name. -/
theorem isName_root {path : String} (h : Grammar.IsHostPath path.toList) :
    IsName (root path) := by
  have hdot : ∀ {x : List Char}, Grammar.IsIdentifier x → ∀ c ∈ x, decide (c ≠ '.') = true := by
    intro x hx c hc
    rw [decide_eq_true_eq]
    rintro rfl
    exact absurd (hx.word _ hc) (by decide)
  rw [IsName, root, String.toList_ofList]
  generalize path.toList = cs at h
  cases h with
  | ident hx => rwa [List.takeWhile_eq_self_iff.2 (hdot hx)]
  | dot hx _ =>
    rw [List.takeWhile_append_of_pos (hdot hx), List.takeWhile_cons_of_neg (by decide),
      List.append_nil]
    exact hx

end Script

namespace HostFunction

/-- No parameter is a word that scripts do not use for parameters. -/
theorem notMem_unbindable_of_mem_params {h : HostFunction} {x : String}
    (hx : x ∈ h.forwarder.params) : x ∉ unbindable := by
  obtain ⟨p, -, rfl⟩ := List.mem_map.1 hx
  intro hmem
  have hreserved := isReserved_of_mem_unbindable _ hmem
  rw [isReserved_binding] at hreserved
  cases hreserved

variable {h : HostFunction} (hh : h.WellFormed)

include hh

/-- Parameters are distinct exactly if their names in the program are. -/
theorem nodup_params_iff :
    h.forwarder.params.Nodup ↔ (h.params.map Binder.name).Nodup := by
  rw [← nodup_map_binding_iff (List.forall_mem_map.2 fun p hp => (hh.params p hp).name),
    List.map_map]
  rfl

/-- A parameter hides the start of the path exactly when it is called like it and keeps its name. -/
theorem root_mem_params_iff : root h.path ∈ h.forwarder.params ↔
    ∃ p ∈ h.params, p.name = root h.path ∧ isReserved p.name = false := by
  have hroot := dollar_notMem (isName_root hh.path)
  simp only [forwarder, List.mem_map, binding_eq_iff hroot]

/-- **Host functions**: the function for a host function forwards to it exactly when a script can do
so. -/
theorem forwards_iff (format : LoaderFormat) :
    h.forwarder.Forwards format h.path ↔ h.Forwardable format := by
  have hparams : ∀ x ∈ h.forwarder.params, x ∉ unbindable := fun _ =>
    notMem_unbindable_of_mem_params
  have hiff : h.forwarder.Forwards format h.path ↔ _ :=
    Forwarder.forwards_iff (f := h.forwarder) rfl
  have hroot := root_mem_params_iff hh
  rw [hiff, nodup_params_iff hh]
  constructor
  · rintro ⟨hlegal, hcallee, hnodup, hfree, hown⟩
    refine ⟨hnodup, fun p hp hname => ?_, hlegal.callee, hown, hcallee⟩
    by_contra hreserved
    exact hfree (hroot.2 ⟨p, hp, hname, Bool.eq_false_iff.2 hreserved⟩)
  · intro hf
    have hlegal : h.forwarder.Legal format :=
      ⟨hparams, fun _ => (nodup_params_iff hh).2 hf.distinct, hf.reference,
        fun x hx => isReference_of_notMem_unbindable (hparams x hx) format⟩
    refine ⟨hlegal, hf.callee, hf.distinct, fun hmem => ?_, hf.own⟩
    obtain ⟨p, hp, hname, hreserved⟩ := hroot.1 hmem
    rw [hf.free p hp hname] at hreserved
    cases hreserved

end HostFunction

end Kelp
