import Kelp.Loader
import Kelp.Proofs.Base64
import Kelp.Proofs.Script.Keys
import Kelp.Proofs.WellFormed

/-!
# What loaders hold

The binary and the import object of a loader, read from its text.

- `Loader.binary?` reads the binary in the first statement of a loader, and `Loader.importObject?`
  the object in the fourth one: the name of a module, and functions that forward their arguments.
- `binary?_text`: a loader holds the binary that it was made for.
- `importObject?_text`: its object has the name of the module that host functions are imported from,
  and for each of them a function that forwards to it. Where the zero character stands before a
  digit in the name, the object is not legal.
-/

namespace Kelp

open Reader Script

/-! ## Reading loaders -/

/-- A function that calls another one: `function(params) { return callee(arguments); }`. -/
structure Forwarder where
  params : List String
  callee : String
  arguments : List String
deriving DecidableEq, Repr, Inhabited

/-- An object with one property, which is an object of functions. -/
structure ImportObject where
  module : String
  functions : List (String × Forwarder)
deriving DecidableEq, Repr, Inhabited

namespace Script

/-- The given text. -/
def fixed (text : String) : Reader Char Unit := expect text.toList

/-- A word of the given characters. -/
def word (p : Char → Bool) : Reader Char String := do return String.ofList (← run p)

/-- Further names, each after a comma and a space, and the closing parenthesis. Fewer than `fuel`
names are read. -/
def moreNames : (fuel : Nat) → Reader Char (List String)
  | 0 => failure
  | fuel + 1 => do
    let c ← next
    if c = ')' then return []
    else if c = ',' then
      mark ' '
      let x ← word isIdentChar
      return x :: (← moreNames fuel)
    else failure

/-- Names between commas, up to a closing parenthesis. -/
def names : Reader Char (List String) := fun text =>
  if text.head? = some ')' then some ([], text.tail)
  else (do
    let x ← word isIdentChar
    return x :: (← moreNames text.length) : Reader Char (List String)) text

/-- Whether the character may stand in a dotted path. -/
def isPathChar (c : Char) : Bool := isIdentChar c || c == '.'

/-- A function that forwards its arguments. -/
def forwarder : Reader Char Forwarder := do
  fixed "function("
  let params ← names
  fixed " \x7b return "
  let callee ← word isPathChar
  fixed "("
  let arguments ← names
  fixed "; \x7d"
  return { params, callee, arguments }

/-- A property that is a function, with the comma behind it. -/
def property : Reader Char (String × Forwarder) := do
  let name ← key
  fixed ": "
  let f ← forwarder
  fixed ","
  return (name, f)

/-- Fewer than `fuel` properties, up to the closing brace. -/
def properties : (fuel : Nat) → Reader Char (List (String × Forwarder))
  | 0 => failure
  | fuel + 1 => fun text =>
    let text := text.dropWhile (· = ' ')
    if text.head? = some '}' then some ([], text.tail)
    else (do
      let p ← property
      return p :: (← properties fuel) : Reader Char _) text

/-- An import object. -/
def importObject : Reader Char ImportObject := do
  fixed "\x7b "
  let module ← key
  fixed ": \x7b"
  let functions ← fun text => properties text.length text
  fixed " \x7d"
  return { module, functions }

/-- A text between quotes, none of which is in it. -/
def quoted : Reader Char (List Char) := do
  mark '"'
  let text ← many (· ≠ '"')
  mark '"'
  return text

/-- The declaration of the given constant, with a value of the given kind. -/
def declared {α : Type} (name : String) (value : Reader Char α) : Reader Char α := do
  fixed "const "
  fixed name
  fixed " = "
  let x ← value
  fixed ";"
  mark '\n'
  return x

/-- A line with its end. -/
def line : Reader Char Unit := do
  let _ ← many (· ≠ '\n')
  mark '\n'

end Script

/-- The binary in a loader. -/
def Loader.binary? (loader : String) : Option Bytes := do
  let (digits, _) ← declared "wasmBase64" quoted loader.toList
  Base64.decode? digits

/-- The import object in a loader. -/
def Loader.importObject? (loader : String) : Option ImportObject := do
  let (object, _) ← (do
    line
    line
    line
    declared "importObject" Script.importObject : Reader Char ImportObject) loader.toList
  return object

/-! ## Words and names -/

/-- A separator stands in front of each further item. -/
theorem intercalate_cons {α : Type} (sep x : List α) (xs : List (List α)) :
    sep.intercalate (x :: xs) = x ++ xs.flatMap (sep ++ ·) := by
  induction xs generalizing x with
  | nil => simp [List.intercalate]
  | cons y xs ih =>
    have hcons : sep.intercalate (x :: y :: xs) = x ++ (sep ++ sep.intercalate (y :: xs)) := by
      simp [List.intercalate]
    rw [hcons, ih, List.flatMap_cons, List.append_assoc]

namespace Script

theorem reads_fixed (text : String) : Reads (fixed text) text.toList () :=
  reads_expect text.toList

/-- A word ends where something follows that is of another kind. -/
theorem reads_word_bind {β : Type} {p : Char → Bool} {f : String → Reader Char β} {s : String}
    {front : List Char} {y : β} (hne : s.toList ≠ []) (hs : ∀ c ∈ s.toList, p c = true)
    (hfront : front.head?.map p = some false) (hf : Reads (f s) front y) :
    Reads (word p >>= f) (s.toList ++ front) y := by
  intro rest
  -- the word ends here, since the front of the rest is of another kind
  have hrest : ∀ c ∈ (front ++ rest).head?, p c = false := by
    cases front with
    | nil => cases hfront
    | cons c front =>
      rintro _ ⟨⟩
      exact Option.some.inj hfront
  have hword : word p (s.toList ++ (front ++ rest)) = some (s, front ++ rest) := by
    refine (bind_of_eq (run_append hne hs hrest)).trans ?_
    show some (String.ofList s.toList, front ++ rest) = _
    rw [String.ofList_toList]
  rw [List.append_assoc, bind_of_eq hword]
  exact hf rest

/-- A key ends where something follows that is no part of an identifier. -/
theorem key_bind {β : Type} (f : String → Reader Char β) (name : String) {rest : List Char}
    (hrest : ∀ c ∈ rest.head?, isIdentChar c = false) :
    (key >>= f) ((propertyKey name).toList ++ rest) =
      if zeroBeforeDigit name.toList = true then none else f name rest := by
  show (key ((propertyKey name).toList ++ rest)).bind _ = _
  rw [key_propertyKey name hrest]
  split
  · rfl
  · rfl

/-- The name of an identifier of a script. -/
def IsBinding (s : String) : Prop := s.toList ≠ [] ∧ ∀ c ∈ s.toList, isIdentChar c = true

/-- Names as they stand behind another one. -/
def moreNamesText (xs : List String) : List Char :=
  xs.flatMap (fun x => ',' :: ' ' :: x.toList) ++ [')']

/-- No name goes on behind another one. -/
theorem head?_moreNamesText (xs : List String) :
    (moreNamesText xs).head?.map isIdentChar = some false := by
  cases xs with
  | nil => rfl
  | cons x xs => rfl

/-- Names behind another one are read up to the closing parenthesis. By induction on them. -/
theorem reads_moreNames {xs : List String} (hxs : ∀ x ∈ xs, IsBinding x) {fuel : Nat}
    (hfuel : xs.length < fuel) : Reads (moreNames fuel) (moreNamesText xs) xs := by
  induction xs generalizing fuel with
  | nil =>
    cases fuel with
    | zero => exact absurd hfuel (Nat.not_lt_zero _)
    | succ fuel =>
      refine (reads_next ')').finish ?_
      rw [if_pos rfl]
      exact reads_pure []
  | cons x xs ih =>
    rw [List.forall_mem_cons] at hxs
    cases fuel with
    | zero => exact absurd hfuel (Nat.not_lt_zero _)
    | succ fuel =>
      have hmore := ih hxs.2 (Nat.lt_of_succ_lt_succ hfuel)
      have htext : moreNamesText (x :: xs) =
          [','] ++ ([' '] ++ (x.toList ++ moreNamesText xs)) := by
        simp [moreNamesText]
      rw [htext]
      refine (reads_next ',').bind ?_
      rw [if_neg (by decide), if_pos rfl]
      refine (reads_mark ' ').bind ?_
      exact reads_word_bind hxs.1.1 hxs.1.2 (head?_moreNamesText xs) (hmore.finish (reads_pure _))

/-- Each name takes a character, so the length of the text is fuel enough. -/
theorem length_lt_length_moreNamesText (xs : List String) :
    xs.length < (moreNamesText xs).length := by
  induction xs with
  | nil => exact Nat.zero_lt_one
  | cons x xs ih =>
    simp only [moreNamesText, List.flatMap_cons, List.length_append, List.length_cons] at ih ⊢
    omega

/-- Names between commas are read up to the closing parenthesis. -/
theorem reads_names {xs : List String} (hxs : ∀ x ∈ xs, IsBinding x) :
    Reads names (", ".intercalate xs ++ ")").toList xs := by
  intro rest
  cases xs with
  | nil => rfl
  | cons x xs =>
    rw [List.forall_mem_cons] at hxs
    have htext : (", ".intercalate (x :: xs) ++ ")").toList = x.toList ++ moreNamesText xs := by
      simp [intercalate_cons, moreNamesText, List.flatMap_map]
    rw [htext]
    -- the first name is not taken for the closing parenthesis
    have hhead : (x.toList ++ moreNamesText xs ++ rest).head? ≠ some ')' := by
      obtain ⟨hne, hchars⟩ := hxs.1
      cases hx : x.toList with
      | nil => exact absurd hx hne
      | cons c cs =>
        rintro ⟨⟩
        exact absurd (hchars ')' (hx ▸ List.mem_cons_self)) (by decide)
    have hfuel : xs.length < (x.toList ++ moreNamesText xs ++ rest).length := by
      have hlength := length_lt_length_moreNamesText xs
      simp only [List.length_append]
      omega
    rw [names, if_neg hhead]
    refine reads_word_bind hxs.1.1 hxs.1.2 (head?_moreNamesText xs) ?_ rest
    exact (reads_moreNames hxs.2 hfuel).finish (reads_pure _)

/-! ## Import objects -/

theorem isPathChar_of_isIdentChar {c : Char} (h : isIdentChar c = true) : isPathChar c = true := by
  rw [isPathChar, h, Bool.true_or]

theorem isIdentChar_of_isWordChar {c : Char} (h : Grammar.isWordChar c = true) :
    isIdentChar c = true := by
  rw [Grammar.isWordChar] at h
  rw [isIdentChar, h, Bool.true_or]

/-- A name of a program may be bound as it is. -/
theorem isBinding_of_isName {name : String} (h : IsName name) : IsBinding name :=
  ⟨h.ne_nil, fun c hc => isIdentChar_of_isWordChar (h.word c hc)⟩

/-- A binding is an identifier. -/
theorem isBinding_binding {name : String} (h : IsName name) : IsBinding (binding name) := by
  rw [binding]
  split
  · refine ⟨by simp, ?_⟩
    rw [String.toList_append]
    exact List.forall_mem_cons.2 ⟨rfl, (isBinding_of_isName h).2⟩
  · exact isBinding_of_isName h

/-- A host path is a word of path characters. -/
theorem isPathChar_of_isHostPath {path : List Char} (h : Grammar.IsHostPath path) :
    path ≠ [] ∧ ∀ c ∈ path, isPathChar c = true := by
  have hword : ∀ {x : List Char}, Grammar.IsIdentifier x → ∀ c ∈ x, isPathChar c = true :=
    fun hx c hc => isPathChar_of_isIdentChar (isIdentChar_of_isWordChar (hx.word c hc))
  induction h with
  | ident hx => exact ⟨hx.ne_nil, hword hx⟩
  | dot hx _ ih =>
    refine ⟨by simp, List.forall_mem_append.2 ⟨hword hx, ?_⟩⟩
    exact List.forall_mem_cons.2 ⟨rfl, ih.2⟩

end Script

/-- The function that a loader has for a host function. -/
def HostFunction.forwarder (h : HostFunction) : Forwarder where
  params := h.params.map fun p => binding p.name
  callee := h.path
  arguments := h.params.map fun p => binding p.name

/-- The functions that a loader has for host functions, each under its name. -/
def forwarders (hosts : List HostFunction) : List (String × Forwarder) :=
  hosts.map fun h => (h.name, h.forwarder)

namespace Script

/-- The parameter list of the function for a host function, with its closing parenthesis. -/
def paramsText (h : HostFunction) : String := ", ".intercalate h.forwarder.params ++ ")"

/-- The text of the function for a host function. -/
def forwarderText (h : HostFunction) : String :=
  "function(" ++ (paramsText h ++
    (" \x7b return " ++ (h.path ++ ("(" ++ (paramsText h ++ "; \x7d")))))

/-- The text of a property, in the parts in which it is read. -/
theorem wrapper_eq (h : HostFunction) :
    h.wrapper = propertyKey h.name ++ (": " ++ (forwarderText h ++ ",")) := by
  -- the fixed texts, taken apart where the reader takes them apart
  have hopening : ": function(" = ": " ++ "function(" := rfl
  have hbody : ") \x7b return " = ")" ++ " \x7b return " := rfl
  have hclosing : "); \x7d," = ")" ++ ("; \x7d" ++ ",") := rfl
  simp only [HostFunction.wrapper, forwarderText, paramsText, HostFunction.forwarder, hopening,
    hbody, hclosing, String.append_assoc]

/-- The function for a host function is read part by part. -/
theorem reads_forwarder {h : HostFunction} (hh : h.WellFormed) :
    Reads forwarder (forwarderText h).toList h.forwarder := by
  have hparams : ∀ x ∈ h.forwarder.params, IsBinding x :=
    List.forall_mem_map.2 fun b hb => isBinding_binding (hh.params b hb).name
  obtain ⟨hne, hpath⟩ := isPathChar_of_isHostPath hh.path
  have hend : Reads (do
      let arguments ← names
      fixed "; \x7d"
      return ⟨h.forwarder.params, h.path, arguments⟩) ((paramsText h).toList ++ "; \x7d".toList)
      h.forwarder := (reads_names hparams).bind ((reads_fixed "; \x7d").finish (reads_pure _))
  simp only [forwarderText, String.toList_append]
  refine (reads_fixed "function(").bind ((reads_names hparams).bind ?_)
  refine (reads_fixed " \x7b return ").bind (reads_word_bind hne hpath ?_ ?_)
  · simp [isPathChar, isIdentChar]
  · exact (reads_fixed "(").bind hend

/-- The property is read under the name of the host function. The zero character is in no name. -/
theorem reads_property {h : HostFunction} (hh : h.WellFormed) :
    Reads property h.wrapper.toList (h.name, h.forwarder) := by
  have hzero := zeroBeforeDigit_of_isIdentChar (isBinding_of_isName hh.name).2
  have hend : Reads (do
      fixed ": "
      let f ← forwarder
      fixed ","
      return (h.name, f)) (": ".toList ++ ((forwarderText h).toList ++ ",".toList))
      (h.name, h.forwarder) :=
    (reads_fixed ": ").bind ((reads_forwarder hh).bind ((reads_fixed ",").finish (reads_pure _)))
  intro rest
  simp only [wrapper_eq, String.toList_append]
  rw [List.append_assoc]
  refine (key_bind _ h.name ?_).trans ?_
  · simp [isIdentChar]
  · rw [hzero, if_neg (by decide)]
    exact hend rest

/-- A property starts neither with a space nor with the closing brace. -/
theorem exists_head_wrapper (h : HostFunction) :
    ∃ c cs, h.wrapper.toList = c :: cs ∧ c ≠ ' ' ∧ c ≠ '}' := by
  rw [wrapper_eq, String.toList_append, propertyKey]
  split
  next hident =>
    cases hname : h.name.toList with
    | nil =>
      rw [hname] at hident
      cases hident
    | cons c cs =>
      rw [hname, isIdent, Bool.and_eq_true] at hident
      refine ⟨c, _, List.cons_append, ?_, ?_⟩
      · rintro rfl
        exact absurd hident.1 (by decide)
      · rintro rfl
        exact absurd hident.1 (by decide)
  next =>
    rw [String.toList_ofList, stringLiteral, List.append_assoc, List.append_assoc]
    exact ⟨_, _, rfl, by decide, by decide⟩

/-- The text of the properties for host functions, with a space before each of them. -/
def propertiesText (hosts : List HostFunction) : List Char :=
  hosts.flatMap fun h => ' ' :: h.wrapper.toList

/-- Spaces in front are skipped. -/
theorem dropWhile_space {spaces rest : List Char} (hspaces : ∀ c ∈ spaces, c = ' ') {c : Char}
    (hc : c ≠ ' ') : (spaces ++ c :: rest).dropWhile (· = ' ') = c :: rest := by
  rw [List.dropWhile_append_of_pos fun c hc => decide_eq_true (hspaces c hc)]
  simp [hc]

/-- The closing brace ends the properties. -/
theorem reads_closing (fuel : Nat) {spaces : List Char} (hspaces : ∀ c ∈ spaces, c = ' ') :
    Reads (properties (fuel + 1)) (spaces ++ ['}']) [] := by
  intro rest
  have hdrop : ((spaces ++ ['}']) ++ rest).dropWhile (· = ' ') = '}' :: rest := by
    rw [List.append_assoc]
    exact dropWhile_space hspaces (by decide)
  rw [properties]
  simp only [hdrop]
  rfl

/-- One more property is read behind a space. -/
theorem reads_properties_succ {h : HostFunction} (hh : h.WellFormed) {fuel : Nat}
    {front : List Char} {fs : List (String × Forwarder)} (hfs : Reads (properties fuel) front fs) :
    Reads (properties (fuel + 1)) (' ' :: h.wrapper.toList ++ front)
      ((h.name, h.forwarder) :: fs) := by
  intro rest
  obtain ⟨c, cs, hwrapper, hspace, hbrace⟩ := exists_head_wrapper h
  have hdrop : (' ' :: h.wrapper.toList ++ front ++ rest).dropWhile (· = ' ') =
      h.wrapper.toList ++ front ++ rest := by
    rw [hwrapper]
    exact dropWhile_space (List.forall_mem_singleton.2 rfl) hspace
  have hhead : (h.wrapper.toList ++ front ++ rest).head? ≠ some '}' := by
    rw [hwrapper]
    exact fun heq => hbrace (Option.some.inj heq)
  have hcons : Reads (do
      let p ← property
      return p :: (← properties fuel))
      (h.wrapper.toList ++ front) ((h.name, h.forwarder) :: fs) :=
    (reads_property hh).bind (hfs.finish (reads_pure _))
  rw [properties]
  simp only [hdrop]
  rw [if_neg hhead]
  exact hcons rest

/-- Properties are read up to the closing brace. By induction on the host functions. -/
theorem reads_properties {hosts : List HostFunction} (hhosts : ∀ h ∈ hosts, h.WellFormed)
    {fuel : Nat} (hfuel : hosts.length < fuel) {spaces : List Char}
    (hspaces : ∀ c ∈ spaces, c = ' ') :
    Reads (properties fuel) (propertiesText hosts ++ (spaces ++ ['}'])) (forwarders hosts) := by
  induction hosts generalizing fuel with
  | nil =>
    cases fuel with
    | zero => exact absurd hfuel (Nat.not_lt_zero _)
    | succ fuel => exact reads_closing fuel hspaces
  | cons h hosts ih =>
    rw [List.forall_mem_cons] at hhosts
    cases fuel with
    | zero => exact absurd hfuel (Nat.not_lt_zero _)
    | succ fuel =>
      rw [propertiesText, List.flatMap_cons, List.append_assoc]
      exact reads_properties_succ hhosts.1 (ih hhosts.2 (Nat.lt_of_succ_lt_succ hfuel))

/-- Each property takes a character. -/
theorem length_le_length_propertiesText (hosts : List HostFunction) :
    hosts.length ≤ (propertiesText hosts).length := by
  induction hosts with
  | nil => exact Nat.le_refl 0
  | cons h hosts ih =>
    simp only [propertiesText, List.flatMap_cons, List.length_append, List.length_cons] at ih ⊢
    omega

/-- There are never more properties than characters. -/
theorem reads_allProperties {hosts : List HostFunction} (hhosts : ∀ h ∈ hosts, h.WellFormed)
    {spaces : List Char} (hspaces : ∀ c ∈ spaces, c = ' ') :
    Reads (fun text => properties text.length text) (propertiesText hosts ++ (spaces ++ ['}']))
      (forwarders hosts) := by
  intro rest
  have hfuel : hosts.length < (propertiesText hosts ++ (spaces ++ ['}']) ++ rest).length := by
    have hlength := length_le_length_propertiesText hosts
    simp only [List.length_append, List.length_cons]
    omega
  exact reads_properties hhosts hfuel hspaces rest

end Script

/-- The text of an import object, in the parts in which it is read. Whether there is a space before
the closing brace depends on whether there are properties. -/
theorem toList_importObject (hosts : List HostFunction) (importModule : String) :
    ∃ spaces : List Char, (∀ c ∈ spaces, c = ' ') ∧
      (Kelp.importObject hosts importModule).toList =
        "\x7b ".toList ++ ((propertyKey importModule).toList ++ (": \x7b".toList ++
          (propertiesText hosts ++ (spaces ++ ['}']) ++ " \x7d".toList))) := by
  cases hosts with
  | nil =>
    refine ⟨[], nofun, ?_⟩
    simp [Kelp.importObject, propertiesText]
  | cons h hosts =>
    refine ⟨[' '], by simp, ?_⟩
    simp [Kelp.importObject, propertiesText, intercalate_cons, List.flatMap_map]

/-- **Import objects**: the object for host functions has the name of the module that they are
imported from, and a function for each of them, unless the zero character stands before a digit in
the name. -/
theorem importObject_importObject {hosts : List HostFunction}
    (hhosts : ∀ h ∈ hosts, h.WellFormed) (importModule : String) (rest : List Char) :
    Script.importObject ((Kelp.importObject hosts importModule).toList ++ rest) =
      if zeroBeforeDigit importModule.toList = true then none
      else some (⟨importModule, forwarders hosts⟩, rest) := by
  obtain ⟨spaces, hspaces, htext⟩ := toList_importObject hosts importModule
  rw [htext, List.append_assoc]
  refine ((reads_fixed "\x7b ").bind_apply _).trans ?_
  rw [List.append_assoc]
  refine (key_bind _ importModule (by simp [isIdentChar])).trans ?_
  split
  · rfl
  · rw [List.append_assoc]
    refine ((reads_fixed ": \x7b").bind_apply _).trans ?_
    rw [List.append_assoc]
    refine ((reads_allProperties hhosts hspaces).bind_apply _).trans ?_
    have hend : Reads (do
        fixed " \x7d"
        return { module := importModule, functions := forwarders hosts })
        " \x7d".toList (ImportObject.mk importModule (forwarders hosts)) :=
      (reads_fixed _).finish (reads_pure _)
    exact hend rest

/-! ## Loaders -/

/-- All characters up to a given one. -/
theorem many_ne_append {c : Char} {text : List Char} (htext : c ∉ text) (rest : List Char) :
    many (· ≠ c) (text ++ c :: rest) = some (text, c :: rest) := by
  refine many_append (fun d hd => decide_eq_true ?_) ?_
  · rintro rfl
    exact htext hd
  · rintro _ ⟨⟩
    exact decide_eq_false (fun hne => hne rfl)

/-- A line ends at the first line break. -/
theorem reads_line {text : List Char} (htext : '\n' ∉ text) :
    Reads line (text ++ ['\n']) () := by
  intro rest
  rw [List.append_assoc]
  exact (bind_of_eq (many_ne_append htext rest)).trans (reads_mark '\n' rest)

/-- A quoted text ends at the next quote. -/
theorem reads_quoted {text : List Char} (htext : '"' ∉ text) :
    Reads quoted ('"' :: (text ++ ['"'])) text := by
  intro rest
  have hassoc : '"' :: (text ++ ['"']) ++ rest = ['"'] ++ (text ++ '"' :: rest) := by simp
  rw [hassoc]
  refine ((reads_mark '"').bind_apply _).trans ?_
  refine (bind_of_eq (many_ne_append htext rest)).trans ?_
  exact (reads_mark '"').finish (f := fun _ => pure text) (reads_pure _) rest

/-- A declaration without its end of line. -/
def declaration (name value : String) : String := "const " ++ name ++ " = " ++ value ++ ";"

theorem toList_declaration (name value : String) : (declaration name value).toList =
    "const ".toList ++ (name.toList ++ (" = ".toList ++ (value.toList ++ ";".toList))) := by
  simp only [declaration, String.toList_append, List.append_assoc]

theorem scriptText_constant (name value : String) (rest : List Statement) :
    scriptText (.constant name value :: rest) =
      "const " ++ name ++ " = " ++ value ++ ";\n" ++ scriptText rest := by
  rw [scriptText, List.map_cons, String.join_cons]
  rfl

/-- The first statement of a script is its first line. -/
theorem toList_scriptText_constant (name value : String) (rest : List Statement) :
    (scriptText (.constant name value :: rest)).toList =
      ((declaration name value).toList ++ ['\n']) ++ (scriptText rest).toList := by
  have hend : ";\n".toList = ";".toList ++ ['\n'] := by simp
  rw [scriptText_constant, toList_declaration]
  simp only [String.toList_append, List.append_assoc]
  rw [hend]
  simp only [List.append_assoc]

section Declarations

variable {α : Type} {r : Reader Char α} {name value : String} {x : α}

/-- A declaration on one line is a line. -/
theorem reads_line_declaration (hname : '\n' ∉ name.toList) (hvalue : '\n' ∉ value.toList) :
    Reads line ((declaration name value).toList ++ ['\n']) () := by
  refine reads_line ?_
  rw [toList_declaration]
  simp [hname, hvalue]

/-- Once the words of a declaration are read, the value is next. -/
theorem declared_declaration (rest : List Char) :
    declared name r ((declaration name value).toList ++ ['\n'] ++ rest) =
      (do
        let x ← r
        fixed ";"
        mark '\n'
        return x : Reader Char α) (value.toList ++ (";".toList ++ (['\n'] ++ rest))) := by
  rw [toList_declaration]
  simp only [List.append_assoc]
  refine ((reads_fixed "const ").bind_apply _).trans ?_
  refine ((reads_fixed name).bind_apply _).trans ?_
  exact (reads_fixed " = ").bind_apply _

/-- A declaration is read if its value is. -/
theorem reads_declared (name : String) (h : Reads r value.toList x) :
    Reads (declared name r) ((declaration name value).toList ++ ['\n']) x := by
  intro rest
  rw [declared_declaration, h.bind_apply, (reads_fixed ";").bind_apply,
    (reads_mark '\n').bind_apply]
  rfl

/-- If its value is not read, neither is the declaration. -/
theorem declared_eq_none (h : ∀ rest, r (value.toList ++ rest) = none) (rest : List Char) :
    declared name r ((declaration name value).toList ++ ['\n'] ++ rest) = none := by
  rw [declared_declaration]
  show (r (value.toList ++ _)).bind _ = none
  rw [h]
  rfl

end Declarations

namespace Loader

variable (binary : Bytes) (m : Module) (importModule : String) (format : LoaderFormat)

/-- The binary stands on one line. -/
theorem newline_notMem_binary :
    '\n' ∉ ("\"" ++ String.ofList (Base64.encode binary) ++ "\"").toList := by
  have hdigits : '\n' ∉ Base64.encode binary := fun h => (Base64.ne_of_mem_encode h).2 rfl
  simp [hdigits]

/-- **Loaders carry their binary**: it is what the first statement of a loader holds. -/
theorem binary?_text : binary? (text binary m importModule format) = some binary := by
  have hquoted : ("\"" ++ String.ofList (Base64.encode binary) ++ "\"").toList =
      '"' :: (Base64.encode binary ++ ['"']) := by simp
  have hdigits : '"' ∉ Base64.encode binary := fun h => (Base64.ne_of_mem_encode h).1 rfl
  have hreads := reads_quoted hdigits
  rw [← hquoted] at hreads
  have htext := reads_declared "wasmBase64" hreads
  simp only [binary?, text, statements, instantiate, List.cons_append, toList_scriptText_constant]
  rw [htext]
  exact Base64.decode?_encode binary

/-- **Loaders hold an import object** for the host functions, unless the zero character stands
before a digit in the name of the module that they are imported from. -/
theorem importObject?_text (hhosts : ∀ h ∈ m.hosts, h.WellFormed) :
    importObject? (text binary m importModule format) =
      if zeroBeforeDigit importModule.toList = true then none
      else some ⟨importModule, forwarders m.hosts⟩ := by
  simp only [importObject?, text, statements, instantiate, List.cons_append,
    toList_scriptText_constant]
  -- three declarations come before that of the object
  rw [(reads_line_declaration (by simp) (newline_notMem_binary binary)).bind_apply,
    (reads_line_declaration (by simp) (by simp)).bind_apply,
    (reads_line_declaration (by simp) (by simp)).bind_apply]
  split
  case isTrue hzero =>
    rw [declared_eq_none]
    · rfl
    · intro rest
      rw [importObject_importObject hhosts, if_pos hzero]
  case isFalse hzero =>
    have hobject : Reads Script.importObject (Kelp.importObject m.hosts importModule).toList
        ⟨importModule, forwarders m.hosts⟩ := by
      intro rest
      rw [importObject_importObject hhosts, if_neg hzero]
    rw [reads_declared _ hobject]
    rfl

end Loader

end Kelp
