import Kelp.Proofs.Except
import Kelp.Proofs.Wasm.Decoder
import Kelp.Proofs.Wat.StringBody

/-!
# Encoded modules decode

What is written to a binary is read from it again.

- The lemmas `reads_…` go through the format from numbers to the code of functions, and say what
  each decoder reads.
- `Module.layout` is what a module comes to in a binary, and `decode?_encode` says that the binary
  of a module decodes to it.
-/

namespace Kelp.Wasm

open Reader Decoder

/-! ## Numbers -/

theorem toNat_ofNat {n : Nat} (h : n < 256) : (UInt8.ofNat n).toNat = n :=
  UInt8.toNat_ofNat_of_lt' h

/-- The groups of seven bits are put together again, the lowest one first. The last byte is the only
one below 128. -/
theorem unsignedGroups_unsignedUpTo (rest : Bytes) : ∀ (fuel n : Nat), n ≤ fuel →
    unsignedGroups (Leb128.unsignedUpTo fuel n ++ rest) = some (n, rest)
  | 0, n, h => by
    obtain rfl : n = 0 := by omega
    rfl
  | fuel + 1, n, h => by
    rw [Leb128.unsignedUpTo]
    by_cases hsmall : n < 128
    · rw [if_pos hsmall, List.singleton_append, unsignedGroups, toNat_ofNat (by omega),
        if_pos hsmall]
    · -- the byte has its highest bit set, so that another group follows
      have hgroups := unsignedGroups_unsignedUpTo rest fuel (n / 128) (by omega)
      rw [if_neg hsmall, List.cons_append, unsignedGroups, toNat_ofNat (by omega),
        if_neg (by omega), hgroups, Option.map_some]
      have hn : n % 128 + 128 - 128 + 128 * (n / 128) = n := by omega
      show some (n % 128 + 128 - 128 + 128 * (n / 128), rest) = _
      rw [hn]

theorem reads_unsigned (n : Nat) : Reads unsigned (Leb128.unsigned n) n :=
  fun rest => unsignedGroups_unsignedUpTo rest n n le_rfl

/-- The last group has the sign in its highest bit. -/
theorem signedGroups_last {n : Int} (h : -64 ≤ n ∧ n < 64) (rest : Bytes) :
    signedGroups (UInt8.ofNat (n % 128).toNat :: rest) = some (n, rest) := by
  rw [signedGroups, toNat_ofNat (by omega)]
  by_cases hsign : 0 ≤ n
  · rw [if_pos (by omega)]
    congr 2
    omega
  · rw [if_neg (by omega), if_pos (by omega)]
    congr 2
    omega

/-- A signed number is put together again from its groups. Behind the lowest one are those of the
quotient, which is rounded down. -/
theorem signedGroups_signedUpTo (rest : Bytes) : ∀ (fuel : Nat) (n : Int), n.natAbs ≤ fuel →
    signedGroups (Leb128.signedUpTo fuel n ++ rest) = some (n, rest)
  | 0, n, h => signedGroups_last (by omega) rest
  | fuel + 1, n, h => by
    rw [Leb128.signedUpTo]
    by_cases hsmall : -64 ≤ n ∧ n < 64
    · rw [if_pos hsmall]
      exact signedGroups_last hsmall rest
    · have hgroups := signedGroups_signedUpTo rest fuel (n / 128) (by omega)
      rw [if_neg hsmall, List.cons_append, signedGroups, toNat_ofNat (by omega),
        if_neg (by omega), if_neg (by omega), hgroups, Option.map_some]
      have hn : (((n % 128).toNat + 128 : Nat) : Int) - 128 + 128 * (n / 128) = n := by omega
      show some ((((n % 128).toNat + 128 : Nat) : Int) - 128 + 128 * (n / 128), rest) = _
      rw [hn]

theorem reads_signed (n : Int) : Reads signed (Leb128.signed n) n :=
  fun rest => signedGroups_signedUpTo rest n.natAbs n le_rfl

/-- A word is written with its sign, and never leaves the range of words. -/
theorem reads_word (v : BitVec 32) : Reads word (Leb128.signed v.toInt) v := by
  refine (reads_signed v.toInt).finish ?_
  have hrange : -0x80000000 ≤ v.toInt ∧ v.toInt < 0x80000000 := ⟨v.le_toInt, v.toInt_lt⟩
  rw [if_pos hrange, BitVec.ofInt_toInt]
  exact reads_pure v

/-! ## Lists and texts

The number of items, or of bytes, stands in front of them. -/

section Lists

variable {α β : Type}

theorem reads_list {d : Decoder α} {item : β → Bytes} {ys : List β} {xs : List α}
    (h : List.Forall₂ (fun y x => Reads d (item y) x) ys xs) :
    Reads (list d) (vec item ys) xs :=
  (reads_unsigned ys.length).bind (reads_items h)

theorem reads_take (bytes : Bytes) : Reads (take bytes.length) bytes bytes := by
  intro rest
  rw [take, if_pos (by simp), List.take_left, List.drop_left]

theorem reads_content (bytes : Bytes) : Reads content (sized bytes) bytes :=
  (reads_unsigned bytes.length).bind (reads_take bytes)

/-- A text is read back, since its bytes are well-formed UTF-8. -/
theorem reads_name (s : String) : Reads name (text s) s := by
  have hs : Bytes.toString? (Bytes.ofString s) = some s :=
    Wat.StringBody.toString?_eq_some_iff.2 rfl
  refine (reads_content (Bytes.ofString s)).finish ?_
  rw [hs]
  exact reads_some s

end Lists

/-! ## Items -/

theorem valueTypeOf_code (t : ValueType) : valueTypeOf t.code = some t := by
  cases t <;> decide

theorem reads_valueType (t : ValueType) : Reads valueType [t.code] t := by
  refine (reads_next t.code).finish ?_
  rw [valueTypeOf_code]
  exact reads_some t

theorem storageTypeOf_code (t : StorageType) : storageTypeOf t.code = some t := by
  cases t with
  | value t => cases t <;> decide
  | i8 => decide
  | i16 => decide

/-- A field has a byte behind its type that says that it does not change. -/
theorem reads_field (t : StorageType) : Reads field [t.code, 0x00] t := by
  refine (reads_next t.code).bind ?_
  rw [storageTypeOf_code]
  exact (reads_some t).bind ((reads_mark 0x00).finish (reads_pure t))

theorem forall₂_map {α β : Type} {R : α → β → Prop} {g : α → β} (h : ∀ a, R a (g a))
    (as : List α) : List.Forall₂ R as (as.map g) :=
  List.forall₂_map_right_iff.2 (List.forall₂_same.2 fun a _ => h a)

/-- A function type as it stands in a binary. -/
def FuncType.entry (t : FuncType) : TypeEntry := .func t.params t.result.toList

theorem reads_struct (fields : List StorageType) :
    Reads typeEntry (structBytes fields) (.struct fields) := by
  have hfields : Reads (list field) (vec (fun t => [t.code, 0x00]) fields) fields :=
    reads_list (List.forall₂_same.2 fun t _ => reads_field t)
  refine (reads_next 0x5f).bind ?_
  rw [if_pos rfl]
  exact hfields.finish (reads_pure _)

theorem reads_valueTypes (ts : List ValueType) :
    Reads (list valueType) (vec (fun t => [t.code]) ts) ts :=
  reads_list (List.forall₂_same.2 fun t _ => reads_valueType t)

/-- A function type is told apart from a struct type by its first byte. -/
theorem reads_func (t : FuncType) : Reads typeEntry t.bytes t.entry := by
  refine (reads_next 0x60).bind ?_
  rw [if_neg (by decide), if_pos rfl]
  exact (reads_valueTypes t.params).bind
    ((reads_valueTypes t.result.toList).finish (reads_pure _))

/-- An import of a function, which is the only kind that is written. -/
theorem reads_import (i : Import) : Reads importEntry i.bytes i := by
  rw [Import.bytes, List.append_assoc]
  exact (reads_name i.module).bind ((reads_name i.name).bind
    ((reads_mark 0x00).bind ((reads_unsigned i.type).finish (reads_pure i))))

theorem reads_export (e : String × Nat) : Reads exportEntry (exportBytes e) e :=
  (reads_name e.1).bind
    ((reads_mark 0x00).bind ((reads_unsigned e.2).finish (reads_pure e)))

/-! ## Code -/

/-- An instruction is its code and the operands in it. -/
theorem Instr.exists_code (i : Instr) : ∃ code operands, i.bytes = code :: operands ∧
    code ≠ 0x0b ∧ Reads (instr code) operands i := by
  cases i with
  | const v => exact ⟨_, _, rfl, by decide, (reads_word v).finish (reads_pure _)⟩
  | localGet k => exact ⟨_, _, rfl, by decide, (reads_unsigned k).finish (reads_pure _)⟩
  | localSet k => exact ⟨_, _, rfl, by decide, (reads_unsigned k).finish (reads_pure _)⟩
  | add => exact ⟨_, _, rfl, by decide, reads_pure _⟩
  | mul => exact ⟨_, _, rfl, by decide, reads_pure _⟩
  | call k => exact ⟨_, _, rfl, by decide, (reads_unsigned k).finish (reads_pure _)⟩
  | ret => exact ⟨_, _, rfl, by decide, reads_pure _⟩

/-- Instructions are read up to the end mark, which is the code of none of them. -/
theorem reads_instrs : ∀ (body : List Instr) (fuel : Nat), body.length < fuel →
    Reads (instrs fuel) (body.flatMap Instr.bytes ++ [0x0b]) body
  | [], fuel + 1, _ => by
    refine (reads_next 0x0b).finish ?_
    rw [if_pos rfl]
    exact reads_pure []
  | i :: body, fuel + 1, h => by
    obtain ⟨code, operands, hbytes, hcode, hi⟩ := i.exists_code
    rw [List.flatMap_cons, hbytes, List.append_assoc, List.cons_append]
    refine (reads_next code).bind ?_
    rw [if_neg hcode]
    have hbody := reads_instrs body fuel (Nat.lt_of_succ_lt_succ h)
    exact hi.bind (hbody.finish (reads_pure _))

/-- Items that take a byte each are no more than bytes. -/
theorem length_le_length_flatMap {α : Type} (item : α → Bytes) (h : ∀ a, item a ≠ [])
    (as : List α) : as.length ≤ (as.flatMap item).length := by
  induction as with
  | nil => exact Nat.le_refl 0
  | cons a as ih =>
    have ha := List.length_pos_of_ne_nil (h a)
    rw [List.flatMap_cons, List.length_append, List.length_cons]
    omega

theorem Instr.bytes_ne_nil (i : Instr) : i.bytes ≠ [] := by
  obtain ⟨code, operands, hbytes, -⟩ := i.exists_code
  rw [hbytes]
  exact List.cons_ne_nil _ _

/-- Locals of one type are one group, and no group where there are none. -/
theorem reads_locals (count : Nat) : ∃ groups, groups.flatten = List.replicate count .i32 ∧
    Reads (list localGroup) (localBytes count) groups := by
  have hgroup : Reads localGroup (Leb128.unsigned count ++ [ValueType.i32.code])
      (List.replicate count .i32) :=
    (reads_unsigned count).bind ((reads_valueType .i32).finish (reads_pure _))
  by_cases hcount : count = 0
  · subst hcount
    exact ⟨[], rfl, reads_list .nil⟩
  · refine ⟨[List.replicate count .i32], List.append_nil _, ?_⟩
    rw [localBytes, if_neg hcount]
    exact reads_list (.cons hgroup .nil)

/-- The code of a function as it stands in a binary. -/
def Func.code (f : Func) : Code := ⟨List.replicate f.locals .i32, f.body⟩

theorem reads_body (f : Func) {fuel : Nat} (h : f.body.length < fuel) :
    Reads (body fuel) (codeBytes f.locals f.body) f.code := by
  obtain ⟨groups, hgroups, hlocals⟩ := reads_locals f.locals
  rw [Func.code, ← hgroups, codeBytes, List.append_assoc]
  exact hlocals.bind ((reads_instrs f.body fuel h).finish (reads_pure _))

/-- The code of a function has its size in front, which the instructions fill. -/
theorem reads_code (f : Func) : Reads Decoder.code f.bytes f.code := by
  -- every instruction takes a byte, and so does the end mark
  have hfuel : f.body.length < (codeBytes f.locals f.body).length := by
    have hlength := length_le_length_flatMap Instr.bytes Instr.bytes_ne_nil f.body
    simp only [codeBytes, List.length_append, List.length_singleton]
    omega
  refine (reads_content _).finish ?_
  rw [exactly_of_reads (reads_body f hfuel)]
  exact reads_some _

/-! ## Sections -/

/-- The bytes of several sections. -/
def sectionBytes (s : Sections) : Bytes := s.flatMap fun p => chunk p.1 p.2

/-- Sections are read to the end of the binary. -/
theorem sections_sectionBytes : ∀ (s : Sections) (fuel : Nat), s.length ≤ fuel →
    sections fuel (sectionBytes s) = some s
  | [], fuel, _ => by cases fuel <;> rfl
  | (id, bytes) :: s, fuel + 1, h => by
    have hrest := sections_sectionBytes s fuel (Nat.le_of_succ_le_succ h)
    have hcontent := reads_content bytes (sectionBytes s)
    show (content (sized bytes ++ sectionBytes s)).bind _ = _
    rw [hcontent]
    show (sections fuel (sectionBytes s)).bind _ = _
    rw [hrest]
    rfl

/-- The section of a list, which is left out where the list is empty. -/
def listPart {α : Type} (id : UInt8) (item : α → Bytes) (items : List α) : Sections :=
  if items.isEmpty then [] else [(id, vec item items)]

/-- A list is written as its section. -/
theorem sectionBytes_listPart {α : Type} (id : UInt8) (item : α → Bytes) (items : List α) :
    sectionBytes (listPart id item items) = listChunk id item items := by
  rw [listPart, listChunk]
  split
  · rfl
  · exact List.append_nil _

/-- The section of something that may not be there. -/
def optionPart {α : Type} (id : UInt8) (item : α → Bytes) (x : Option α) : Sections :=
  x.toList.map fun a => (id, item a)

/-- All sections have greater numbers. -/
def Above (id : UInt8) (s : Sections) : Prop := ∀ p ∈ s, id < p.1

theorem above_nil (id : UInt8) : Above id [] := fun _ h => nomatch h

/-- All numbers stay greater with the section of a list in front, if its number is. -/
theorem Above.listPart {α : Type} {id k : UInt8} {s : Sections} (hs : Above k s)
    (item : α → Bytes) (items : List α) (hk : id < k) : Above id (listPart k item items ++ s) := by
  refine List.forall_mem_append.2 ⟨fun p hp => ?_, fun p hp => UInt8.lt_trans hk (hs p hp)⟩
  rw [Wasm.listPart] at hp
  split at hp
  · cases hp
  · rwa [List.mem_singleton.1 hp]

theorem Above.optionPart {α : Type} {id k : UInt8} {s : Sections} (hs : Above k s)
    (item : α → Bytes) (x : Option α) (hk : id < k) : Above id (optionPart k item x ++ s) := by
  refine List.forall_mem_append.2 ⟨fun p hp => ?_, fun p hp => UInt8.lt_trans hk (hs p hp)⟩
  obtain ⟨a, -, rfl⟩ := List.mem_map.1 hp
  exact hk

/-- A section is missing where only greater numbers follow. -/
theorem sectionOf?_of_above {α : Type} {id : UInt8} {d : Decoder α} {s : Sections}
    (h : Above id s) : sectionOf? id d s = some (none, s) := by
  cases s with
  | nil => rfl
  | cons p s => rw [sectionOf?, if_neg (UInt8.ne_of_lt (h p List.mem_cons_self)).symm]

/-- A list is read back from its section, and an empty one from its absence. -/
theorem listSection_listPart {α β : Type} {id : UInt8} {d : Decoder α} {item : β → Bytes}
    {ys : List β} {xs : List α} (h : List.Forall₂ (fun y x => Reads d (item y) x) ys xs)
    {s : Sections} (hs : Above id s) :
    listSection id d (listPart id item ys ++ s) = some (xs, s) := by
  show (sectionOf? id (list d) (listPart id item ys ++ s)).bind _ = _
  cases h with
  | nil =>
    show (sectionOf? id (list d) s).bind _ = _
    rw [sectionOf?_of_above hs]
    rfl
  | @cons y x ys xs hx hxs =>
    have hlist := exactly_of_reads (reads_list (.cons hx hxs))
    show (sectionOf? id (list d) ((id, vec item (y :: ys)) :: s)).bind _ = _
    rw [sectionOf?, if_pos rfl, hlist]
    rfl

/-- So is something that may not be there. -/
theorem sectionOf?_optionPart {α : Type} {id : UInt8} {d : Decoder α} {item : α → Bytes}
    (h : ∀ a, Reads d (item a) a) (x : Option α) {s : Sections} (hs : Above id s) :
    sectionOf? id d (optionPart id item x ++ s) = some (x, s) := by
  cases x with
  | none => exact sectionOf?_of_above hs
  | some a =>
    show sectionOf? id d ((id, item a) :: s) = _
    rw [sectionOf?, if_pos rfl, exactly_of_reads (h a)]
    rfl

/-! ## Modules -/

/-- The types of a module as they stand in a binary: struct types, then function types. -/
def Module.typeEntries (m : Module) : List TypeEntry :=
  m.structs.map .struct ++ m.funcTypes.map FuncType.entry

/-- What a module comes to in a binary. -/
def Module.layout (m : Module) : Layout where
  types := m.typeEntries
  imports := m.imports
  functions := m.functions.map Func.type
  exports := m.exports
  start := m.start
  code := m.functions.map Func.code

/-- The sections of a module, custom ones apart. -/
def Module.sections (m : Module) : Sections :=
  listPart 1 id (m.structs.map structBytes ++ m.funcTypes.map FuncType.bytes) ++
  (listPart 2 Import.bytes m.imports ++
  (listPart 3 (fun f => Leb128.unsigned f.type) m.functions ++
  (listPart 7 exportBytes m.exports ++
  (optionPart 8 Leb128.unsigned m.start ++
  (listPart 10 Func.bytes m.functions ++ [])))))

/-- The custom section of the names in a module. -/
def Module.namesPart (m : Module) : Sections :=
  if (m.names.bytes m.imports.length).isEmpty then []
  else [(0, text "name" ++ m.names.bytes m.imports.length)]

theorem sectionBytes_append (s t : Sections) :
    sectionBytes (s ++ t) = sectionBytes s ++ sectionBytes t := List.flatMap_append

theorem sectionBytes_singleton (id : UInt8) (bytes : Bytes) :
    sectionBytes [(id, bytes)] = chunk id bytes := List.append_nil _

/-- A binary is its header and its sections, with that of the names at the end. -/
theorem Module.encode_eq (m : Module) :
    m.encode = header ++ sectionBytes (m.sections ++ m.namesPart) := by
  have hnames : sectionBytes m.namesPart = m.names.chunk m.imports.length := by
    rw [Module.namesPart, Names.chunk]
    split
    · rfl
    · exact sectionBytes_singleton _ _
  simp only [Module.encode, Module.sections, typeSection, sectionBytes_append,
    sectionBytes_listPart, hnames, List.append_assoc]
  generalize m.start = start
  cases start with
  | none => rfl
  | some i =>
    simp only [optionPart, Option.toList_some, List.map_singleton, sectionBytes_singleton]
    rfl

theorem bind_of_eq_some {σ α β : Type} {x : StateT σ Option α} {f : α → StateT σ Option β}
    {s s' : σ} {a : α} {r : Option (β × σ)} (h : x s = some (a, s')) (hf : f a s' = r) :
    (x >>= f) s = r := by
  show (x s).bind _ = _
  rw [h]
  exact hf

/-- The sections are read one by one, in the order of their numbers. -/
theorem layout_sections (m : Module) :
    Decoder.layout m.sections = some (m.layout, []) ∧ Above 0 m.sections := by
  have htypes : List.Forall₂ (fun y x => Reads typeEntry (id y) x)
      (m.structs.map structBytes ++ m.funcTypes.map FuncType.bytes) m.typeEntries :=
    List.rel_append
      (List.forall₂_map_left_iff.2 (forall₂_map reads_struct m.structs))
      (List.forall₂_map_left_iff.2 (forall₂_map reads_func m.funcTypes))
  have himports : List.Forall₂ (fun y x => Reads importEntry (Import.bytes y) x)
      m.imports m.imports := List.forall₂_same.2 fun i _ => reads_import i
  have hexports : List.Forall₂ (fun y x => Reads exportEntry (exportBytes y) x)
      m.exports m.exports := List.forall₂_same.2 fun e _ => reads_export e
  have hfunctions := forall₂_map (fun f : Func => reads_unsigned f.type) m.functions
  have hcode := forall₂_map reads_code m.functions
  -- the sections behind each one have greater numbers
  have h8 : Above 8 _ := (above_nil 10).listPart Func.bytes m.functions (by decide)
  have h7 : Above 7 _ := h8.optionPart Leb128.unsigned m.start (by decide)
  have h3 : Above 3 _ := h7.listPart exportBytes m.exports (by decide)
  have h2 : Above 2 _ := h3.listPart (fun f => Leb128.unsigned f.type) m.functions (by decide)
  have h1 : Above 1 _ := h2.listPart Import.bytes m.imports (by decide)
  refine ⟨?_, h1.listPart id _ (by decide)⟩
  refine bind_of_eq_some (listSection_listPart htypes h1) ?_
  refine bind_of_eq_some (listSection_listPart himports h2) ?_
  refine bind_of_eq_some (listSection_listPart hfunctions h3) ?_
  refine bind_of_eq_some (listSection_listPart hexports h7) ?_
  refine bind_of_eq_some (sectionOf?_optionPart reads_unsigned m.start h8) ?_
  exact bind_of_eq_some (listSection_listPart hcode (above_nil 10)) rfl

/-- **Encoded modules decode** to what they come to in a binary. -/
theorem decode?_encode (m : Module) : decode? m.encode = some m.layout := by
  have hprefix : header.isPrefixOf m.encode = true := by
    rw [List.isPrefixOf_iff_prefix, Module.encode_eq]
    exact List.prefix_append _ _
  obtain ⟨hlayout, habove⟩ := layout_sections m
  -- custom sections have the number zero and are passed over
  have hfilter : (m.sections ++ m.namesPart).filter (fun s => s.1 ≠ 0) = m.sections := by
    have hsections : m.sections.filter (fun s => s.1 ≠ 0) = m.sections :=
      List.filter_eq_self.2 fun p hp => decide_eq_true (UInt8.ne_of_lt (habove p hp)).symm
    have hnames : m.namesPart.filter (fun s => s.1 ≠ 0) = [] := by
      rw [Module.namesPart]
      split
      · rfl
      · rfl
    rw [List.filter_append, hsections, hnames, List.append_nil]
  -- each section takes a byte, so the length of the binary is fuel enough
  have hlength : (m.sections ++ m.namesPart).length ≤ m.encode.length := by
    have hbytes := length_le_length_flatMap (fun p : UInt8 × Bytes => chunk p.1 p.2)
      (fun p => List.cons_ne_nil _ _) (m.sections ++ m.namesPart)
    refine Nat.le_trans hbytes ?_
    rw [Module.encode_eq]
    exact (List.sublist_append_right _ _).length_le
  have hsections := sections_sectionBytes _ _ hlength
  have hdrop : m.encode.drop header.length = sectionBytes (m.sections ++ m.namesPart) := by
    rw [Module.encode_eq, List.drop_left]
  rw [decode?, if_pos hprefix, hdrop, hsections]
  show (Decoder.layout ((m.sections ++ m.namesPart).filter fun s => s.1 ≠ 0)).bind _ = _
  rw [hfilter, hlayout]
  simp [Module.layout]

end Kelp.Wasm
