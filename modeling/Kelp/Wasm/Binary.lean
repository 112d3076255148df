import Kelp.Wasm.Leb128
import Kelp.Wasm.Module

/-!
# The binary format

`Wasm.Module.encode` gives the bytes of a module: a header, then one section for each kind of
content that the module has, and last a custom section with the names of its parts.
-/

namespace Kelp.Wasm

/-! ## Building blocks -/

/-- A list: the number of its items, then the items. -/
def vec {α : Type} (item : α → Bytes) (items : List α) : Bytes :=
  Leb128.unsigned items.length ++ items.flatMap item

/-- Some content after its size. -/
def sized (content : Bytes) : Bytes :=
  Leb128.unsigned content.length ++ content

/-- A text: its UTF-8 form after its size. -/
def text (s : String) : Bytes :=
  sized (Bytes.ofString s)

/-- A section or subsection: its number, then the content after its size. -/
def chunk (id : UInt8) (content : Bytes) : Bytes :=
  id :: sized content

/-- A section that holds a list, left out where the list is empty. -/
def listChunk {α : Type} (id : UInt8) (item : α → Bytes) (items : List α) : Bytes :=
  if items.isEmpty then [] else chunk id (vec item items)

/-! ## Items -/

/-- A struct type. Its fields are immutable. -/
def structBytes (fields : List StorageType) : Bytes :=
  0x5f :: vec (fun t => [t.code, 0x00]) fields

/-- A function type. -/
def FuncType.bytes (t : FuncType) : Bytes :=
  0x60 :: (vec (fun p => [p.code]) t.params ++ vec (fun r => [r.code]) t.result.toList)

/-- An imported function. -/
def Import.bytes (i : Import) : Bytes :=
  text i.module ++ text i.name ++ 0x00 :: Leb128.unsigned i.type

/-- An exported function. -/
def exportBytes (e : String × Nat) : Bytes :=
  text e.1 ++ 0x00 :: Leb128.unsigned e.2

/-- An instruction. -/
def Instr.bytes : Instr → Bytes
  | .const v => 0x41 :: Leb128.signed v.toInt
  | .localGet i => 0x20 :: Leb128.unsigned i
  | .localSet i => 0x21 :: Leb128.unsigned i
  | .add => [0x6a]
  | .mul => [0x6c]
  | .call i => 0x10 :: Leb128.unsigned i
  | .ret => [0x0f]

/-- The declaration of `count` locals, all of them 32-bit integers. -/
def localBytes (count : Nat) : Bytes :=
  vec (fun n => Leb128.unsigned n ++ [ValueType.i32.code]) (if count = 0 then [] else [count])

/-- The code of a function: the declaration of its locals, its instructions, and an end mark. -/
def codeBytes (locals : Nat) (body : List Instr) : Bytes :=
  localBytes locals ++ body.flatMap Instr.bytes ++ [0x0b]

/-- The code of a function after its size. -/
def Func.bytes (f : Func) : Bytes :=
  sized (codeBytes f.locals f.body)

/-! ## Names -/

/-- A name with the index that it belongs to. -/
def nameBytes (entry : Nat × String) : Bytes :=
  Leb128.unsigned entry.1 ++ text entry.2

/-- Names numbered from zero. -/
def numbered (names : List String) : List (Nat × String) :=
  names.zipIdx.map fun (name, i) => (i, name)

/-- Lists of names for the parts of things that are numbered from `first` on. Those without parts
are left out. -/
def indirectNames (first : Nat) (names : List (List String)) : List (Nat × List String) :=
  ((names.zipIdx first).map fun (parts, i) => (i, parts)).filter fun entry => !entry.2.isEmpty

/-- A thing's index with the names of its parts. -/
def indirectBytes (entry : Nat × List String) : Bytes :=
  Leb128.unsigned entry.1 ++ vec nameBytes (numbered entry.2)

/-- The lists of names, where `imported` functions come before the others. -/
def Names.bytes (imported : Nat) (n : Names) : Bytes :=
  listChunk 1 nameBytes (numbered n.functions) ++
  listChunk 2 indirectBytes (indirectNames imported n.locals) ++
  listChunk 4 nameBytes (numbered n.structs) ++
  listChunk 10 indirectBytes (indirectNames 0 n.fields)

/-- The custom section of names, left out where nothing is named. It has no effect on what the
module does. -/
def Names.chunk (imported : Nat) (n : Names) : Bytes :=
  let content := n.bytes imported
  if content.isEmpty then [] else Wasm.chunk 0 (text "name" ++ content)

/-! ## Modules -/

/-- The magic number and the version. -/
def header : Bytes := [0x00, 0x61, 0x73, 0x6d, 0x01, 0x00, 0x00, 0x00]

/-- The type section: struct types, then function types. -/
def typeSection (m : Module) : Bytes :=
  listChunk 1 id (m.structs.map structBytes ++ m.funcTypes.map FuncType.bytes)

/-- The bytes of a module. -/
def Module.encode (m : Module) : Bytes :=
  header ++
  typeSection m ++
  listChunk 2 Import.bytes m.imports ++
  listChunk 3 (fun f => Leb128.unsigned f.type) m.functions ++
  listChunk 7 exportBytes m.exports ++
  (match m.start with
    | none => []
    | some i => chunk 8 (Leb128.unsigned i)) ++
  listChunk 10 Func.bytes m.functions ++
  m.names.chunk m.imports.length

end Kelp.Wasm
