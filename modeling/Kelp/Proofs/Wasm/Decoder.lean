import Kelp.Proofs.Readers
import Kelp.Wasm.Binary

/-!
# A decoder of the binary format

Reading binaries, said without a writer. `decode?` takes a binary apart into its `Layout`: the parts
of a module with all indices as they stand in the file.

The whole of the binary must be read: a header, then sections in order, each of exactly the size
that it announces and each at most once. Custom sections may stand anywhere and are passed over. Of
the types, the instructions and the kinds of imports and exports, those are known that the modules
of this library have.
-/

namespace Kelp.Wasm

/-- A type of a binary. -/
inductive TypeEntry where
  | struct (fields : List StorageType)
  | func (params results : List ValueType)
deriving DecidableEq, Repr, Inhabited

/-- The code of a function: the types of its locals, parameters apart, and its instructions. -/
structure Code where
  locals : List ValueType
  body : List Instr
deriving DecidableEq, Repr, Inhabited

/-- What a binary says. -/
structure Layout where
  types : List TypeEntry
  imports : List Import
  /-- The indices of the types of the functions, imports apart. -/
  functions : List Nat
  exports : List (String × Nat)
  start : Option Nat
  code : List Code
deriving DecidableEq, Repr, Inhabited

/-- A way to read something from the front of a byte string. -/
abbrev Decoder : Type → Type := Reader UInt8

namespace Decoder

open Reader

variable {α : Type}

/-! ## Building blocks -/

/-- Groups of seven bits, the lowest first, up to the first byte without its high bit. -/
def unsignedGroups : Bytes → Option (Nat × Bytes)
  | [] => none
  | b :: rest =>
    if b.toNat < 128 then some (b.toNat, rest)
    else (unsignedGroups rest).map fun (n, rest) => (b.toNat - 128 + 128 * n, rest)

/-- The same, where the second highest bit of the last byte is the sign. -/
def signedGroups : Bytes → Option (Int × Bytes)
  | [] => none
  | b :: rest =>
    if b.toNat < 64 then some (b.toNat, rest)
    else if b.toNat < 128 then some (b.toNat - 128, rest)
    else (signedGroups rest).map fun (n, rest) => (b.toNat - 128 + 128 * n, rest)

/-- An unsigned number. -/
def unsigned : Decoder Nat := unsignedGroups

/-- A signed number. -/
def signed : Decoder Int := signedGroups

/-- The next `n` bytes. -/
def take (n : Nat) : Decoder Bytes := fun bytes =>
  if n ≤ bytes.length then some (bytes.take n, bytes.drop n) else none

/-- Some content after its size. -/
def content : Decoder Bytes := do take (← unsigned)

/-- A list after the number of its items. -/
def list (d : Decoder α) : Decoder (List α) := do items d (← unsigned)

/-- A text. -/
def name : Decoder String := do Bytes.toString? (← content)

/-! ## Items -/

/-- The value type with the given code. -/
def valueTypeOf (code : UInt8) : Option ValueType := ValueType.all.find? (·.code = code)

/-- A value type. -/
def valueType : Decoder ValueType := do valueTypeOf (← next)

/-- The field type with the given code. -/
def storageTypeOf (code : UInt8) : Option StorageType :=
  if code = 0x78 then some .i8
  else if code = 0x77 then some .i16
  else (valueTypeOf code).map .value

/-- A field of a struct type, which is immutable. -/
def field : Decoder StorageType := do
  let type ← storageTypeOf (← next)
  mark 0x00
  return type

/-- A struct type or a function type. -/
def typeEntry : Decoder TypeEntry := do
  let kind ← next
  if kind = 0x5f then return .struct (← list field)
  else if kind = 0x60 then
    let params ← list valueType
    return .func params (← list valueType)
  else failure

/-- An imported function. -/
def importEntry : Decoder Import := do
  let module ← name
  let name ← name
  mark 0x00
  return { module, name, type := ← unsigned }

/-- An exported function. -/
def exportEntry : Decoder (String × Nat) := do
  let name ← name
  mark 0x00
  return (name, ← unsigned)

/-- A 32-bit constant. -/
def word : Decoder (BitVec 32) := do
  let n ← signed
  if -0x80000000 ≤ n ∧ n < 0x80000000 then return BitVec.ofInt 32 n else failure

/-- The rest of the instruction with the given code. -/
def instr (code : UInt8) : Decoder Instr :=
  if code = 0x41 then do return .const (← word)
  else if code = 0x20 then do return .localGet (← unsigned)
  else if code = 0x21 then do return .localSet (← unsigned)
  else if code = 0x6a then return .add
  else if code = 0x6c then return .mul
  else if code = 0x10 then do return .call (← unsigned)
  else if code = 0x0f then return .ret
  else failure

/-- Fewer than `fuel` instructions, up to the end mark. -/
def instrs : (fuel : Nat) → Decoder (List Instr)
  | 0 => failure
  | fuel + 1 => do
    let code ← next
    if code = 0x0b then return []
    else
      let i ← instr code
      return i :: (← instrs fuel)

/-- Some locals of the same type. -/
def localGroup : Decoder (List ValueType) := do
  let count ← unsigned
  return List.replicate count (← valueType)

/-- Locals, and then fewer than `fuel` instructions. -/
def body (fuel : Nat) : Decoder Code := do
  let groups ← list localGroup
  return ⟨groups.flatten, ← instrs fuel⟩

/-- The code of a function. -/
def code : Decoder Code := do
  let bytes ← content
  exactly (body bytes.length) bytes

/-! ## Sections -/

/-- The sections of a binary: their numbers and contents. -/
abbrev Sections : Type := List (UInt8 × Bytes)

/-- At most `fuel` sections, to the end of the bytes. -/
def sections : (fuel : Nat) → Bytes → Option Sections
  | _, [] => some []
  | 0, _ => none
  | fuel + 1, bytes => do
    let (id, bytes) ← next bytes
    let (bytes, rest) ← content bytes
    return (id, bytes) :: (← sections fuel rest)

/-- The content of the first section, if it has the given number, and else nothing. -/
def sectionOf? (id : UInt8) (d : Decoder α) : StateT Sections Option (Option α)
  | [] => some (none, [])
  | (k, bytes) :: rest =>
    if k = id then (exactly d bytes).map fun x => (some x, rest)
    else some (none, (k, bytes) :: rest)

/-- The list in the section with the given number, which may be left out. -/
def listSection (id : UInt8) (d : Decoder α) : StateT Sections Option (List α) := do
  return (← sectionOf? id (list d)).getD []

/-- What the sections say, in the order in which they have to come. -/
def layout : StateT Sections Option Layout := do
  return {
    types := ← listSection 1 typeEntry
    imports := ← listSection 2 importEntry
    functions := ← listSection 3 unsigned
    exports := ← listSection 7 exportEntry
    start := ← sectionOf? 8 unsigned
    code := ← listSection 10 code
  }

end Decoder

/-- What a binary says, if it is one. -/
def decode? (binary : Bytes) : Option Layout :=
  if header.isPrefixOf binary then do
    let sections ← Decoder.sections binary.length (binary.drop header.length)
    let (layout, rest) ← Decoder.layout (sections.filter fun s => s.1 ≠ 0)
    if rest.isEmpty ∧ layout.functions.length = layout.code.length then some layout else none
  else none

end Kelp.Wasm
