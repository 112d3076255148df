/-!
# Byte strings
-/

namespace Kelp

/-- A string of bytes. -/
abbrev Bytes : Type := List UInt8

/-- The UTF-8 form of a text. -/
def Bytes.ofString (s : String) : Bytes :=
  s.toList.flatMap String.utf8EncodeChar

/-- The text whose UTF-8 form the bytes are, if there is one. -/
def Bytes.toString? (b : Bytes) : Option String :=
  String.fromUTF8? ⟨b.toArray⟩

end Kelp
