import Kelp.Syntax

/-!
# Modules

The declarations of a program sorted by kind, each kind in source order (§4.1). This is what code is
generated from.
-/

namespace Kelp

/-- The declarations of a program, by kind. -/
structure Module where
  structs : List StructDef
  functions : List (FunctionDef Int)
  hosts : List HostFunction
deriving Repr, Inhabited

/-- The struct that a declaration declares, if it declares one. -/
def Decl.struct? {κ : Type} : Decl κ → Option StructDef
  | .struct d => some d
  | _ => none

/-- The function that a declaration declares, if it declares one. -/
def Decl.function? {κ : Type} : Decl κ → Option (FunctionDef κ)
  | .function d => some d
  | _ => none

/-- The host function that a declaration declares, if it declares one. -/
def Decl.host? {κ : Type} : Decl κ → Option HostFunction
  | .host d => some d
  | _ => none

namespace Module

/-- The declarations of a program, by kind (§4.1). Nothing is checked here: that names occur once is
left to the assembler. -/
def ofProgram (p : Program Int) : Module where
  structs := p.filterMap Decl.struct?
  functions := p.filterMap Decl.function?
  hosts := p.filterMap Decl.host?

/-- The name of the function that runs when the module is instantiated, public or not (§E9). -/
def entryName : String := "main"

/-- The position of the entry function: the first function of that name. -/
def entryIndex? (m : Module) : Option Nat :=
  m.functions.findIdx? (·.name = entryName)

/-- The entry function, if there is one. It is found by its name, and not marked as such when the
module is built (§9). -/
def entry? (m : Module) : Option (FunctionDef Int) :=
  m.functions.find? (·.name = entryName)

/-- The public functions, in order. -/
def publicFunctions (m : Module) : List (FunctionDef Int) :=
  m.functions.filter (·.isPublic)

end Module

end Kelp
