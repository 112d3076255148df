/-!
# Script statements

The statements that loader scripts consist of, each on a line of its own.
-/

namespace Kelp.Script

/-- A statement of a loader script. Values are given as text. -/
inductive Statement where
  /-- `const name = value;` -/
  | constant (name value : String)
  /-- `export const name = value;` -/
  | exportConstant (name value : String)
  /-- `export { binding as name };` -/
  | exportAs (binding name : String)
  /-- `export default value;` -/
  | exportDefault (value : String)
  /-- `module.exports = value;` -/
  | moduleExports (value : String)
deriving DecidableEq, Repr, Inhabited

/-- The line of a statement. -/
def Statement.line : Statement → String
  | .constant name value => "const " ++ name ++ " = " ++ value ++ ";\n"
  | .exportConstant name value => "export const " ++ name ++ " = " ++ value ++ ";\n"
  | .exportAs binding name => "export \x7b " ++ binding ++ " as " ++ name ++ " \x7d;\n"
  | .exportDefault value => "export default " ++ value ++ ";\n"
  | .moduleExports value => "module.exports = " ++ value ++ ";\n"

/-- The text of a script. -/
def scriptText (statements : List Statement) : String :=
  String.join (statements.map Statement.line)

end Kelp.Script
