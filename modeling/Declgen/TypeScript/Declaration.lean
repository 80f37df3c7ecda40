import Declgen.TypeScript.Expr

/-!
# Declarations of TypeScript

An exported declaration is an alias for a type expression or an enumeration.
-/

namespace Declgen.TypeScript

/-- A named, exported declaration. -/
inductive Declaration where
  /-- A name for a type expression, which may use the type parameters. -/
  | alias (name : String) (typeParams : List String) (type : Expr)
  /-- An enumeration. -/
  | enum (name : String) (members : List EnumMember)
deriving DecidableEq

namespace Declaration

/-- The declared name. -/
def name : Declaration → String
  | .alias name _ _ => name
  | .enum name _ => name

/-- The units that a declaration refers to, each once, in order of first use. -/
def references : Declaration → List UnitId
  | .alias _ _ type => type.references
  | .enum _ _ => []

end Declaration

end Declgen.TypeScript
