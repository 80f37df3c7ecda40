/-!
# Enumerations

The members of an enumeration, the same in a type model and in a declaration.
-/

namespace Declgen

/-- A constant: an integer or a text. -/
inductive Literal where
  /-- An integer. -/
  | number (value : Int)
  /-- A text. -/
  | text (value : String)
deriving DecidableEq

/-- A member of an enumeration. -/
structure EnumMember where
  /-- The name of the member. -/
  name : String
  /-- The value that the name stands for. -/
  value : Literal
deriving DecidableEq

end Declgen
