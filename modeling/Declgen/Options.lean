import Declgen.Layout.Line

/-!
# Options of a generation

The choices that a user has about the generated declarations and files.
-/

namespace Declgen

/-- Which linter the generated files switch off. -/
inductive Linter where
  | eslint
  | tslint
deriving DecidableEq

/-- The line that switches a linter off. -/
def Linter.directive : Linter → String
  | .eslint => "/* eslint-disable */"
  | .tslint => "// tslint:disable"

/-- What an enumeration becomes. -/
inductive EnumStyle where
  /-- A union of the values. -/
  | union
  /-- An enumeration with its members. -/
  | declaration
deriving DecidableEq

/-- What a generic record becomes. -/
inductive GenericStyle where
  /-- One declaration for every list of arguments that it is used with. -/
  | monomorphize
  /-- One declaration with type parameters. -/
  | preserve
deriving DecidableEq

/-- How fields are named. -/
inductive FieldStyle where
  /-- In camel case. -/
  | camel
  /-- As in the model. -/
  | preserve
deriving DecidableEq

/-- How declarations are spread over files. -/
inductive FileLayout where
  /-- One file for each declaration. -/
  | perUnit
  /-- One file for each namespace. -/
  | perNamespace
  /-- One file for all, with this stem. -/
  | singleFile (stem : String)
deriving DecidableEq

/-- The options of a generation. -/
structure Options where
  /-- The linter that is switched off. -/
  linter : Linter := .eslint
  /-- What enumerations become. -/
  enums : EnumStyle := .union
  /-- What generic records become. -/
  generics : GenericStyle := .monomorphize
  /-- How fields are named. -/
  fields : FieldStyle := .camel
  /-- How declarations are spread over files. -/
  layout : FileLayout := .perUnit
  /-- How far one level is indented. -/
  indent : Layout.Indent := default
deriving DecidableEq

end Declgen
