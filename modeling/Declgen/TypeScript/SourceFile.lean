import Declgen.Layout.Writer

/-!
# Source files of TypeScript

A source file has header lines, imports and a body. One blank line stands between the imports
and the body and between the items of the body.
-/

namespace Declgen.TypeScript

open Layout

/-- An import of names from a module. -/
structure Import where
  /-- The module that is imported from. -/
  source : String
  /-- The imported names. -/
  names : List String
  /-- Whether only types are imported. -/
  typeOnly : Bool
deriving DecidableEq

/-- The import as one line. An import without names only runs the module. -/
def Import.toText (i : Import) : String :=
  if i.names.isEmpty then "import \"" ++ i.source ++ "\";"
  else
    "import " ++ (if i.typeOnly then "type " else "") ++ "\x7b " ++
      String.intercalate ", " i.names ++ " \x7d from \"" ++ i.source ++ "\";"

/-- A source file. -/
structure SourceFile where
  /-- The lines at the top. -/
  header : List String
  /-- The imports. -/
  imports : List Import
  /-- The items of the body, each as its fragments. -/
  body : List (List Fragment)

namespace SourceFile

/-- Whether a source file has nothing in it. -/
def isEmpty (f : SourceFile) : Bool := f.header.isEmpty && f.imports.isEmpty && f.body.isEmpty

/-- The items of a body with a blank line between them. -/
def separated : List (List Fragment) → List Fragment
  | [] => []
  | [item] => item
  | item :: next :: items => item ++ .blank :: separated (next :: items)

/-- The code of a source file. -/
def toFragments (f : SourceFile) : List Fragment :=
  f.header.map .line ++ f.imports.map (fun i => .line i.toText) ++
    (if f.imports.isEmpty || f.body.isEmpty then [] else [.blank]) ++ separated f.body

/-- The text of a source file, indented by `indent`. -/
def toText (indent : Indent) (f : SourceFile) : String := layOut indent f.toFragments

end SourceFile

end Declgen.TypeScript
