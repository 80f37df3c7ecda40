import Declgen.Options
import Declgen.TypeScript.Naming

/-!
# Module paths

A module path is the path of a generated file without its extension. Modules import each other
by relative specifiers, which start with `./` or climb with `../` to the deepest folder that
the two modules share.
-/

namespace Declgen.Plan

open TypeScript

/-- The folders of a namespace. -/
def folders (space : Option String) : List String :=
  match space with
  | some space =>
    ((Text.splitAt '.' space).filter fun segment => !segment.isEmpty).map fileName
  | none => []

/-- The module that a declaration goes to. Declarations without a namespace share the module
`index` when there is one file for each namespace. -/
def modulePath (layout : FileLayout) (name : String) (space : Option String) : String :=
  match layout with
  | .perUnit => String.intercalate "/" (folders space ++ [fileName name])
  | .perNamespace =>
    if (folders space).isEmpty then "index" else String.intercalate "/" (folders space)
  | .singleFile stem => stem

/-- The length of the longest common start of two lists. -/
def commonLength : List String → List String → Nat
  | a :: as, b :: bs => if a == b then commonLength as bs + 1 else 0
  | _, _ => 0

/-- The segments of a module path. -/
def segments (path : String) : List String := Text.splitAt '/' path

/-- The specifier by which the module `source` imports the module `target`. -/
def relativeModule (source target : String) : String :=
  let here := (segments source).dropLast
  let there := segments target
  let shared := commonLength here there.dropLast
  let climb := here.length - shared
  let rest := String.intercalate "/" (there.drop shared)
  if climb = 0 then "./" ++ rest else Layout.copies climb "../" ++ rest

end Declgen.Plan
