import Declgen.Marker
import Declgen.Plan.ImportSet
import Declgen.Plan.ModulePath
import Declgen.TypeScript.Render
import Declgen.TypeScript.SourceFile
import Declgen.Units.Registry

/-!
# Planning files

The units of a generation are grouped by the module that they go to. Each group becomes a file
that declares its units and imports the units of other files that they refer to.
-/

namespace Declgen.Plan

open TypeScript Declgen.Units

/-- A file that a generation will produce. -/
structure PlannedFile where
  /-- The path below the output directory. -/
  path : String
  /-- The units declared in the file, in order. -/
  units : List UnitId
  /-- The text of the file. -/
  content : String
deriving DecidableEq

/-- The unit that a number refers to: the last one with that number. -/
def unitOf? (units : List Completed) (id : UnitId) : Option Completed :=
  units.foldl (fun found unit => if unit.id == id then some unit else found) none

/-- The module that a unit goes to. -/
def moduleOf (options : Options) (unit : Completed) : String :=
  modulePath options.layout unit.header.name unit.header.space

/-- The units in order, each with the module that its number refers to. -/
def placements (options : Options) (units : List Completed) : List (String × Completed) :=
  units.filterMap fun unit =>
    (unitOf? units unit.id).map fun target => (moduleOf options target, unit)

/-- The modules of the units, in the order of their first units. -/
def modules (placed : List (String × Completed)) : List String := (placed.map (·.1)).eraseDups

/-- The units that go to a module, in order. -/
def members (placed : List (String × Completed)) (module : String) : List Completed :=
  (placed.filter (·.1 == module)).map (·.2)

/-- The import that a reference from a module to a unit needs: none within the module. -/
def importFor? (options : Options) (units : List Completed) (module : String) (id : UnitId) :
    Option (String × String) :=
  match unitOf? units id with
  | none => none
  | some target =>
    let other := moduleOf options target
    if other = module then none else some (relativeModule module other, target.header.name)

/-- The imports that the units of a module need, sorted. -/
def importsOf (options : Options) (units : List Completed) (module : String)
    (inside : List Completed) : ImportSet :=
  let needed := (inside.flatMap (·.body.references)).filterMap
    (importFor? options units module)
  (needed.foldl (fun set (source, name) => set.add source name) ImportSet.empty).sort

/-- The source file of a module that declares the units `inside`. -/
def sourceFile (options : Options) (units : List Completed) (module : String)
    (inside : List Completed) : SourceFile where
  header := [options.linter.directive, marker]
  imports := (importsOf options units module inside).entries.map fun (source, names) =>
    ⟨source, names, true⟩
  body := inside.map fun unit => unit.body.declaration.toFragments

/-- The file of a module that declares the units `inside`. -/
def plannedFile (options : Options) (units : List Completed) (module : String)
    (inside : List Completed) : PlannedFile where
  path := module ++ ".ts"
  units := inside.map (·.id)
  content := (sourceFile options units module inside).toText options.indent

/-- The files of a generation, in the order of their first units. -/
def files (options : Options) (units : List Completed) : List PlannedFile :=
  let placed := placements options units
  (modules placed).map fun module =>
    plannedFile options units module (members placed module)

end Declgen.Plan
