import Declgen.Files.Path
import Declgen.Options

/-!
# Settings

What a manifest says about a generation: where the model is, where the files go, which types to
start from, and the options.
-/

namespace Declgen.Manifest

open Files

/-- The layouts that a manifest can ask for. -/
inductive LayoutChoice where
  /-- One file for each declaration. -/
  | perUnit
  /-- One file for each namespace. -/
  | perNamespace
  /-- One file for all. -/
  | singleFile
deriving DecidableEq

/-- The settings of a manifest. -/
structure Settings where
  /-- The path of the model document. -/
  model : Path
  /-- The path of the output folder. -/
  output : Path := ⟨"generated"⟩
  /-- The names of the types to start from. -/
  roots : List String := []
  /-- The linter that is switched off. -/
  linter : Linter := .eslint
  /-- What enumerations become. -/
  enums : EnumStyle := .union
  /-- What generic records become. -/
  generics : GenericStyle := .monomorphize
  /-- How fields are named. -/
  fields : FieldStyle := .camel
  /-- How declarations are spread over files. -/
  layout : LayoutChoice := .perUnit
  /-- The stem of the only file. -/
  file : Option String := none
  /-- How far one level is indented. -/
  indent : Layout.Indent := .spaces 4
deriving DecidableEq

namespace Settings

/-- The stem of the only file if the settings give none. -/
def defaultStem : String := "types"

/-- The options of a generation with these settings. -/
def options (s : Settings) : Options where
  linter := s.linter
  enums := s.enums
  generics := s.generics
  fields := s.fields
  layout :=
    match s.layout with
    | .perUnit => .perUnit
    | .perNamespace => .perNamespace
    | .singleFile => .singleFile (s.file.getD defaultStem)
  indent := s.indent

/-- The path of the model document, for a manifest in a folder. -/
def modelPath (s : Settings) (folder : Path) : Path := folder.join s.model

/-- The path of the output folder, for a manifest in a folder. -/
def outputPath (s : Settings) (folder : Path) : Path := folder.join s.output

end Settings

end Declgen.Manifest
