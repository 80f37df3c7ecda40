import Declgen.Document.Decode
import Declgen.Document.Load
import Declgen.Files.OutputSet
import Declgen.Manifest.Check
import Declgen.Walk.Run

/-!
# Runs on a project

A project is a tree of files with a manifest, a model document and an output folder. A run checks
the project, generates its declarations, or cleans its output folder. Only the last step of a
generation writes anything.
-/

namespace Declgen.Project

open Files Manifest Model

/-- Why a run failed. -/
inductive RunError where
  /-- There is no model document at the path. -/
  | model (path : Path) (cause : ModelError)
  /-- The model document at the path is wrong. -/
  | document (path : Path) (cause : ModelError)
  /-- A root is unknown. -/
  | roots (cause : ModelError)
  /-- The declarations cannot be generated. -/
  | generation (cause : GenerateError)
  /-- The files cannot be written. -/
  | writing (cause : DiskError)
  /-- The folder cannot be cleaned. -/
  | cleaning (folder : Path) (cause : DiskError)
deriving DecidableEq

/-- The reports of a failure and of what caused it. -/
def RunError.chain : RunError → List String
  | model path cause => ["Failed to load model '" ++ path.text ++ "'", cause.message]
  | document path cause => ["Invalid model document '" ++ path.text ++ "'", cause.message]
  | roots cause => ["Failed to resolve root types", cause.message]
  | generation cause => ["Failed to generate declarations", cause.message]
  | writing cause => ["Failed to write generated files", cause.message]
  | cleaning folder cause =>
    ["Failed to clean generated files in '" ++ folder.text ++ "'", cause.message]

/-- A run on a project that may fail. -/
abbrev Run := ExceptT RunError (StateM Tree)

/-- A computation on the files of a project, as part of a run. -/
def onDisk {α : Type} (wrap : DiskError → RunError) (d : Disk α) : Run α :=
  ExceptT.mk (Except.mapError wrap <$> d.run)

/-- The folder that the paths in a manifest start from. -/
def folderOf (config : Path) : Path := (config.parent?).getD ⟨""⟩

/-- The settings of the manifest at a path. -/
def readManifest (t : Tree) (config : Path) : Except ManifestError Settings :=
  match t.text? config with
  | some source => Manifest.parse source config.text
  | none => .error (.unreadable config)

/-- The model document at a path. -/
def readDocument (t : Tree) (path : Path) : Except ModelError Document.ModelDocument :=
  match t.text? path with
  | some source => Document.parse source
  | none => .error (.unreadable path.text)

/-- What a project would generate. -/
structure Prepared where
  /-- The number of definitions in the model document. -/
  definitions : Nat
  /-- The units and files. -/
  generation : Generation

/-- What a project with these settings would generate. -/
def prepare (t : Tree) (s : Settings) (folder : Path) : Except RunError Prepared := do
  let path := s.modelPath folder
  let document ← (readDocument t path).mapError (.model path)
  let loaded ← (Document.load document).mapError (.document path)
  let roots ← (loaded.resolveRoots s.roots).mapError .roots
  let generation ← (generate ⟨s.options, fun _ => none⟩ .empty loaded.model roots).mapError
    .generation
  pure ⟨document.definitions.length, generation⟩

/-- What a check found. -/
structure CheckResult where
  /-- The path of the manifest. -/
  config : Path
  /-- The number of definitions in the model document. -/
  definitions : Nat
  /-- The qualified names of the units. -/
  units : List String
  /-- The number of files. -/
  files : Nat
deriving DecidableEq

/-- What became of a generation. -/
inductive Outcome where
  /-- The files were only planned. -/
  | preview (files : List OutputFile)
  /-- The files were written to a folder. -/
  | written (output : Path) (report : WriteReport)
deriving DecidableEq

/-- What a generation did. -/
structure GenerateResult where
  /-- The path of the model document, as the manifest gives it. -/
  model : Path
  /-- The number of units. -/
  units : Nat
  /-- What became of the files. -/
  outcome : Outcome
deriving DecidableEq

/-- What cleaning did. -/
structure CleanResult where
  /-- Whether nothing was deleted. -/
  dry : Bool
  /-- The generated files, as paths from the output folder. -/
  files : List String
deriving DecidableEq

/-- The qualified name of a unit. -/
def qualifiedName (unit : Units.Completed) : String :=
  match unit.header.space with
  | some space => space ++ "." ++ unit.header.name
  | none => unit.header.name

/-- The planned files as files to be written. -/
def outputFiles (g : Generation) : List OutputFile := g.files.map fun f => ⟨f.path, f.content⟩

/-- Checks a project without writing anything. -/
def check (s : Settings) (config : Path) : Run CheckResult := do
  let p ← ExceptT.mk (pure (prepare (← get) s (folderOf config)))
  pure ⟨config, p.definitions, p.generation.units.map qualifiedName, p.generation.files.length⟩

/-- Generates the declarations of a project. A dry run only plans them. -/
def generateInto (s : Settings) (folder output : Path) (dry : Bool) : Run GenerateResult := do
  let p ← ExceptT.mk (pure (prepare (← get) s folder))
  let files := outputFiles p.generation
  let outcome ←
    if dry then pure (.preview files)
    else .written output <$> onDisk .writing (Disk.writeAll output (OutputSet.empty.addAll files))
  pure ⟨s.model, p.generation.units.length, outcome⟩

/-- A path from the output folder if it is inside, else as it is. -/
def fromOutput (output p : Path) : String := (p.relativeTo? output).getD p.text

/-- Deletes the generated files of an output folder. A dry run only lists them. -/
def cleanOutput (output : Path) (dry : Bool) : Run CleanResult := do
  let files ← onDisk (.cleaning output) (Disk.clean output dry)
  pure ⟨dry, files.map (fromOutput output)⟩

end Declgen.Project
