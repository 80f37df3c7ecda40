import Declgen.Files.Disk
import Declgen.Marker

/-!
# Generated files below a folder

Generated files are recognised by their extension and their marker line. They can be listed,
and they can be cleaned away together with the folders that become empty.
-/

namespace Declgen.Files

/-- The extension of generated files. -/
def extension : String := "ts"

namespace Tree

/-- Whether an entry at a path is a generated file. Links are none. -/
def isGeneratedFile (p : Path) : Entry → Bool
  | .file (.text content) => p.extension? = some extension && isGenerated content
  | _ => false

/-- The entries that a walk from a base meets, with their paths: the base itself, or what is
inside the folder that it leads to. -/
def reachable (t : Tree) (base : Path) : List (Path × Entry) :=
  match t.locate true base with
  | .taken key =>
    match t.entry? key with
    | some .folder => (t.inside key).map fun (names, entry) =>
        (names.foldl (fun p name => p.join ⟨name⟩) base, entry)
    | _ =>
      match t.locate false base with
      | .taken key => ((t.entry? key).map fun entry => (base, entry)).toList
      | _ => []
  | _ => []

/-- The paths of the generated files at or below a base, in order. -/
def generated (t : Tree) (base : Path) : List Path :=
  ((t.reachable base).filter fun (p, entry) => isGeneratedFile p entry).map (·.1)

end Tree

namespace Disk

/-- The folders strictly below a base that contain what a path names, the nearest first. -/
def foldersBelow (base p : Path) : List Path :=
  p.ancestors.takeWhile fun folder => !folder.same base && folder.startsWith base

/-- Deletes a generated file and the folders below the base that it leaves empty. -/
def deleteGenerated (base p : Path) : Disk Unit := do
  delete p
  prune (foldersBelow base p)

/-- The generated files at or below a base, which are deleted unless the run is dry. -/
def clean (base : Path) (dry : Bool) : Disk (List Path) := do
  let files := (← get).generated base
  if !dry then files.forM (deleteGenerated base)
  pure files

end Disk

end Declgen.Files
