import Declgen.Files.Generated

/-!
# Writing the files of a run

The files of a run are collected first, each path once. Writing them deletes the generated files
that the run no longer has, and leaves alone what is up to date.
-/

namespace Declgen.Files

/-- A file to be written below the output folder. -/
structure OutputFile where
  /-- The path below the output folder. -/
  path : String
  /-- The text of the file. -/
  content : String
deriving DecidableEq

/-- The path of a file from a base, taken segment by segment. -/
def OutputFile.fullPath (file : OutputFile) (base : Path) : Path :=
  (Text.splitAt '/' file.path).foldl (fun p segment => p.join ⟨segment⟩) base

/-- The files of a run, in the order in which their paths were first added. -/
structure OutputSet where
  /-- The files. -/
  files : List OutputFile
deriving DecidableEq

/-- What became of the files of a run. -/
structure WriteReport where
  /-- The paths of the files that were written. -/
  written : List String
  /-- The paths of the files that were up to date. -/
  unchanged : List String
  /-- The generated files that were deleted. -/
  deleted : List Path
deriving DecidableEq

/-- The number of files of the run. -/
def WriteReport.total (r : WriteReport) : Nat := r.written.length + r.unchanged.length

/-- Puts a file into a list, instead of one with the same path. -/
def putFile (file : OutputFile) : List OutputFile → List OutputFile
  | [] => [file]
  | other :: files =>
    if other.path = file.path then file :: files else other :: putFile file files

namespace OutputSet

/-- The set without files. -/
def empty : OutputSet := ⟨[]⟩

/-- Adds a file. A file with the same path is replaced where it stands. -/
def add (s : OutputSet) (file : OutputFile) : OutputSet := ⟨putFile file s.files⟩

/-- Adds files in order. -/
def addAll (s : OutputSet) (files : List OutputFile) : OutputSet := files.foldl add s

/-- The file with a path. -/
def find? (s : OutputSet) (path : String) : Option OutputFile := s.files.find? (·.path = path)

/-- The number of files. -/
def size (s : OutputSet) : Nat := s.files.length

end OutputSet

namespace Disk

/-- Writes a file unless it holds the text already, and says whether it wrote. -/
def writeIfChanged (base : Path) (file : OutputFile) : Disk Bool := do
  let p := file.fullPath base
  if (← get).text? p = some file.content then pure false
  else
    write p (.text file.content)
    pure true

/-- Writes files in order and says which were written and which were up to date. -/
def writeEach (base : Path) : List OutputFile → Disk (List String × List String)
  | [] => pure ([], [])
  | file :: files => do
    let changed ← writeIfChanged base file
    let (written, unchanged) ← writeEach base files
    pure (if changed then (file.path :: written, unchanged) else (written, file.path :: unchanged))

/-- Deletes the generated files that are not among the files of a run, then writes those. -/
def writeAll (base : Path) (s : OutputSet) : Disk WriteReport := do
  let planned := s.files.map fun file => file.fullPath base
  let stale := ((← get).generated base).filter fun p => !planned.any (·.same p)
  stale.forM (deleteGenerated base)
  let (written, unchanged) ← writeEach base s.files
  pure ⟨written, unchanged, stale⟩

end Disk

end Declgen.Files
