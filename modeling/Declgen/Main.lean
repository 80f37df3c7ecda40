import Declgen.CommandLine.Run
import Declgen.Files.Changes

/-!
# The program

What a command may look into is read from the disk into a tree, the command is run on that tree,
and what it changed there is changed on the disk.
-/

namespace Declgen.Program

open CommandLine Files

/-- The absolute path of a key. -/
def keyPath (key : Key) : String := "/" ++ "/".intercalate key

/-- The key of an absolute path. -/
def keyOf (path : String) : Key := (Path.segments ⟨path⟩).filter fun segment => !segment.isEmpty

/-- What the file with a key holds. -/
def readContent (key : Key) : IO Content := do
  let bytes ← try IO.FS.readBinFile (keyPath key) catch _ => pure (ByteArray.mk #[0xFF])
  match String.fromUTF8? bytes with
  | some s => pure (.text s)
  | none => pure (.bytes bytes.toList)

/-- The absolute target of the link with a key, or the top if it leads nowhere. -/
def linkTarget (key : Key) : IO String := do
  try pure (← IO.FS.realPath (keyPath key)).toString catch _ => pure "/"

/-- Adds the entry with a key to a tree, if there is one. -/
def readEntry (t : Tree) (key : Key) : IO Tree := do
  if key.isEmpty then return t
  try
    let place := (← IO.FS.realPath (keyPath key.dropLast)) / key.getLast?.getD ""
    match (← place.symlinkMetadata).type with
    | .dir => return t.put key .folder
    | .symlink => return t.put key (.link (← linkTarget key))
    | _ => return t.put key (.file (← readContent key))
  catch _ => return t

/-- Adds the entry with a key, and if it is a link, those that lead to its target. -/
def readLinked (t : Tree) (key : Key) : IO Tree := do
  let t ← readEntry t key
  match t.entry? key with
  | some (.link target) =>
    let target := keyOf target
    (List.range target.length).foldlM (fun t n => readEntry t (target.take (n + 1))) t
  | _ => pure t

/-- Adds all that is inside the folder with a key. -/
partial def readInside (t : Tree) (key : Key) : IO Tree := do
  let found ← try (← IO.FS.realPath (keyPath key)).readDir catch _ => pure #[]
  found.foldlM (fun t entry => do
    let key := key ++ [entry.fileName]
    let t ← readLinked t key
    if t.entry? key = some .folder then readInside t key else pure t) t

/-- Adds what segments lead to from a folder, and what lies on the way. -/
def readAlong (t : Tree) (here : Key) : List String → IO Tree
  | [] => if t.entry? here = some .folder then readInside t here else pure t
  | segment :: rest => do
    if Path.isIdle segment then readAlong t here rest
    else if segment = ".." then readAlong t here.dropLast rest
    else
      let key := here ++ [segment]
      let t ← readLinked t key
      match t.entry? key with
      | some (.link target) => readAlong t (keyOf target) rest
      | _ => readAlong t key rest

/-- Adds what a path leads to. -/
def readAt (t : Tree) (p : Path) : IO Tree :=
  if p.text.isEmpty then pure t
  else readAlong t (if p.isAbsolute then [] else t.home) p.segments

/-- Adds what a command may look into: the manifest and what it names, and the output folder. -/
def readFor (t : Tree) (command : Command) : IO Tree := do
  let reading (config : Path) (output : Option Path) : IO Tree := do
    let t ← readAt t config
    let t ← output.elim (pure t) (readAt t)
    match Project.readManifest t config with
    | .ok s =>
      let folder := Project.folderOf config
      readAt (← readAt t (s.modelPath folder)) (s.outputPath folder)
    | .error _ => pure t
  match command with
  | .generate config output _ | .clean config output _ => reading config output
  | .check config => reading config none
  | .completions _ => pure t

/-- Does on the disk what was done to its tree. -/
def apply (changes : List Change) : IO Unit := do
  for change in changes.reverse do
    match change with
    | .gone key .folder => IO.FS.removeDir (keyPath key)
    | .gone key _ => IO.FS.removeFile (keyPath key)
    | _ => pure ()
  for change in changes do
    match change with
    | .placed key .folder => IO.FS.createDirAll (keyPath key)
    | .placed key (.file (.text s)) => IO.FS.writeFile (keyPath key) s
    | _ => pure ()

end Declgen.Program

/-- Runs the program in the working folder. -/
def main (arguments : List String) : IO UInt32 := do
  let here := Declgen.Files.Tree.new (Declgen.Program.keyOf (← IO.FS.realPath ".").toString)
  let before ← match Declgen.CommandLine.parse arguments with
    | .ok (.run command) => Declgen.Program.readFor here command
    | _ => pure here
  let (outcome, after) := (Declgen.CommandLine.run arguments).run before
  Declgen.Program.apply (before.changes after)
  IO.print outcome.output
  IO.eprint outcome.diagnostics
  pure outcome.code.toUInt32
