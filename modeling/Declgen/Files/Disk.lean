import Declgen.Files.Tree

/-!
# Changing a file tree

The operations that read and change a tree of files. An operation that fails keeps what was
changed before it failed.
-/

namespace Declgen.Files

/-- What could not be done. -/
inductive DiskError where
  /-- Making a folder. -/
  | createFolder (path : Path)
  /-- Writing a file. -/
  | write (path : Path)
  /-- Deleting a file. -/
  | delete (path : Path)
  /-- Listing a folder. -/
  | list (path : Path)
  /-- Removing a folder. -/
  | remove (path : Path)
deriving DecidableEq

/-- The report of a failure. -/
def DiskError.message : DiskError → String
  | createFolder p => "failed to create directory '" ++ p.text ++ "'"
  | write p => "failed to write '" ++ p.text ++ "'"
  | delete p => "failed to delete '" ++ p.text ++ "'"
  | list p => "failed to read '" ++ p.text ++ "'"
  | remove p => "failed to remove '" ++ p.text ++ "'"

/-- A computation on a tree that may fail. -/
abbrev Disk := ExceptT DiskError (StateM Tree)

/-- The text of a file, if a path leads to one that holds text. -/
def Tree.text? (t : Tree) (p : Path) : Option String :=
  match t.get? p with
  | some (.file (.text s)) => some s
  | _ => none

/-- The tree after a folder has been made, unless it is there already. -/
def Tree.withFolder? (t : Tree) (p : Path) : Option Tree :=
  if t.isFolder p then some t
  else
    match t.locate false p with
    | .free key _ => some (t.put key .folder)
    | _ => none

/-- The tree after a file has been written. A way that ends in a slash leads to no file. -/
def Tree.withFile? (t : Tree) (p : Path) (content : Content) : Option Tree :=
  match t.locate true p with
  | .free key slash => if slash then none else some (t.put key (.file content))
  | .taken key =>
    match t.entry? key with
    | some (.file _) => some (t.put key (.file content))
    | _ => none
  | .nowhere => none

/-- The tree after a file or a link has been deleted. -/
def Tree.withoutFile? (t : Tree) (p : Path) : Option Tree :=
  match t.locate false p with
  | .taken key => if t.entry? key = some .folder then none else some (t.erase key)
  | _ => none

/-- The tree after an empty folder has been removed. -/
def Tree.withoutFolder? (t : Tree) (p : Path) : Option Tree :=
  match t.locate false p with
  | .taken key =>
    if t.entry? key = some .folder && (t.inside key).isEmpty && !key.isEmpty then
      some (t.erase key)
    else none
  | _ => none

/-- Whether a path leads to a folder with nothing in it, if it leads to a folder at all. -/
def Tree.isEmptyFolder? (t : Tree) (p : Path) : Option Bool :=
  match t.locate true p with
  | .taken key => if t.entry? key = some .folder then some (t.inside key).isEmpty else none
  | _ => none

namespace Disk

/-- Changes the tree, or fails with `error`. -/
def change (f : Tree → Option Tree) (error : DiskError) : Disk Unit := do
  match f (← get) with
  | some t => set t
  | none => throw error

/-- Makes the folder that a path names, after those that contain it. The empty path names a
folder that is there. -/
def makeFolder (p : Path) : Disk Unit :=
  if p.text.isEmpty then pure ()
  else if !p.isUsable then throw (.createFolder p)
  else
    ((p :: p.ancestors).reverse.filter fun folder => !folder.text.isEmpty).forM fun folder =>
      change (·.withFolder? folder) (.createFolder p)

/-- Writes a file and makes the folders that contain it. -/
def write (p : Path) (content : Content) : Disk Unit := do
  match p.parent? with
  | some folder => makeFolder folder
  | none => pure ()
  change (·.withFile? p content) (.write p)

/-- Deletes a file. -/
def delete (p : Path) : Disk Unit := change (·.withoutFile? p) (.delete p)

/-- Removes the folders that are empty, up to the first one that is not. -/
def prune : List Path → Disk Unit
  | [] => pure ()
  | folder :: folders => do
    match (← get).isEmptyFolder? folder with
    | none => throw (.list folder)
    | some false => pure ()
    | some true => do
      change (·.withoutFolder? folder) (.remove folder)
      prune folders

end Disk

end Declgen.Files
