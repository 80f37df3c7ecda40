import Declgen.Files.Path

/-!
# File trees

A tree of folders, files and symbolic links. Every entry is listed under its key, the names that
lead to it from the top, and the keys are in order: a folder comes just before what it contains.
A path is followed through the tree name by name, and through the links that it meets. An absolute
path starts at the top, any other path at the home of the tree.
-/

namespace Declgen.Files

/-- What a file holds. -/
inductive Content where
  /-- A text. -/
  | text (s : String)
  /-- Bytes that are no text. -/
  | bytes (bs : List UInt8)
deriving DecidableEq

/-- An entry of a tree. -/
inductive Entry where
  /-- A file. -/
  | file (content : Content)
  /-- A symbolic link. -/
  | link (target : String)
  /-- A folder. -/
  | folder
deriving DecidableEq

/-- The names that lead from the top of a tree to an entry. -/
abbrev Key := List String

/-- The entries of a tree under their keys, in the order of the keys. -/
structure Tree where
  /-- The folder that paths start from. -/
  home : Key
  /-- The keys and the entries. -/
  entries : List (Key × Entry)
deriving DecidableEq

/-- Puts an entry into its place in an ordered list, instead of one with the same key. -/
def putEntry (key : Key) (entry : Entry) : List (Key × Entry) → List (Key × Entry)
  | [] => [(key, entry)]
  | (other, old) :: entries =>
    if key = other then (key, entry) :: entries
    else if key < other then (key, entry) :: (other, old) :: entries
    else (other, old) :: putEntry key entry entries

/-- Where a path leads. -/
inductive Site where
  /-- To an entry. -/
  | taken (key : Key)
  /-- To a free place in a folder. If a slash ends the way, the place is only for a folder. -/
  | free (key : Key) (slash : Bool)
  /-- Nowhere. -/
  | nowhere
deriving DecidableEq

namespace Tree

/-- The tree with nothing but the folders that lead to its home. -/
def new (home : Key) : Tree :=
  ⟨home, (List.range home.length).map fun n => (home.take (n + 1), .folder)⟩

/-- The entry with a key. The top is a folder. -/
def entry? (t : Tree) (key : Key) : Option Entry :=
  if key.isEmpty then some .folder else t.entries.lookup key

/-- Puts an entry into a tree. -/
def put (t : Tree) (key : Key) (entry : Entry) : Tree :=
  { t with entries := putEntry key entry t.entries }

/-- Takes the entry with a key out of a tree. -/
def erase (t : Tree) (key : Key) : Tree :=
  { t with entries := t.entries.filter fun (other, _) => other ≠ key }

/-- The entries inside a folder, at any depth, under the names that lead to them from there. -/
def inside (t : Tree) (folder : Key) : List (Key × Entry) :=
  t.entries.filterMap fun (key, entry) =>
    if folder.isPrefixOf key && folder.length < key.length then
      some (key.drop folder.length, entry)
    else none

/-- Follows segments from a folder; above the top is the top. At most `links` links are followed,
and a link at the end only if `follow` says so. -/
def walk (t : Tree) (follow : Bool) (links : Nat) (here : Key) : List String → Site
  | [] => .taken here
  | segment :: rest =>
    if t.entry? here ≠ some .folder then .nowhere
    else if Path.isIdle segment then t.walk follow links here rest
    else if segment = ".." then t.walk follow links here.dropLast rest
    else
      let key := here ++ [segment]
      match t.entry? key with
      | none =>
        if rest.all (·.isEmpty) && Path.isUsableName segment then .free key !rest.isEmpty
        else .nowhere
      | some (.link target) =>
        if rest.isEmpty && !follow then .taken key
        else
          match links with
          | 0 => .nowhere
          | links + 1 =>
            let start := if Path.isAbsolute ⟨target⟩ then [] else here
            t.walk follow links start (Path.segments ⟨target⟩ ++ rest)
      | some _ => t.walk follow links key rest
termination_by segments => (links, segments.length)

/-- The most links that are followed on the way to one entry. -/
def linkLimit : Nat := 40

/-- Where a path leads. A path that no file system takes leads nowhere. -/
def locate (t : Tree) (follow : Bool) (p : Path) : Site :=
  if !p.isUsable then .nowhere
  else t.walk follow linkLimit (if p.isAbsolute then [] else t.home) p.segments

/-- The entry that a path leads to, links followed. -/
def get? (t : Tree) (p : Path) : Option Entry :=
  match t.locate true p with
  | .taken key => t.entry? key
  | _ => none

/-- Whether a path leads to a folder. -/
def isFolder (t : Tree) (p : Path) : Bool := t.get? p = some .folder

end Tree

end Declgen.Files
