import Declgen.Text.Bytes
import Declgen.Text.Split

/-!
# Paths

A path is a text that names a place in a tree of files. Its segments are separated by slashes.
Two paths that differ as texts may have the same components, because empty segments and single
dots say nothing except at the start.
-/

namespace Declgen.Files

/-- A path, as it is written. -/
structure Path where
  /-- The text of the path. -/
  text : String
deriving DecidableEq

/-- A part of a path that says where to go. -/
inductive Component where
  /-- The top of all places, at the start of an absolute path. -/
  | root
  /-- The present place, where a path says so at its start. -/
  | here
  /-- The folder that contains the present one. -/
  | up
  /-- The entry with this name. -/
  | name (name : String)
deriving DecidableEq

namespace Path

/-- Whether a path starts at the root. -/
def isAbsolute (p : Path) : Bool := p.text.toList.head? = some '/'

/-- The segments between the slashes of a path. -/
def segments (p : Path) : List String := Text.splitAt '/' p.text

/-- The most bytes of a path that a file system takes. -/
def byteLimit : Nat := 4095

/-- The most bytes of the name of an entry. -/
def nameLimit : Nat := 255

/-- Whether a file system takes a path: it is neither empty nor too long and holds no null
character. -/
def isUsable (p : Path) : Bool :=
  !p.text.isEmpty && Text.byteLength p.text.toList ≤ byteLimit && !p.text.toList.contains '\x00'

/-- Whether an entry may have a name. -/
def isUsableName (name : String) : Bool := Text.byteLength name.toList ≤ nameLimit

/-- Whether a segment stays where it is. -/
def isIdle (segment : String) : Bool := segment = "" || segment = "."

/-- The component of a segment that is not idle. -/
def component (segment : String) : Component := if segment = ".." then .up else .name segment

/-- The components of segments that follow the start of a path. -/
def inner (segments : List String) : List Component :=
  (segments.filter fun segment => !isIdle segment).map component

/-- The components of a path. -/
def components (p : Path) : List Component :=
  match p.segments with
  | [] => []
  | first :: rest =>
    if p.isAbsolute then .root :: inner rest
    else if first = "." then .here :: inner rest
    else inner (first :: rest)

/-- Whether two paths have the same components. -/
def same (p q : Path) : Bool := p.components = q.components

/-- Whether the components of a path start with those of another. -/
def startsWith (p base : Path) : Bool := base.components.isPrefixOf p.components

/-- A path taken from a base. An absolute path stays as it is. -/
def join (base p : Path) : Path :=
  if p.isAbsolute then p
  else if base.text.isEmpty || base.text.toList.getLast? = some '/' then ⟨base.text ++ p.text⟩
  else ⟨base.text ++ "/" ++ p.text⟩

/-- The path whose segments are `first` and the others, where the first one of an absolute path
is empty. -/
def ofSegments (absolute : Bool) (first : String) (others : List String) : Path :=
  if absolute && others.isEmpty then ⟨"/"⟩ else ⟨String.intercalate "/" (first :: others)⟩

/-- The segments without the idle ones at their end. -/
def dropIdle (segments : List String) : List String :=
  (segments.reverse.dropWhile isIdle).reverse

/-- The path of the folder that contains what a path names; the root and the empty path have
none. -/
def parent? (p : Path) : Option Path :=
  match p.segments with
  | [] => none
  | first :: rest =>
    match dropIdle rest with
    | [] => if first = "" then none else some ⟨""⟩
    | others => some (ofSegments p.isAbsolute first (dropIdle others.dropLast))

/-- The folders that contain what a path names, the nearest first, as far as `fuel` goes. -/
def ancestorsWithin : Nat → Path → List Path
  | 0, _ => []
  | fuel + 1, p =>
    match p.parent? with
    | some q => q :: ancestorsWithin fuel q
    | none => []

/-- The folders that contain what a path names, the nearest first. Each has fewer segments than
the one before it. -/
def ancestors (p : Path) : List Path := ancestorsWithin p.segments.length p

/-- The last name of a path, if its last component is one. -/
def fileName? (p : Path) : Option String :=
  match p.components.getLast? with
  | some (.name name) => some name
  | _ => none

/-- What follows the last dot of the last name of a path. A name that starts with its only dot
has no extension. -/
def extension? (p : Path) : Option String :=
  match p.fileName? with
  | none => none
  | some name =>
    let (after, before) := name.toList.reverse.span (· ≠ '.')
    if before.length ≤ 1 then none else some (String.ofList after.reverse)

/-- The text of the components of a path that follow those of a base. -/
def relativeTo? (p base : Path) : Option String :=
  if p.startsWith base then
    some (String.intercalate "/" ((p.components.drop base.components.length).map fun
      | .root => "/"
      | .here => "."
      | .up => ".."
      | .name name => name))
  else none

end Path

end Declgen.Files
