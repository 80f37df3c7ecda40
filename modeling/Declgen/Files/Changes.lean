import Declgen.Files.Tree

/-!
# Changes between trees

What has to be done to turn one tree into another, key by key.
-/

namespace Declgen.Files

/-- What happened to the entry with a key. -/
inductive Change where
  /-- It was taken out. -/
  | gone (key : Key) (entry : Entry)
  /-- It was put there. -/
  | placed (key : Key) (entry : Entry)
deriving DecidableEq

/-- The changes from one entry to another one with the same key. Only a file can take the place of
a file without more ado. -/
def changesAt (key : Key) (old new : Entry) : List Change :=
  if old = new then []
  else
    match old, new with
    | .file _, .file _ => [.placed key new]
    | _, _ => [.gone key old, .placed key new]

/-- The changes from one ordered list of entries to another, in the order of the keys. -/
def changesBetween : List (Key × Entry) → List (Key × Entry) → List Change
  | [], [] => []
  | (key, entry) :: old, [] => .gone key entry :: changesBetween old []
  | [], (key, entry) :: new => .placed key entry :: changesBetween [] new
  | (key, entry) :: old, (key', entry') :: new =>
    if key = key' then changesAt key entry entry' ++ changesBetween old new
    else if key < key' then .gone key entry :: changesBetween old ((key', entry') :: new)
    else .placed key' entry' :: changesBetween ((key, entry) :: old) new
termination_by old new => old.length + new.length

/-- The changes from one tree to another. -/
def Tree.changes (old new : Tree) : List Change := changesBetween old.entries new.entries

end Declgen.Files
