/-!
# Sets of imports

A set of pairs of a module and a name in it. Modules are listed in the order in which they were
first added until they are sorted; the names of a module are always in order and each is there
once.
-/

namespace Declgen.Plan

/-- The imports of a file, grouped by module. -/
structure ImportSet where
  /-- The modules, each with the names imported from it. -/
  entries : List (String × List String)
deriving DecidableEq

/-- Puts a name into its place in a sorted list, unless it is there already. -/
def insertName (name : String) : List String → List String
  | [] => [name]
  | other :: names =>
    if name = other then other :: names
    else if name < other then name :: other :: names
    else other :: insertName name names

namespace ImportSet

/-- The set without any import. -/
def empty : ImportSet := ⟨[]⟩

/-- Puts names into the entry of a module, or into a new last entry if it has none. -/
def addNames (module : String) (names : List String) :
    List (String × List String) → List (String × List String)
  | [] => [(module, names.foldl (fun set name => insertName name set) [])]
  | (other, set) :: entries =>
    if other = module then
      (other, names.foldl (fun set name => insertName name set) set) :: entries
    else (other, set) :: addNames module names entries

/-- Adds a name of a module. -/
def add (s : ImportSet) (module name : String) : ImportSet :=
  ⟨addNames module [name] s.entries⟩

/-- Adds all imports of another set. -/
def merge (s t : ImportSet) : ImportSet :=
  ⟨t.entries.foldl (fun entries (module, names) => addNames module names entries) s.entries⟩

/-- Lists the modules in order. -/
def sort (s : ImportSet) : ImportSet :=
  ⟨s.entries.mergeSort fun a b => decide (a.1 ≤ b.1)⟩

/-- Whether something is imported from a module. -/
def hasModule (s : ImportSet) (module : String) : Bool := s.entries.any (·.1 == module)

/-- Whether a name of a module is imported. -/
def hasName (s : ImportSet) (module name : String) : Bool :=
  s.entries.any fun (other, names) => other == module && names.contains name

/-- The number of modules. -/
def size (s : ImportSet) : Nat := s.entries.length

end ImportSet

end Declgen.Plan
