import Declgen.Plan.Files
import Declgen.Walk.Build

/-!
# Walking a model

A walk starts from roots and builds the unit of every named type that it meets, in the order in
which they are met. It ends because names nest at most 32 levels deep, so that a model has only
finitely many units to offer.
-/

namespace Declgen.Walk

open Model Declgen.Units

/-- Meets a root: a record or an enumeration is reserved, any other type contributes the units
that it mentions, and a type that the hook replaces contributes nothing. -/
def meetRoot (setup : Setup) (s : State) (id : TypeId) : Except GenerateError State := do
  let d ← s.graph.get id
  match setup.hook d with
  | some _ => pure s
  | none =>
    let ctx : Context := ⟨s.graph, setup.options, setup.hook, []⟩
    match d with
    | .complex _ | .enum _ =>
      let (_, progress) ← (unitFor s.graph id).run s.progress
      pure { s with progress := progress }
    | _ =>
      let (_, progress) ← (convert ctx id).run s.progress
      pure { s with progress := progress }

/-- Builds up to `2 ^ k` units, fewer if none is left. -/
def buildUpTo (setup : Setup) : Nat → State → Except GenerateError State
  | 0, s => step setup s
  | k + 1, s => do
    let s ← buildUpTo setup k s
    if s.progress.queue.isEmpty then pure s else buildUpTo setup k s

/-- Builds units in batches of `2 ^ k`, `2 ^ (k + 1)` and so on until none is left, in at most
`batches` batches. -/
def buildAll (setup : Setup) : Nat → Nat → State → Except GenerateError State
  | 0, _, s => pure s
  | batches + 1, k, s => do
    let s ← buildUpTo setup k s
    if s.progress.queue.isEmpty then pure s else buildAll setup batches (k + 1) s

/-- The number of type parameters of a record, or of arguments of an instantiation. -/
def arity : Descriptor → Nat
  | .complex c => c.typeParams.length
  | .instantiation _ arguments => arguments.length
  | _ => 0

/-- The greatest number of type parameters or arguments in the model. -/
def maxArity (a : Arena) : Nat :=
  a.slots.foldl (fun most slot => max most ((slot.map arity).getD 0)) 0

/-- Enough batches for every model: there are fewer than `2 ^ batchBound a` names of at most 32
levels. -/
def batchBound (a : Arena) : Nat := (a.size + 8) * Nat.pow (maxArity a + 3) (nameLevels + 1)

/-- The state in which everything that can be reached from the roots has been met and built. The
registry may hold units already. -/
def explore (setup : Setup) (units : Registry) (model : Arena) (roots : List TypeId) :
    Except GenerateError State := do
  let start : State := ⟨⟨model, #[]⟩, ⟨units, []⟩⟩
  let s ← roots.foldlM (meetRoot setup) start
  buildAll setup (batchBound model) 0 s

/-- The units of everything that can be reached from the roots, after those of a registry that
may hold units already. -/
def walk (setup : Setup) (units : Registry) (model : Arena) (roots : List TypeId) :
    Except GenerateError (List Completed) := do
  let s ← explore setup units model roots
  s.progress.units.completed

end Declgen.Walk

namespace Declgen

open Model

/-- The units and files of a generation. -/
structure Generation where
  /-- The units. -/
  units : List Units.Completed
  /-- The files. -/
  files : List Plan.PlannedFile

/-- Generates declarations for everything that can be reached from the roots. -/
def generate (setup : Walk.Setup) (units : Units.Registry) (model : Arena) (roots : List TypeId) :
    Except GenerateError Generation := do
  let units ← Walk.walk setup units model roots
  pure ⟨units, Plan.files setup.options units⟩

end Declgen
