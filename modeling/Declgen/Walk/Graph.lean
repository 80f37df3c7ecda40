import Declgen.GenerateError
import Declgen.Model.Arena

/-!
# The graph of types

While a model is walked, replacing type parameters by arguments makes new types. The graph holds
the types of the model together with these, which are numbered on from the end of the model.
The model itself never changes.
-/

namespace Declgen.Walk

open Model

/-- The types of a model and those made from them. -/
structure Graph where
  /-- The model. -/
  model : Arena
  /-- The types made so far. -/
  made : Array Descriptor

namespace Graph

/-- The number of types. -/
def size (g : Graph) : Nat := g.model.size + g.made.size

/-- The type with a given number. -/
def get (g : Graph) (id : TypeId) : Except GenerateError Descriptor :=
  if id < g.model.size then (g.model.get id).mapError .model
  else
    match g.made[id - g.model.size]? with
    | some d => .ok d
    | none => .error (.model (.outOfRange id))

/-- Adds a type and gives its number. -/
def add (g : Graph) (d : Descriptor) : Graph × TypeId :=
  ({ g with made := g.made.push d }, g.size)

/-- The record behind an instantiation. Only the model holds records. -/
def definition (g : Graph) (id : TypeId) (count : Nat) : Except GenerateError ComplexType :=
  (g.model.genericDefinition id count).mapError .model

/-- The label of a type, looking through at most `depth` definitions. -/
def labelWithin (g : Graph) : Nat → TypeId → String
  | 0, id => showId id
  | depth + 1, id =>
    match g.get id with
    | .ok (.complex c) => c.qualifiedName
    | .ok (.enum e) => e.qualifiedName
    | .ok (.instantiation definition _) => labelWithin g depth definition ++ "<...>"
    | .ok (.parameter name) => name
    | .ok d => d.kindName ++ " " ++ showId id
    | .error _ => showId id

/-- A short label of a type for messages. -/
def label (g : Graph) (id : TypeId) : String := g.labelWithin (g.size + 1) id

end Graph

/-- Computations that may add types to the graph. -/
abbrev Growing := StateT Graph (Except GenerateError)

end Declgen.Walk
