import Declgen.Walk.Graph

/-!
# Replacing type parameters

A type with type parameters becomes a type without them when each parameter is replaced by an
argument. Types in which nothing changes keep their number; all others are added to the graph.
-/

namespace Declgen.Walk

open Model

/-- Type parameters and the arguments bound to them. The first binding of a name counts. -/
abbrev Bindings := List (String × TypeId)

/-- A bound on the depth of types written out in full. It exceeds the number of types, and no
type that does not contain itself is deeper than that. -/
def Graph.depthBound (g : Graph) : Nat := (g.size + 1) * (g.size + 1)

/-- Adds a type to the graph. -/
def addType (d : Descriptor) : Growing TypeId := fun g =>
  let (g, id) := g.add d
  .ok (id, g)

/-- The number of the type itself if its parts are unchanged, else that of a new type. -/
def keepOrAdd (id : TypeId) (unchanged : Bool) (d : Descriptor) : Growing TypeId :=
  if unchanged then pure id else addType d

/-- Replaces parameters in a type that stands below the types `above`, at most `depth` levels
deep. -/
def substituteWithin (bindings : Bindings) : Nat → List TypeId → TypeId → Growing TypeId
  | 0, _, id => do throw (.unsupported ((← get).label id) .containsItself)
  | depth + 1, above, id => do
    if above.contains id then throw (.unsupported ((← get).label id) .containsItself)
    let part := substituteWithin bindings depth (id :: above)
    match ← (← get).get id with
    | .parameter name => pure ((bindings.lookup name).getD id)
    | .nullable inner =>
      let inner' ← part inner
      keepOrAdd id (inner' == inner) (.nullable inner')
    | .array element =>
      let element' ← part element
      keepOrAdd id (element' == element) (.array element')
    | .dictionary key value =>
      let key' ← part key
      let value' ← part value
      keepOrAdd id (key' == key && value' == value) (.dictionary key' value')
    | .instantiation definition arguments =>
      let arguments' ← arguments.mapM part
      keepOrAdd id (arguments' == arguments) (.instantiation definition arguments')
    | .primitive _ | .enum _ | .complex _ => pure id

/-- Replaces parameters in a type. -/
def substitute (bindings : Bindings) (id : TypeId) : Growing TypeId := do
  if bindings.isEmpty then pure id
  else substituteWithin bindings (← get).depthBound [] id

/-- Whether a parameter occurs in a type that stands below the types `above`, at most `depth`
levels deep. -/
def mentionsParameterWithin (g : Graph) : Nat → List TypeId → TypeId → Except GenerateError Bool
  | 0, _, id => .error (.cyclicName (g.label id))
  | depth + 1, above, id =>
    if above.contains id then .error (.cyclicName (g.label id))
    else do
      let part := mentionsParameterWithin g depth (id :: above)
      match ← g.get id with
      | .parameter _ => pure true
      | .nullable inner => part inner
      | .array element => part element
      | .dictionary key value => do if ← part key then pure true else part value
      | .instantiation _ arguments => return (← arguments.mapM part).any fun found => found
      | .primitive _ | .enum _ | .complex _ => pure false

/-- Whether a parameter occurs in a type. -/
def mentionsParameter (g : Graph) (id : TypeId) : Except GenerateError Bool :=
  mentionsParameterWithin g (g.size + 1) [] id

end Declgen.Walk
