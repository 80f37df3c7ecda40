import Declgen.TypeScript.Naming
import Declgen.Units.Registry
import Declgen.Walk.Graph

/-!
# Identities and names of types

The identity of a type is a text that tells it from all others: named types have their qualified
name, generic records their arity as well, and all other types are spelled out. The name of an
instantiation is made from the names of its parts and nests at most 32 levels deep, so that a
generic record that uses itself with ever larger arguments is stopped.
-/

namespace Declgen.Walk

open Model

/-- The identity of a record, with its arity if it is generic. -/
def recordIdentity (c : ComplexType) : String :=
  if c.isGeneric then c.qualifiedName ++ "\x60" ++ toString c.typeParams.length
  else c.qualifiedName

/-- The identity of a type that stands below the types `above`, at most `depth` levels deep. -/
def identityWithin (g : Graph) : Nat → List TypeId → TypeId → Except GenerateError String
  | 0, _, id => .error (.cyclicName (g.label id))
  | depth + 1, above, id =>
    if above.contains id then .error (.cyclicName (g.label id))
    else do
      let part := identityWithin g depth (id :: above)
      match ← g.get id with
      | .primitive kind => pure kind.name
      | .enum e => pure e.qualifiedName
      | .complex c => pure (recordIdentity c)
      | .parameter name => pure ("!" ++ name)
      | .nullable inner => return (← part inner) ++ "?"
      | .array element => return (← part element) ++ "[]"
      | .dictionary key value =>
        return "Dictionary[" ++ (← part key) ++ "," ++ (← part value) ++ "]"
      | .instantiation definition arguments =>
        return (← part definition) ++ "[" ++
          String.intercalate "," (← arguments.mapM part) ++ "]"

/-- The identity of a type. No chain of parts without repetition is longer than the graph. -/
def identity (g : Graph) (id : TypeId) : Except GenerateError String :=
  identityWithin g (g.size + 1) [] id

/-- A name in Pascal case. -/
def pascalName (s : String) : String := String.ofList (Text.pascal s.toList)

/-- The name of a type that stands below the types `above`, at most `levels` levels deep. -/
def synthesizedWithin (g : Graph) : Nat → List TypeId → TypeId → Except GenerateError String
  | 0, above, id =>
    if above.contains id then .error (.cyclicName (g.label id))
    else .error (.unsupported (g.label id) .nestedTooDeeply)
  | levels + 1, above, id =>
    if above.contains id then .error (.cyclicName (g.label id))
    else do
      let part := synthesizedWithin g levels (id :: above)
      match ← g.get id with
      | .primitive kind => pure (pascalName kind.name)
      | .enum e => pure (pascalName e.name)
      | .complex c => pure (pascalName c.name)
      | .parameter name => pure (pascalName name)
      | .nullable inner => return "Nullable" ++ (← part inner)
      | .array element => return (← part element) ++ "Array"
      | .dictionary key value => return (← part key) ++ "To" ++ (← part value) ++ "Dictionary"
      | .instantiation definition arguments =>
        return (← part definition) ++ "Of" ++
          String.intercalate "And" (← arguments.mapM part)

/-- The greatest number of levels that the name of an instantiation has. -/
def nameLevels : Nat := 32

/-- The name made for an instantiation. -/
def synthesizedName (g : Graph) (id : TypeId) : Except GenerateError String :=
  synthesizedWithin g nameLevels [] id

/-- The header of the unit for a named type. -/
def header (g : Graph) (id : TypeId) : Except GenerateError Units.Header := do
  match ← g.get id with
  | .complex c => pure ⟨TypeScript.typeName c.name, c.space, c.typeParams⟩
  | .enum e => pure ⟨TypeScript.typeName e.name, e.space, []⟩
  | .instantiation definition arguments =>
    let c ← g.definition definition arguments.length
    let name ← synthesizedName g id
    pure ⟨TypeScript.safeName name, c.space, []⟩
  | d => .error (.unsupported (g.label id) (.notNamed d.kindName))

end Declgen.Walk
