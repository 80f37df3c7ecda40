import Declgen.Options
import Declgen.Walk.Identity
import Declgen.Walk.Substitution

/-!
# From types to type expressions

Named types become references to units, which are reserved when they are first met and queued
to be built. All other types are written out in place. A hook may give a type another form.
-/

namespace Declgen.Walk

open Model TypeScript Declgen.Units

/-- A choice of another form for some types. -/
abbrev Hook := Descriptor → Option Expr

/-- A unit that has been reserved and waits to be built. -/
structure Pending where
  /-- The unit. -/
  unit : UnitId
  /-- The type it is built from. -/
  source : TypeId

/-- How far the discovery of units has come. -/
structure Progress where
  /-- The units. -/
  units : Registry
  /-- The units that wait, in the order in which they were met. -/
  queue : List Pending

/-- Computations that may meet new units. -/
abbrev Discovery := StateT Progress (Except GenerateError)

/-- What a conversion depends on and does not change. -/
structure Context where
  /-- The types. -/
  graph : Graph
  /-- The options of the generation. -/
  options : Options
  /-- The hook. -/
  hook : Hook
  /-- The type parameters of the declaration that is being built. -/
  scope : List String

/-- The declared name of a unit. -/
def unitName (units : Registry) (id : UnitId) : String :=
  ((units.header? id).map (·.name)).getD ""

/-- The unit of a named type, with its name. A unit that is met for the first time is queued. -/
def unitFor (g : Graph) (id : TypeId) : Discovery (UnitId × String) := do
  let key ← identity g id
  let progress ← get
  match progress.units.lookup key with
  | some unit => pure (unit, unitName progress.units unit)
  | none =>
    let header ← header g id
    let (units, reservation) ← progress.units.reserve key header
    set (Progress.mk units (progress.queue ++ [⟨reservation.id, id⟩]))
    pure (reservation.id, header.name)

/-- The keyword for a primitive type. Dates travel as ISO text and binary data as base64. -/
def primitiveKeyword : Primitive → Keyword
  | .integer | .float => .number
  | .boolean => .boolean
  | .string | .date | .binary => .string

/-- A reference to the unit of a named type. -/
def referenceTo (g : Graph) (id : TypeId) : Discovery Expr := do
  let (unit, name) ← unitFor g id
  pure (.reference unit name)

/-- The word for the kind of a dictionary key. -/
def keyWord : Descriptor → String
  | .primitive kind => kind.name
  | d => d.kindName

/-- A dictionary whose values have been converted: text and numbers as keys give an index, an
enumeration gives one optional field for each of its values. -/
def dictionaryOf (g : Graph) (id : TypeId) (keyType : Descriptor) (key : Discovery Expr)
    (value : Expr) : Discovery Expr := do
  match keyType with
  | .primitive .string | .primitive .date => pure (.index (.keyword .string) value)
  | .primitive .integer | .primitive .float => pure (.index (.keyword .number) value)
  | .enum _ => return .mapped (← key) value true
  | d =>
    let name := match identity g id with
      | .ok name => name
      | .error _ => g.label id
    throw (.unsupported name (.dictionaryKey (keyWord d)))

/-- Converts a type that stands within the types `within`, at most `depth` levels deep. -/
def convertWithin (ctx : Context) : Nat → List TypeId → TypeId → Discovery Expr
  | 0, _, id => throw (.unsupported (ctx.graph.label id) .containsItself)
  | depth + 1, within, id => do
    let d ← ctx.graph.get id
    match ctx.hook d with
    | some e => pure e
    | none =>
      if within.contains id then
        throw (.unsupported (ctx.graph.label id) .containsItself)
      let part := convertWithin ctx depth (id :: within)
      match d with
      | .primitive kind => pure (.keyword (primitiveKeyword kind))
      | .nullable inner => return (← part inner).nullable
      | .array element => return .array (← part element)
      | .dictionary key value =>
        let keyType ← ctx.graph.get key
        let value' ← part value
        dictionaryOf ctx.graph id keyType (part key) value'
      | .enum _ => referenceTo ctx.graph id
      | .complex c =>
        if c.isGeneric then
          throw (.unsupported c.qualifiedName (.missingArguments c.typeParams.length))
        referenceTo ctx.graph id
      | .parameter name =>
        if !ctx.scope.contains name then throw (.unsupported name .unboundParameter)
        pure (.parameter name)
      | .instantiation definition arguments =>
        let _ ← ctx.graph.definition definition arguments.length
        let preserved ←
          if ctx.options.generics = .preserve then pure true
          else mentionsParameter ctx.graph id
        if preserved then
          let (unit, name) ← unitFor ctx.graph definition
          return .genericReference unit name (← arguments.mapM part)
        else referenceTo ctx.graph id

/-- Converts a type. -/
def convert (ctx : Context) (id : TypeId) : Discovery Expr :=
  convertWithin ctx (ctx.graph.size + 1) [] id

end Declgen.Walk
