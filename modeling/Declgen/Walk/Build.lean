import Declgen.Walk.Conversion
import Declgen.Walk.Members

/-!
# Building declarations

The declaration of a unit is built from its source type: a record or an instantiation becomes an
object type, an enumeration becomes a union or an enumeration.
-/

namespace Declgen.Walk

open Model TypeScript Declgen.Units

/-- The choices that a walk depends on. -/
structure Setup where
  /-- The options of the generation. -/
  options : Options
  /-- The hook. -/
  hook : Hook

/-- The state of a walk. -/
structure State where
  /-- The types. -/
  graph : Graph
  /-- The units met so far. -/
  progress : Progress

/-- The name of a member's field. -/
def memberField (style : FieldStyle) (name : String) : String :=
  match style with
  | .camel => fieldName name
  | .preserve => name

/-- The field of a member. -/
def convertMember (ctx : Context) (m : Member) : Discovery (TypeScript.Field Expr) := do
  let type ← convert ctx m.type
  pure ⟨memberField ctx.options.fields m.name, if m.nullable then type.nullable else type,
    m.optional, m.doc⟩

/-- The fields of members, after those that `taken` lists with the names of their members. -/
def convertMembers (ctx : Context) (unit : String) :
    List (String × String) → List Member → Discovery (List (TypeScript.Field Expr))
  | _, [] => pure []
  | taken, m :: members => do
    let field ← convertMember ctx m
    match taken.lookup field.name with
    | some other => throw (.unsupported unit (.fieldClash other m.name field.name))
    | none => return field :: (← convertMembers ctx unit ((field.name, m.name) :: taken) members)

/-- The object type of a record or an instantiation, for the unit named `unit`. -/
def objectType (setup : Setup) (s : State) (scope : List String) (unit : String) (source : TypeId) :
    Except GenerateError (Expr × State) := do
  let (members, graph) ← (membersOf source).run s.graph
  let ctx : Context := ⟨graph, setup.options, setup.hook, scope⟩
  let (fields, progress) ← (convertMembers ctx unit [] members).run s.progress
  pure (.object fields, ⟨graph, progress⟩)

/-- The declaration of an enumeration. As a union it lists every value once. -/
def enumDeclaration (style : EnumStyle) (name : String) (members : List EnumMember) :
    Declaration :=
  match style with
  | .union => .alias name [] (Expr.unionOf (members.map fun m => .literal m.value))
  | .declaration => .enum name members

/-- The declaration of the unit named `name`, built from its source type. -/
def buildDeclaration (setup : Setup) (s : State) (name : String) (source : TypeId) :
    Except GenerateError (Declaration × State) := do
  match ← s.graph.get source with
  | .enum e => pure (enumDeclaration setup.options.enums name e.members, s)
  | .complex c =>
    let (type, s) ← objectType setup s c.typeParams name source
    pure (.alias name c.typeParams type, s)
  | .instantiation .. =>
    let (type, s) ← objectType setup s [] name source
    pure (.alias name [] type, s)
  | d => throw (.unsupported (s.graph.label source) (.notDeclarable d.kindName))

/-- Builds the unit that has waited longest, if any waits. -/
def step (setup : Setup) (s : State) : Except GenerateError State :=
  match s.progress.queue with
  | [] => pure s
  | pending :: queue => do
    let s : State := { s with progress := { s.progress with queue := queue } }
    let name := unitName s.progress.units pending.unit
    let (declaration, s) ← buildDeclaration setup s name pending.source
    let units ← s.progress.units.complete pending.unit declaration declaration.references
    pure { s with progress := { s.progress with units := units } }

end Declgen.Walk
