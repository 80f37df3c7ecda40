import Declgen.Document.Syntax
import Declgen.Model.Arena
import Declgen.Text.Split

/-!
# Loading model documents

A slot is reserved for every definition before any of them is resolved, so that definitions may
refer to each other in any order and in circles. The parts of type expressions get their slots
after these, each part before the whole.
-/

namespace Declgen.Document

open Model

/-- A model that was loaded from a document. -/
structure LoadedModel where
  /-- The model. -/
  model : Arena
  /-- The roots that the document names. -/
  roots : List TypeId
  /-- The definitions in order, each with its qualified name. -/
  names : List (String × TypeId)

/-- Reserves a slot for each definition. -/
def reserveAll : List Definition → Arena → List (String × TypeId) →
    Except ModelError (Arena × List (String × TypeId))
  | [], model, names => .ok (model, names)
  | d :: definitions, model, names =>
    if (names.lookup d.qualifiedName).isSome then .error (.duplicateDefinition d.qualifiedName)
    else
      let (model, id) := model.reserve
      reserveAll definitions model (names ++ [(d.qualifiedName, id)])

/-- What stands before the last dot of a name. -/
def enclosing (name : String) : Option String :=
  match (Text.splitAt '.' name).dropLast with
  | [] => none
  | parts => some (String.intercalate "." parts)

/-- The definition that a name stands for inside `referrer`: the one with that very name, else
the one with that name beside the referrer. -/
def lookup (names : List (String × TypeId)) (referrer name : String) : Except ModelError TypeId :=
  let beside := (enclosing referrer).bind fun space => names.lookup (space ++ "." ++ name)
  match (names.lookup name).or beside with
  | some id => .ok id
  | none => .error (.unknownType name referrer)

/-- The state of loading. -/
structure Loading where
  /-- The slots made so far. -/
  model : Arena
  /-- The instantiations met so far: what they instantiate, and with how many arguments. -/
  instantiations : Array (TypeId × Nat)

/-- Steps of loading. -/
abbrev Loader := StateT Loading (Except ModelError)

/-- Adds a descriptor to the model. -/
def addType (d : Descriptor) : Loader TypeId := fun s =>
  let (model, id) := s.model.add d
  .ok (id, { s with model := model })

/-- Notes an instantiation, to be checked when every definition is in place. -/
def noteInstantiation (definition : TypeId) (count : Nat) : Loader Unit :=
  modify fun s => { s with instantiations := s.instantiations.push (definition, count) }

mutual

/-- Gives a type expression its slots. -/
def resolve (names : List (String × TypeId)) (referrer : String) : TypeExpr → Loader TypeId
  | .primitive kind => addType (.primitive kind)
  | .ref name => lookup names referrer name
  | .nullable inner => do addType (.nullable (← resolve names referrer inner))
  | .array element => do addType (.array (← resolve names referrer element))
  | .dictionary key value => do
    let key ← resolve names referrer key
    let value ← resolve names referrer value
    addType (.dictionary key value)
  | .parameter name => addType (.parameter name)
  | .generic definition arguments => do
    let definition ← lookup names referrer definition
    let arguments ← resolveList names referrer arguments
    noteInstantiation definition arguments.length
    addType (.instantiation definition arguments)

/-- Gives several type expressions their slots. -/
def resolveList (names : List (String × TypeId)) (referrer : String) :
    List TypeExpr → Loader (List TypeId)
  | [] => pure []
  | e :: es => do
    let id ← resolve names referrer e
    return id :: (← resolveList names referrer es)

end

/-- The first name that occurs twice. -/
def firstRepeated? : List String → List String → Option String
  | _, [] => none
  | seen, name :: names =>
    if seen.contains name then some name else firstRepeated? (name :: seen) names

/-- Resolves the members of a record, after those named `seen`. -/
def resolveMembers (names : List (String × TypeId)) (owner : String) :
    List String → List MemberDef → Loader (List Member)
  | _, [] => pure []
  | seen, m :: members => do
    if seen.contains m.name then throw (.duplicateMember owner m.name)
    let type ← resolve names owner m.type
    return ⟨m.name, type, m.optional, m.nullable, m.doc⟩ ::
      (← resolveMembers names owner (m.name :: seen) members)

/-- The descriptor of a definition. -/
def describe (names : List (String × TypeId)) (d : Definition) : Loader Descriptor := do
  let owner := d.qualifiedName
  match d with
  | .enum e =>
    match firstRepeated? [] (e.members.map (·.name)) with
    | some name => throw (.duplicateMember owner name)
    | none => pure (.enum e)
  | .complex c =>
    let base ←
      match c.base with
      | some e => some <$> resolve names owner e
      | none => pure none
    let members ← resolveMembers names owner [] c.members
    pure (.complex ⟨c.name, c.space, c.typeParams, base, members⟩)

/-- Defines the slots of the definitions, which are numbered from `id` on. -/
def defineAll (names : List (String × TypeId)) : TypeId → List Definition → Loader Unit
  | _, [] => pure ()
  | id, d :: definitions => do
    let descriptor ← describe names d
    let s ← get
    set { s with model := ← s.model.define id descriptor }
    defineAll names (id + 1) definitions

/-- The types that root names stand for. -/
def rootTypes (names : List (String × TypeId)) (roots : List String) :
    Except ModelError (List TypeId) :=
  roots.mapM fun root =>
    match names.lookup root with
    | some id => .ok id
    | none => .error (.unknownType root "roots")

/-- The model of a document. -/
def load (d : ModelDocument) : Except ModelError LoadedModel := do
  let (model, names) ← reserveAll d.definitions Arena.empty []
  let ((), s) ← (defineAll names 0 d.definitions).run ⟨model, #[]⟩
  s.instantiations.toList.forM fun (definition, count) =>
    (s.model.genericDefinition definition count).map fun _ => ()
  let roots ← rootTypes names d.roots
  pure ⟨s.model, roots, names⟩

/-- The roots of a generation: those with the given names. If none is given they are the roots of
the document, and all its definitions if it names none either. -/
def LoadedModel.resolveRoots (m : LoadedModel) (names : List String) :
    Except ModelError (List TypeId) :=
  if !names.isEmpty then rootTypes m.names names
  else if m.roots.isEmpty then .ok (m.names.map (·.2))
  else .ok m.roots

end Declgen.Document
