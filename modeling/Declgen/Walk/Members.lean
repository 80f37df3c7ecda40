import Declgen.Walk.Substitution

/-!
# The members of a record

The members of a record are those of its base, in their order, followed by its own. A member
that is declared again takes the place of the inherited one. Where the base is an instantiation,
its arguments are put in for the parameters of the record it instantiates.
-/

namespace Declgen.Walk

open Model

/-- Puts a member into the place of the one with its name, or at the end if there is none. -/
def setMember (m : Member) : List Member → List Member
  | [] => [m]
  | other :: members =>
    if other.name = m.name then m :: members else other :: setMember m members

/-- Binds parameters to arguments in which `outer` has been replaced, on top of `bound`. -/
def bindArguments (outer : Bindings) : List String → List TypeId → Bindings → Growing Bindings
  | parameter :: parameters, argument :: arguments, bound => do
    let argument' ← substitute outer argument
    bindArguments outer parameters arguments ((parameter, argument') :: bound)
  | _, _, bound => pure bound

/-- A record that may be a base, with the bindings of its parameters. A record that is named
directly keeps the bindings of the record that extends it. -/
def baseRecord (bindings : Bindings) (id : TypeId) : Growing (ComplexType × Bindings) := do
  let g ← get
  match ← g.get id with
  | .complex c => pure (c, bindings)
  | .instantiation definition arguments =>
    let c ← g.definition definition arguments.length
    pure (c, ← bindArguments bindings c.typeParams arguments [])
  | d => throw (.unsupported (g.label id) (.baseNotRecord d.kindName))

/-- Adds the own members of a record, after those named `seen`, to the members `inherited`. -/
def addOwnMembers (owner : TypeId) (bindings : Bindings) :
    List String → List Member → List Member → Growing (List Member)
  | _, [], inherited => pure inherited
  | seen, m :: own, inherited => do
    if seen.contains m.name then
      throw (.unsupported ((← get).label owner) (.repeatedMember m.name))
    let type ← substitute bindings m.type
    addOwnMembers owner bindings (m.name :: seen) own
      (setMember { m with type := type } inherited)

/-- The members of a record that the records `below` extend, through at most `depth` bases. -/
def membersWithin : Nat → List TypeId → Bindings → TypeId → Growing (List Member)
  | 0, _, _, id => do throw (.unsupported ((← get).label id) .cyclicInheritance)
  | depth + 1, below, bindings, id => do
    if below.contains id then throw (.unsupported ((← get).label id) .cyclicInheritance)
    let (c, bindings) ← baseRecord bindings id
    let inherited ←
      match c.base with
      | some base => membersWithin depth (id :: below) bindings base
      | none => pure []
    addOwnMembers id bindings [] c.members inherited

/-- The members of a record or of an instantiation. Every base is named by a record of the
model, so a chain of bases without repetition is not much longer than the model. -/
def membersOf (id : TypeId) : Growing (List Member) := do
  membersWithin ((← get).model.size + 2) [] [] id

end Declgen.Walk
