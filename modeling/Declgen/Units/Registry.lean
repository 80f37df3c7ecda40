import Declgen.GenerateError
import Declgen.TypeScript.Declaration

/-!
# The registry of units

A unit is one declaration of a generation. It is reserved under the identity of its source type
as soon as something refers to it, and completed once its declaration has been built. The
registry gives every identity one number and every number another name.
-/

namespace Declgen.Units

open TypeScript

/-- What is known about a unit from the start, and all that a reference to it needs. -/
structure Header where
  /-- The declared name. -/
  name : String
  /-- The namespace of the source type. -/
  space : Option String
  /-- The type parameters. -/
  typeParams : List String
deriving DecidableEq

/-- What completes a unit. -/
structure Body where
  /-- The declaration. -/
  declaration : Declaration
  /-- The other units that the declaration refers to, in order of first use. -/
  references : List UnitId
deriving DecidableEq

/-- A unit that may still lack its body. -/
structure Slot where
  /-- The identity of the source type. -/
  key : String
  /-- What is known from the start. -/
  header : Header
  /-- The body once it is known. -/
  body : Option Body
deriving DecidableEq

/-- A unit with its body. -/
structure Completed where
  /-- The number of the unit. -/
  id : UnitId
  /-- The identity of the source type. -/
  key : String
  /-- What is known from the start. -/
  header : Header
  /-- The rest. -/
  body : Body
deriving DecidableEq

/-- The units of a generation in the order of their numbers. -/
structure Registry where
  /-- The units reserved so far. -/
  slots : Array Slot
deriving DecidableEq

/-- Whether a reservation found its unit or made it. -/
structure Reservation where
  /-- The number of the unit. -/
  id : UnitId
  /-- Whether the unit is new. -/
  fresh : Bool
deriving DecidableEq

namespace Registry

/-- The registry without any unit. -/
def empty : Registry := ⟨#[]⟩

/-- The number of units. -/
def size (r : Registry) : Nat := r.slots.size

/-- The unit reserved for an identity. -/
def lookup (r : Registry) (key : String) : Option UnitId :=
  r.slots.findIdx? fun slot => slot.key == key

/-- Reserves a unit for an identity, or finds the one that it has. Fails if the unit would be
new and its name belongs to another identity. -/
def reserve (r : Registry) (key : String) (header : Header) :
    Except GenerateError (Registry × Reservation) :=
  match r.lookup key with
  | some id => .ok (r, ⟨id, false⟩)
  | none =>
    match r.slots.find? fun slot => slot.header.name == header.name with
    | some owner => .error (.ambiguousName header.name owner.key key)
    | none => .ok (⟨r.slots.push ⟨key, header, none⟩⟩, ⟨r.size, true⟩)

/-- Completes a reserved unit. It does not count among its own references. -/
def complete (r : Registry) (id : UnitId) (declaration : Declaration)
    (references : List UnitId) : Except GenerateError Registry :=
  match r.slots[id]? with
  | none => .ok r
  | some slot =>
    match slot.body with
    | some _ => .error (.completedTwice slot.header.name)
    | none =>
      let body : Body := ⟨declaration, references.filter (· != id)⟩
      .ok ⟨r.slots.setIfInBounds id { slot with body := some body }⟩

/-- The header of a unit. -/
def header? (r : Registry) (id : UnitId) : Option Header := (r.slots[id]?).map (·.header)

/-- Whether a unit has its body. -/
def isComplete (r : Registry) (id : UnitId) : Bool := (r.slots[id]?).any (·.body.isSome)

/-- The slots from a number on as completed units. -/
def completedFrom (start : UnitId) : List Slot → Except GenerateError (List Completed)
  | [] => .ok []
  | slot :: slots =>
    match slot.body with
    | none => .error (.neverCompleted slot.header.name)
    | some body => (completedFrom (start + 1) slots).map (⟨start, slot.key, slot.header, body⟩ :: ·)

/-- All units in the order of their numbers. Fails on the first that lacks its body. -/
def completed (r : Registry) : Except GenerateError (List Completed) :=
  completedFrom 0 r.slots.toList

end Registry

end Declgen.Units
