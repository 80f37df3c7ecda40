import Declgen.Model.Error

/-!
# The arena of a type model

A model stores its descriptors in numbered slots. A slot may be reserved first and defined
later, which is how descriptors come to refer to each other in circles.
-/

namespace Declgen.Model

/-- The descriptors of a model; a reserved slot that has not been defined holds nothing. -/
structure Arena where
  /-- The slots in the order of their numbers. -/
  slots : Array (Option Descriptor)
deriving DecidableEq

namespace Arena

/-- The model without any type. -/
def empty : Arena := ⟨#[]⟩

/-- The number of slots. -/
def size (a : Arena) : Nat := a.slots.size

/-- Adds a descriptor and gives its number. -/
def add (a : Arena) (d : Descriptor) : Arena × TypeId := (⟨a.slots.push (some d)⟩, a.size)

/-- Reserves a slot and gives its number. -/
def reserve (a : Arena) : Arena × TypeId := (⟨a.slots.push none⟩, a.size)

/-- Defines a reserved slot. -/
def define (a : Arena) (id : TypeId) (d : Descriptor) : Except ModelError Arena :=
  match a.slots[id]? with
  | none => .error (.outOfRange id)
  | some (some _) => .error (.alreadyDefined id)
  | some none => .ok ⟨a.slots.setIfInBounds id (some d)⟩

/-- The descriptor with a given number. -/
def get (a : Arena) (id : TypeId) : Except ModelError Descriptor :=
  match a.slots[id]? with
  | none => .error (.outOfRange id)
  | some none => .error (.unresolved id)
  | some (some d) => .ok d

/-- The record that an instantiation with a given number of arguments refers to. -/
def genericDefinition (a : Arena) (definition : TypeId) (count : Nat) :
    Except ModelError ComplexType :=
  match a.get definition with
  | .error e => .error e
  | .ok (.complex c) =>
    if c.typeParams.length = count then .ok c
    else .error (.arityMismatch c.qualifiedName c.typeParams.length count)
  | .ok d => .error (.notGeneric definition d.kindName)

/-- The numbers of all records and enumerations, in ascending order. -/
def namedTypes (a : Arena) : List TypeId :=
  (List.range a.size).filter fun id =>
    match a.slots[id]? with
    | some (some (.complex _)) | some (some (.enum _)) => true
    | _ => false

/-- The first record or enumeration with a given qualified name. -/
def find (a : Arena) (name : String) : Option TypeId :=
  a.namedTypes.find? fun id =>
    match a.get id with
    | .ok d => d.qualifiedName? == some name
    | .error _ => false

end Arena

end Declgen.Model
