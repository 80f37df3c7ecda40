import Declgen.Enumeration

/-!
# Descriptors of data types

A type model describes data types by descriptors that refer to each other by number, so that
types may be recursive. Enumerations, records and instantiations of generic records are named;
all others are written out where they are used.
-/

namespace Declgen.Model

/-- The number of a descriptor in its model. -/
abbrev TypeId := Nat

/-- A type without parts. -/
inductive Primitive where
  | integer
  | float
  | boolean
  | string
  | date
  | binary
deriving DecidableEq

namespace Primitive

/-- All primitive types. -/
def all : List Primitive := [integer, float, boolean, string, date, binary]

/-- The name of a primitive type. -/
def name : Primitive → String
  | integer => "integer"
  | float => "float"
  | boolean => "boolean"
  | string => "string"
  | date => "date"
  | binary => "binary"

/-- The primitive type with a given name. -/
def ofName? (s : String) : Option Primitive := all.find? fun p => p.name == s

/-- What is said of a name that no primitive type has. -/
def unknownMessage (s : String) : String :=
  "unknown primitive '" ++ s ++ "', expected one of " ++
    String.intercalate ", " (all.map name)

end Primitive

/-- A name with its namespace in front, if it has one that is not empty. -/
def qualify (space : Option String) (name : String) : String :=
  match space with
  | some space => if space.isEmpty then name else space ++ "." ++ name
  | none => name

/-- An enumeration. -/
structure EnumType where
  /-- The name without its namespace. -/
  name : String
  /-- The namespace. -/
  space : Option String
  /-- The members in order. -/
  members : List EnumMember
deriving DecidableEq

/-- A member of a record. -/
structure Member where
  /-- The name of the member. -/
  name : String
  /-- The type of its values. -/
  type : TypeId
  /-- Whether the member may be left out. -/
  optional : Bool
  /-- Whether its value may be null. -/
  nullable : Bool
  /-- Its documentation. -/
  doc : Option String
deriving DecidableEq

/-- A record, possibly with type parameters and a base. -/
structure ComplexType where
  /-- The name without its namespace. -/
  name : String
  /-- The namespace. -/
  space : Option String
  /-- The names of the type parameters. -/
  typeParams : List String
  /-- The type that the record extends. -/
  base : Option TypeId
  /-- The record's own members in order. -/
  members : List Member
deriving DecidableEq

/-- The name of an enumeration with its namespace. -/
def EnumType.qualifiedName (e : EnumType) : String := qualify e.space e.name

/-- The name of a record with its namespace. -/
def ComplexType.qualifiedName (c : ComplexType) : String := qualify c.space c.name

/-- Whether a record has type parameters. -/
def ComplexType.isGeneric (c : ComplexType) : Bool := !c.typeParams.isEmpty

/-- A type of a model. -/
inductive Descriptor where
  /-- A type without parts. -/
  | primitive (kind : Primitive)
  /-- Another type or null. -/
  | nullable (inner : TypeId)
  /-- A list. -/
  | array (element : TypeId)
  /-- A map from keys to values. -/
  | dictionary (key value : TypeId)
  /-- An enumeration. -/
  | enum (type : EnumType)
  /-- A record. -/
  | complex (type : ComplexType)
  /-- A type parameter. -/
  | parameter (name : String)
  /-- A generic record applied to type arguments. -/
  | instantiation (definition : TypeId) (arguments : List TypeId)
deriving DecidableEq

namespace Descriptor

/-- The kind of a descriptor in words. -/
def kindName : Descriptor → String
  | primitive _ => "primitive"
  | nullable _ => "nullable"
  | array _ => "array"
  | dictionary .. => "dictionary"
  | enum _ => "enum"
  | complex _ => "complex"
  | parameter _ => "generic parameter"
  | instantiation .. => "generic instantiation"

/-- Whether a type becomes a declaration of its own. -/
def isNamed : Descriptor → Bool
  | enum _ | complex _ | instantiation .. => true
  | _ => false

/-- The qualified name of an enumeration or a record. -/
def qualifiedName? : Descriptor → Option String
  | enum e => some e.qualifiedName
  | complex c => some c.qualifiedName
  | _ => none

end Descriptor

end Declgen.Model
