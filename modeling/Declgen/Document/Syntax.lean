import Declgen.Model.Descriptor

/-!
# Model documents

A model document lists definitions of records and enumerations. Types are written as expressions
that refer to definitions by name.
-/

namespace Declgen.Document

open Model

/-- A type as a document writes it. -/
inductive TypeExpr where
  /-- A type without parts. -/
  | primitive (kind : Primitive)
  /-- A definition. -/
  | ref (name : String)
  /-- Another type or null. -/
  | nullable (inner : TypeExpr)
  /-- A list. -/
  | array (element : TypeExpr)
  /-- A map from keys to values. -/
  | dictionary (key value : TypeExpr)
  /-- A type parameter. -/
  | parameter (name : String)
  /-- A generic definition applied to arguments. -/
  | generic (definition : String) (arguments : List TypeExpr)

/-- A member of a record. -/
structure MemberDef where
  /-- The name of the member. -/
  name : String
  /-- The type of its values. -/
  type : TypeExpr
  /-- Whether the member may be left out. -/
  optional : Bool
  /-- Whether its value may be null. -/
  nullable : Bool
  /-- Its documentation. -/
  doc : Option String

/-- A definition of a record. -/
structure ComplexDef where
  /-- The name without its namespace. -/
  name : String
  /-- The namespace. -/
  space : Option String
  /-- The names of the type parameters. -/
  typeParams : List String
  /-- The type that the record extends. -/
  base : Option TypeExpr
  /-- The record's own members in order. -/
  members : List MemberDef

/-- A definition. -/
inductive Definition where
  /-- A record. -/
  | complex (type : ComplexDef)
  /-- An enumeration; members without a value have been given their names. -/
  | enum (type : EnumType)

/-- The name of a definition with its namespace. -/
def Definition.qualifiedName : Definition → String
  | .complex c => qualify c.space c.name
  | .enum e => e.qualifiedName

/-- A model document. -/
structure ModelDocument where
  /-- The names of the roots. -/
  roots : List String
  /-- The definitions in order. -/
  definitions : List Definition

end Declgen.Document
