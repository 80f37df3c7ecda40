import Declgen.Model.Descriptor

/-!
# Errors of type models

What can go wrong while a model is built, loaded or read, and how it is reported.
-/

namespace Declgen.Model

/-- What is wrong with a model or a model document. -/
inductive ModelError where
  /-- A reserved slot was read before it was defined. -/
  | unresolved (id : TypeId)
  /-- A number that the model does not have. -/
  | outOfRange (id : TypeId)
  /-- A slot was defined again. -/
  | alreadyDefined (id : TypeId)
  /-- A name that nothing in the document has. -/
  | unknownType (name referrer : String)
  /-- Two definitions with one qualified name. -/
  | duplicateDefinition (name : String)
  /-- Two members with one name. -/
  | duplicateMember (owner member : String)
  /-- An instantiation of something that is no record. -/
  | notGeneric (id : TypeId) (kind : String)
  /-- An instantiation with the wrong number of arguments. -/
  | arityMismatch (name : String) (expected found : Nat)
  /-- A text that is no model document. -/
  | malformed
  /-- A model document that could not be read. -/
  | unreadable (path : String)
deriving DecidableEq

/-- A descriptor's number as messages write it. -/
def showId (id : TypeId) : String := "#" ++ toString id

/-- The report of an error. -/
def ModelError.message : ModelError → String
  | unresolved id => "type " ++ showId id ++ " was reserved but never defined"
  | outOfRange id => "type " ++ showId id ++ " does not exist in this model"
  | alreadyDefined id => "type " ++ showId id ++ " is already defined"
  | unknownType name referrer =>
    "unknown type '" ++ name ++ "' referenced from '" ++ referrer ++ "'"
  | duplicateDefinition name => "type '" ++ name ++ "' is defined more than once"
  | duplicateMember owner member =>
    "'" ++ owner ++ "' declares the member '" ++ member ++ "' more than once"
  | notGeneric id kind =>
    "generic instantiation of " ++ showId id ++ " refers to a " ++ kind ++
      ", not a generic class"
  | arityMismatch name expected found =>
    "'" ++ name ++ "' takes " ++ toString expected ++ " type argument(s) but " ++
      toString found ++ " were supplied"
  | malformed => "failed to parse model document"
  | unreadable path => "failed to read '" ++ path ++ "'"

end Declgen.Model
