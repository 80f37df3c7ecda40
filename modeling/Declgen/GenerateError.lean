import Declgen.Model.Error

/-!
# Errors of a generation

Why a type model cannot be turned into declarations.
-/

namespace Declgen

open Model

/-- Why a type has no form in TypeScript. -/
inductive Unsupported where
  /-- A type expression that contains itself. -/
  | containsItself
  /-- A type parameter outside a declaration that has it. -/
  | unboundParameter
  /-- A generic record without arguments, given how many it takes. -/
  | missingArguments (count : Nat)
  /-- A dictionary key that is neither text nor number nor enumeration. -/
  | dictionaryKey (kind : String)
  /-- Two members that become one field. -/
  | fieldClash (first second field : String)
  /-- Two members of one record with the same name. -/
  | repeatedMember (name : String)
  /-- A type that cannot be a declaration of its own. -/
  | notDeclarable (kind : String)
  /-- A type that has no name. -/
  | notNamed (kind : String)
  /-- A record that extends itself. -/
  | cyclicInheritance
  /-- A base that is no record. -/
  | baseNotRecord (kind : String)
  /-- Type arguments within type arguments, too many levels deep for a name. -/
  | nestedTooDeeply
deriving DecidableEq

/-- The reason in words. -/
def Unsupported.reason : Unsupported → String
  | containsItself => "the type expression contains itself"
  | unboundParameter => "type parameter is not declared by the enclosing type"
  | missingArguments count =>
    "generic type used without its " ++ toString count ++ " type argument(s)"
  | dictionaryKey kind => "unsupported dictionary key type '" ++ kind ++ "'"
  | fieldClash first second field =>
    "members '" ++ first ++ "' and '" ++ second ++ "' both map to the field '" ++ field ++ "'"
  | repeatedMember name => "member '" ++ name ++ "' is declared more than once"
  | notDeclarable kind => "a " ++ kind ++ " cannot be declared on its own"
  | notNamed kind => "a " ++ kind ++ " is not a named type"
  | cyclicInheritance => "the inheritance chain loops back on itself"
  | baseNotRecord kind => "a base type must be a class, found a " ++ kind
  | nestedTooDeeply => "generic arguments nest too deeply to name"

/-- Why a generation failed. -/
inductive GenerateError where
  /-- A type that has no form in TypeScript. -/
  | unsupported (identity : String) (cause : Unsupported)
  /-- Two types that would be declared under one name. -/
  | ambiguousName (name first second : String)
  /-- A type whose name depends on itself. -/
  | cyclicName (identity : String)
  /-- A declaration that was completed a second time. -/
  | completedTwice (name : String)
  /-- A declaration that was reserved and never completed. -/
  | neverCompleted (name : String)
  /-- Something is wrong with the model. -/
  | model (cause : ModelError)
deriving DecidableEq

namespace GenerateError

/-- The report of an error. -/
def message : GenerateError → String
  | unsupported identity cause =>
    "cannot express '" ++ identity ++ "' in TypeScript: " ++ cause.reason
  | ambiguousName name first second =>
    "'" ++ first ++ "' and '" ++ second ++ "' both resolve to the declaration name '" ++ name ++
      "'"
  | cyclicName identity => "the name of '" ++ identity ++ "' depends on itself"
  | completedTwice name => "declaration '" ++ name ++ "' was completed twice"
  | neverCompleted name => "declaration '" ++ name ++ "' was reserved but never completed"
  | model cause => cause.message

/-- The diagnostic code of an error. -/
def code : GenerateError → String
  | unsupported .. => "contractgen::generate::unsupported_type"
  | ambiguousName .. => "contractgen::generate::ambiguous_name"
  | cyclicName _ => "contractgen::generate::cyclic_name"
  | completedTwice _ => "contractgen::generate::unit_completed_twice"
  | neverCompleted _ => "contractgen::generate::unit_incomplete"
  | model _ => "contractgen::generate::model"

/-- What the user can do about an error. -/
def help : GenerateError → Option String
  | ambiguousName .. => some "rename one of the types or move it to a different namespace"
  | _ => none

end GenerateError

end Declgen
