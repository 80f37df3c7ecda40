import Declgen.Document.Syntax
import Declgen.Json.Parser
import Declgen.Model.Error
import Declgen.Word

/-!
# Reading model documents

A document is a JSON object. Objects stand for records with known fields: a field may not be
given twice, unknown fields are ignored except at the top, and a record may also be written as
the array of its fields in order. A field that is left out has a default or is missed; `null` is
only taken where a value may be absent.
-/

namespace Declgen.Document

open Model Json

/-- The values of a record's fields, in the order of their names. -/
def fieldValues? (names : List String) : Value → Option (List (Option Value))
  | .object entries =>
    if names.any fun name => (entries.filter (·.1 == name)).length > 1 then none
    else some (names.map fun name => entries.lookup name)
  | .array items =>
    if items.length ≤ names.length then
      some (items.map some ++ List.replicate (names.length - items.length) none)
    else none
  | _ => none

/-- Reads a text. -/
def text? : Value → Option String
  | .text s => some s
  | _ => none

/-- Reads a truth value. -/
def bool? : Value → Option Bool
  | .bool b => some b
  | _ => none

/-- Reads a list of texts. -/
def texts? : Value → Option (List String)
  | .array items => items.mapM text?
  | _ => none

/-- Reads a field that has to be there. -/
def required {α : Type} (read : Value → Option α) : Option Value → Option α
  | some v => read v
  | none => none

/-- Reads a field with a default. -/
def withDefault {α : Type} (default : α) (read : Value → Option α) : Option Value → Option α
  | some v => read v
  | none => some default

/-- Reads a field that may be left out or null. -/
def optional {α : Type} (read : Value → Option α) : Option Value → Option (Option α)
  | none | some .null => some none
  | some v => (read v).map some

/-- Reads a constant: a text or an integer of 64 bits with sign. -/
def literal? : Value → Option Literal
  | .text s => some (.text s)
  | .integer n => if fitsWord n then some (.number n) else none
  | _ => none

/-- Reads a type expression of at most `depth` levels: the name of a primitive type, or an
object with one entry that says what the type is made of. -/
def typeExpr? : Nat → Value → Option TypeExpr
  | 0, _ => none
  | depth + 1, v =>
    match v with
    | .text name => (Primitive.ofName? name).map .primitive
    | .object [(tag, content)] =>
      match tag, content with
      | "ref", .text name => some (.ref name)
      | "param", .text name => some (.parameter name)
      | "nullable", inner => (typeExpr? depth inner).map .nullable
      | "array", element => (typeExpr? depth element).map .array
      | "dictionary", record => do
        match ← fieldValues? ["key", "value"] record with
        | [key, value] =>
          pure (.dictionary (← required (typeExpr? depth) key)
            (← required (typeExpr? depth) value))
        | _ => none
      | "generic", record => do
        match ← fieldValues? ["definition", "arguments"] record with
        | [definition, arguments] =>
          let read : Value → Option (List TypeExpr)
            | .array items => items.mapM (typeExpr? depth)
            | _ => none
          pure (.generic (← required text? definition) (← withDefault [] read arguments))
        | _ => none
      | name, .null => (Primitive.ofName? name).map .primitive
      | _, _ => none
    | _ => none

/-- Reads a type expression. No document nests deeper than its text may. -/
def readType? (v : Value) : Option TypeExpr := typeExpr? (depthLimit + 1) v

/-- Reads a member of a record. -/
def member? (v : Value) : Option MemberDef := do
  match ← fieldValues? ["name", "type", "optional", "nullable", "doc"] v with
  | [name, type, mayMiss, nullable, doc] =>
    pure ⟨← required text? name, ← required readType? type, ← withDefault false bool? mayMiss,
      ← withDefault false bool? nullable, ← optional text? doc⟩
  | _ => none

/-- Reads a member of an enumeration. Without a value it stands for its name. -/
def enumMember? (v : Value) : Option EnumMember := do
  match ← fieldValues? ["name", "value"] v with
  | [name, value] =>
    let name ← required text? name
    let value ← optional literal? value
    pure ⟨name, value.getD (.text name)⟩
  | _ => none

/-- Reads a list of parts. -/
def listOf? {α : Type} (read : Value → Option α) : Value → Option (List α)
  | .array items => items.mapM read
  | _ => none

/-- Reads a record. -/
def complex? (v : Value) : Option ComplexDef := do
  match ← fieldValues? ["name", "namespace", "typeParameters", "base", "members"] v with
  | [name, space, typeParams, base, members] =>
    pure ⟨← required text? name, ← optional text? space, ← withDefault [] texts? typeParams,
      ← optional readType? base, ← withDefault [] (listOf? member?) members⟩
  | _ => none

/-- Reads an enumeration. -/
def enum? (v : Value) : Option EnumType := do
  match ← fieldValues? ["name", "namespace", "members"] v with
  | [name, space, members] =>
    pure ⟨← required text? name, ← optional text? space,
      ← withDefault [] (listOf? enumMember?) members⟩
  | _ => none

/-- Splits a definition into its kind and the rest. -/
def kindAndRest? : Value → Option (String × Value)
  | .object entries =>
    match entries.filter (·.1 == "kind") with
    | [(_, .text kind)] => some (kind, .object (entries.filter (·.1 != "kind")))
    | _ => none
  | .array (.text kind :: items) => some (kind, .array items)
  | _ => none

/-- Reads a definition. -/
def definition? (v : Value) : Option Definition := do
  match ← kindAndRest? v with
  | ("complex", rest) => (complex? rest).map .complex
  | ("enum", rest) => (enum? rest).map .enum
  | _ => none

/-- Whether a record has no fields but those with the given names. -/
def hasOnly (names : List String) : Value → Bool
  | .object entries => entries.all fun entry => names.contains entry.1
  | _ => true

/-- Reads a document from its JSON value. -/
def ofJson? (v : Value) : Option ModelDocument := do
  let names := ["roots", "definitions"]
  if !hasOnly names v then none
  match ← fieldValues? names v with
  | [roots, definitions] =>
    pure ⟨← withDefault [] texts? roots, ← required (listOf? definition?) definitions⟩
  | _ => none

/-- Reads a document from its text. -/
def parse (s : String) : Except ModelError ModelDocument :=
  match (Json.parse? s).bind ofJson? with
  | some document => .ok document
  | none => .error .malformed

end Declgen.Document
