import Declgen.Text.Identifier
import Declgen.Text.Quoted
import Declgen.Text.Words

/-!
# TypeScript names

How source names become names of TypeScript. Types are in Pascal case, fields in camel case and
files in kebab case. A type name that is a reserved word gets an underscore in front.
-/

namespace Declgen.TypeScript

/-- The words that cannot name a type: the keywords of the language and the global types that
generated code refers to. -/
def reservedWords : List String :=
  ["break", "case", "catch", "class", "const", "continue", "debugger", "default", "delete", "do",
    "else", "enum", "export", "extends", "false", "finally", "for", "function", "if", "import",
    "in", "instanceof", "let", "new", "null", "return", "super", "switch", "this", "throw",
    "true", "try", "typeof", "var", "void", "while", "with", "yield", "any", "as", "async",
    "await", "boolean", "constructor", "declare", "get", "implements", "interface", "module",
    "namespace", "never", "number", "object", "package", "private", "protected", "public",
    "readonly", "require", "set", "static", "string", "symbol", "type", "undefined", "unknown",
    "Array"]

/-- Whether a name is a reserved word. -/
def isReserved (name : String) : Bool := reservedWords.contains name

/-- The name itself, or with an underscore in front if it is reserved. -/
def safeName (name : String) : String := if isReserved name then "_" ++ name else name

/-- The name of the type that a source name stands for. -/
def typeName (name : String) : String := safeName (String.ofList (Text.pascal name.toList))

/-- The stem of the file that a type goes to. -/
def fileName (name : String) : String := String.ofList (Text.kebab name.toList)

/-- The name of the field that a source member stands for. Fields may be reserved words. -/
def fieldName (name : String) : String := String.ofList (Text.camel name.toList)

/-- A property key: the name itself if it is an identifier, else quoted. -/
def propertyKey (name : String) : String :=
  if Text.isIdentifier name then name else Text.quote name

end Declgen.TypeScript
