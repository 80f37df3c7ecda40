import Declgen.Layout.Writer
import Declgen.TypeScript.Declaration
import Declgen.TypeScript.Naming

/-!
# The text of types and declarations

A type expression is laid out as a passage: most types stay on one line, while object types
open a brace, put every field on lines of their own and close the brace again. The choice of
indentation comes last and cannot change anything but the start of lines.
-/

namespace Declgen

/-- A constant as it is written: an integer in decimal, a text between quotes. -/
def Literal.toText : Literal → String
  | .number value => toString value
  | .text value => Text.quote value

namespace TypeScript

open Layout

/-- The mark of an optional field. -/
def optionalMark (optional : Bool) : String := if optional then "?" else ""

/-- The lines of the comment for an optional documentation text. -/
def docLines : Option String → List Line
  | some doc => (commentLines doc).map (⟨0, ·⟩)
  | none => []

/-- The lines of `before key: type;`, where the passages are the key and the type. -/
def entryLines (before : String) (key : Passage) (between : String) (type : Passage) :
    List Line :=
  (Passage.ofString before ++ key ++ Passage.ofString between ++ type ++
    Passage.ofString ";").toLines

namespace Expr

mutual

/-- The passage that an expression is written as. A union is written as its members that are no
unions, at any depth of unions, each once. -/
def layout : Expr → Passage
  | .keyword k => Passage.ofString k.word
  | .literal value => Passage.ofString value.toText
  | .verbatim text => Passage.ofString text
  | .reference _ name => Passage.ofString name
  | .genericReference _ name arguments =>
    Passage.ofString (name ++ "<") ++ Passage.join ", " (layoutList arguments) ++
      Passage.ofString ">"
  | .parameter name => Passage.ofString name
  | .array element =>
    if element.isSimple then layout element ++ Passage.ofString "[]"
    else Passage.ofString "Array<" ++ layout element ++ Passage.ofString ">"
  | .union members => Passage.join " | " ((layoutLeaves members).eraseDups.map (·.2))
  | .object fields =>
    match fields with
    | [] => Passage.ofString "\x7b\x7d"
    | _ :: _ => Passage.braced (layoutFields fields)
  | .index key value =>
    Passage.braced (entryLines "[key: " (layout key) "]: " (layout value))
  | .mapped key value optional =>
    Passage.braced
      (entryLines "[key in " (layout key) ("]" ++ optionalMark optional ++ ": ") (layout value))

/-- The passages of several expressions. -/
def layoutList : List Expr → List Passage
  | [] => []
  | e :: es => layout e :: layoutList es

/-- The expressions that are reached through unions only, each with its passage. -/
def layoutLeaves : List Expr → List (Expr × Passage)
  | [] => []
  | .union inner :: es => layoutLeaves inner ++ layoutLeaves es
  | e :: es => (e, layout e) :: layoutLeaves es

/-- The lines of several fields, each with its documentation above it. -/
def layoutFields : List (Field Expr) → List Line
  | [] => []
  | ⟨name, type, optional, doc⟩ :: fields =>
    docLines doc ++
      entryLines (propertyKey name ++ optionalMark optional) (Passage.ofString "") ": "
        (layout type) ++
      layoutFields fields

end

/-- The text of an expression, indented by `indent`. -/
def toText (indent : Indent) (e : Expr) : String := e.layout.toText indent.unit

end Expr

namespace Declaration

/-- The type parameters between angle brackets, or nothing if there are none. -/
def parameterList (typeParams : List String) : String :=
  if typeParams.isEmpty then "" else "<" ++ String.intercalate ", " typeParams ++ ">"

/-- One member of an enumeration as it is written. -/
def memberText (member : EnumMember) : String :=
  propertyKey member.name ++ " = " ++ member.value.toText ++ ","

/-- The code of a declaration. -/
def toFragments : Declaration → List Fragment
  | .alias name typeParams type =>
    let head := Passage.ofString ("export type " ++ name ++ parameterList typeParams ++ " = ")
    (head ++ type.layout ++ Passage.ofString ";").toLines.map Line.toFragment
  | .enum name [] => [.line ("export enum " ++ name ++ " \x7b\x7d")]
  | .enum name members =>
    [.block ("export enum " ++ name ++ " \x7b") (members.map fun m => .line (memberText m))
      (some "\x7d")]

/-- The text of a declaration, indented by `indent`. -/
def toText (indent : Indent) (d : Declaration) : String := layOut indent d.toFragments

end Declaration

end TypeScript

end Declgen
