import Declgen.Text.Blank
import Declgen.Text.Split

/-!
# Documentation comments

A documentation text becomes a block comment. A comment end inside the text is broken up by a
backslash, so that the comment ends only where it is meant to.
-/

namespace Declgen.Layout

/-- The text with a backslash inside every `*/`. -/
def guardCommentEnd : List Char → List Char
  | '*' :: '/' :: rest => '*' :: '\\' :: '/' :: guardCommentEnd rest
  | c :: rest => c :: guardCommentEnd rest
  | [] => []

/-- One line inside a comment block, without blanks at its end. -/
def commentLine (line : String) : String :=
  let text := Text.trimEnd line.toList
  if text.isEmpty then " *" else " * " ++ String.ofList text

/-- The lines of the comment for a documentation text: a single line stands between the
delimiters, and several lines stand in a block with a star in front of each. -/
def commentLines (doc : String) : List String :=
  let text := guardCommentEnd doc.toList
  let parts := Text.lines (String.ofList text)
  if parts.length ≤ 1 then ["/** " ++ String.ofList (Text.trim text) ++ " */"]
  else "/**" :: (parts.map commentLine ++ [" */"])

end Declgen.Layout
