import Declgen.Layout.Comment
import Declgen.Layout.Line

/-!
# Fragments and the writer

A fragment is a piece of code before its indentation is known. The writer lays fragments out as
text, at the level that it has reached.
-/

namespace Declgen.Layout

/-- A piece of code. -/
inductive Fragment where
  /-- A line at the current level. -/
  | line (text : String)
  /-- A line without anything on it. -/
  | blank
  /-- Text that is written as it is. -/
  | raw (text : String)
  /-- A documentation comment. -/
  | doc (text : String)
  /-- A header line, a body one level deeper and, if given, a closing line. -/
  | block (header : String) (body : List Fragment) (close : Option String)
  /-- A body one level deeper. -/
  | indented (body : List Fragment)
  /-- Fragments one after the other. -/
  | sequence (body : List Fragment)

/-- A text under construction. -/
structure Writer where
  /-- The text that stands for one level. -/
  unit : String
  /-- The current level. -/
  level : Nat
  /-- The text written so far. -/
  text : String
deriving DecidableEq

namespace Writer

/-- A writer with nothing written. -/
def new (indent : Indent) : Writer := ⟨indent.unit, 0, ""⟩

/-- Writes a line at the current level. -/
def line (w : Writer) (s : String) : Writer :=
  { w with text := w.text ++ (copies w.level w.unit ++ s ++ "\n") }

/-- Writes an empty line. -/
def blank (w : Writer) : Writer := { w with text := w.text ++ "\n" }

/-- Writes a text as it is. -/
def raw (w : Writer) (s : String) : Writer := { w with text := w.text ++ s }

/-- Goes one level deeper. -/
def indent (w : Writer) : Writer := { w with level := w.level + 1 }

/-- Goes back one level, but not above the outermost. -/
def dedent (w : Writer) : Writer := { w with level := w.level - 1 }

/-- Writes a documentation comment. -/
def doc (w : Writer) (s : String) : Writer := (commentLines s).foldl line w

mutual

/-- Writes a fragment. -/
def fragment (w : Writer) : Fragment → Writer
  | .line s => w.line s
  | .blank => w.blank
  | .raw s => w.raw s
  | .doc s => w.doc s
  | .block header body close =>
    let inner := fragments (w.line header).indent body
    match close with
    | some s => inner.dedent.line s
    | none => inner.dedent
  | .indented body => (fragments w.indent body).dedent
  | .sequence body => fragments w body

/-- Writes fragments one after the other. -/
def fragments (w : Writer) : List Fragment → Writer
  | [] => w
  | f :: fs => fragments (fragment w f) fs

end

end Writer

/-- A line as a fragment that puts it at its depth. -/
def Line.toFragment (l : Line) : Fragment :=
  (List.replicate l.depth ()).foldr (fun _ f => .indented [f]) (.line l.body)

/-- The fragments laid out as text from the outermost level. -/
def layOut (indent : Indent) (fs : List Fragment) : String :=
  ((Writer.new indent).fragments fs).text

end Declgen.Layout
