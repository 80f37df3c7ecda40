import Declgen.Text.Split

/-!
# Lines and passages

A line of laid-out text is kept as a depth and a body, so that moving it deeper does not touch
its body and the width of the indentation is chosen last. A passage is a run of such lines whose
first line continues what stands before it and whose last line is open for what follows.
-/

namespace Declgen.Layout

/-- How far one level of depth moves a line to the right. -/
inductive Indent where
  /-- A number of spaces. -/
  | spaces (width : Nat)
  /-- One tab. -/
  | tab
deriving DecidableEq

/-- Indentation is four spaces wide unless set otherwise. -/
instance : Inhabited Indent := ⟨.spaces 4⟩

/-- The text that stands for one level of depth. -/
def Indent.unit : Indent → String
  | .spaces width => String.ofList (List.replicate width ' ')
  | .tab => "\t"

/-- `count` copies of a text, one after the other. -/
def copies (count : Nat) (s : String) : String := String.join (List.replicate count s)

/-- A line of laid-out text. -/
structure Line where
  /-- How many levels deep the line stands. -/
  depth : Nat
  /-- What the line says, without its indentation. -/
  body : String
deriving DecidableEq

namespace Line

/-- The line one level deeper. -/
def deeper (l : Line) : Line := { l with depth := l.depth + 1 }

/-- The line as text. -/
def toText (unit : String) (l : Line) : String := copies l.depth unit ++ l.body

/-- The line without a carriage return at its end. -/
def chomp (l : Line) : Line := { l with body := Text.chomp l.body }

end Line

/-- Joins the last line of one list with the first line of another. -/
def joinLines : List Line → List Line → List Line
  | [], ms => ms
  | [l], [] => [l]
  | [l], m :: ms => ⟨l.depth, l.body ++ m.body⟩ :: ms
  | l :: l' :: ls, ms => l :: joinLines (l' :: ls) ms

/-- Lines, the first and the last of which are open. -/
structure Passage where
  /-- The lines. -/
  lines : List Line
deriving DecidableEq

namespace Passage

/-- A text as a passage: its lines all have depth zero. -/
def ofString (s : String) : Passage := ⟨(Text.splitAt '\n' s).map (⟨0, ·⟩)⟩

/-- The first passage continued by the second. -/
instance : Append Passage := ⟨fun p q => ⟨joinLines p.lines q.lines⟩⟩

/-- The passages one after the other with `separator` between them. -/
def join (separator : String) : List Passage → Passage
  | [] => ofString ""
  | [p] => p
  | p :: q :: ps => p ++ ofString separator ++ join separator (q :: ps)

/-- Lines that are complete, each without a carriage return before its end. -/
def complete : List Line → List Line
  | [] => []
  | [l] => if l.body.isEmpty then [] else [l]
  | l :: l' :: ls => l.chomp :: complete (l' :: ls)

/-- The lines of a passage that nothing follows. -/
def toLines (p : Passage) : List Line := complete p.lines

/-- Lines between braces, one level deeper than these. -/
def braced (ls : List Line) : Passage :=
  ⟨⟨0, "\x7b"⟩ :: (ls.map Line.deeper ++ [⟨0, "\x7d"⟩])⟩

/-- The passage as text. -/
def toText (unit : String) (p : Passage) : String :=
  String.intercalate "\n" (p.lines.map (Line.toText unit))

end Passage

end Declgen.Layout
