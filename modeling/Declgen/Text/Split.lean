/-!
# Cutting text apart

A text is cut at separator characters into the stretches between them, or into lines. A line
ends at a line feed, and a carriage return just before the line feed belongs to the line end.
-/

namespace Declgen.Text

/-- The stretches between the characters that satisfy `p`; there is always at least one. -/
def splitWhere (p : Char → Bool) : List Char → List (List Char)
  | [] => [[]]
  | c :: rest =>
    match p c, splitWhere p rest with
    | true, parts => [] :: parts
    | false, [] => [[c]]
    | false, part :: parts => (c :: part) :: parts

/-- The text split at every occurrence of `separator`. -/
def splitAt (separator : Char) (s : String) : List String :=
  (splitWhere (· == separator) s.toList).map String.ofList

/-- The text without one carriage return at its end. -/
def chomp (s : String) : String :=
  if s.toList.getLast? = some '\r' then String.ofList s.toList.dropLast else s

/-- The lines of a text whose current line, backwards, is `current`. -/
def linesFrom (current : List Char) : List Char → List String
  | [] => if current.isEmpty then [] else [String.ofList current.reverse]
  | c :: rest =>
    if c = '\n' then chomp (String.ofList current.reverse) :: linesFrom [] rest
    else linesFrom (c :: current) rest

/-- The lines of a text without their ends. Nothing follows a final line feed. -/
def lines (s : String) : List String := linesFrom [] s.toList

/-- Splitting always gives a part. -/
theorem splitWhere_ne_nil (p : Char → Bool) (cs : List Char) : splitWhere p cs ≠ [] := by
  cases cs with
  | nil => simp [splitWhere]
  | cons c rest =>
    unfold splitWhere
    split <;> simp

end Declgen.Text
