import Declgen.Text.Blank
import Declgen.Text.Split

/-!
# The generated-content marker

Every generated file carries a marker line. Only files with that line are ever deleted, so a
file without it is safe.
-/

namespace Declgen

/-- The marker line. -/
def marker : String := "// contractgen: generated content, do not edit"

/-- Whether some line of the content is the marker, blanks at its end aside. -/
def isGenerated (content : String) : Bool :=
  (Text.lines content).any fun line => Text.trimEnd line.toList == marker.toList

end Declgen
