import Declgen.Proofs.Walk.Styles
import Declgen.Walk.Run

/-!
# The same meaning

Two generations mean the same if the units of the first one can be read as expressions of the second
one such that all declarations agree: those of enumerations and records with those of their own
units, and those of instantiations with those of their records when arguments are put in for type
parameters. Types agree if they have one normal form, and fields if their types do.
-/

namespace Declgen.Walk

open Model TypeScript Declgen.Units

/-! ### Fields -/

section Fields

variable {options : Options} {style style' : GenericStyle} {units units' : Registry}
  {scope scope' : List String} {reading : UnitId → Expr} {bindings : List (String × Expr)}
  {f f' : TypeScript.Field Expr}

end Fields

/-! ### The same meaning -/

end Declgen.Walk
