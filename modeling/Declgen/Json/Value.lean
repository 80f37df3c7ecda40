/-!
# JSON values

A value as it stands in a JSON text. The entries of an object keep their order and their
repetitions. Of numbers only integers are kept.
-/

namespace Declgen.Json

/-- A JSON value. -/
inductive Value where
  /-- The word `null`. -/
  | null
  /-- A truth value. -/
  | bool (value : Bool)
  /-- A number that is written as an integer. -/
  | integer (value : Int)
  /-- Any other number, `-0` among them. -/
  | fraction
  /-- A text. -/
  | text (value : String)
  /-- A list of values. -/
  | array (items : List Value)
  /-- Entries with a key and a value. -/
  | object (entries : List (String × Value))

end Declgen.Json
