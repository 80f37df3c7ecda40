/-!
# TOML values

A value as it stands in a TOML document. The entries of a table keep the order in which they were
given, and a table knows how it came to be, because that decides what may still be added to it.
The contents of floating-point numbers and of dates and times are not kept.
-/

namespace Declgen.Toml

/-- How a table came to be. -/
inductive Origin where
  /-- By a heading of its own. -/
  | heading
  /-- By the headings of tables inside it. -/
  | passage
  /-- By dotted keys. -/
  | dotted
  /-- By its entries between braces. -/
  | braces
deriving DecidableEq

/-- A TOML value. -/
inductive Value where
  /-- A text. -/
  | text (value : String)
  /-- An integer. -/
  | integer (value : Int)
  /-- A number that no integer is read from: one without digits, or with characters that are no
  digits of its base. -/
  | improper
  /-- A floating-point number. -/
  | float
  /-- A date, a time or both. -/
  | moment
  /-- A truth value. -/
  | bool (value : Bool)
  /-- A list of values. -/
  | array (items : List Value)
  /-- Entries with a key and a value. -/
  | table (origin : Origin) (entries : List (String × Value))
  /-- The tables that have the same double heading, the last one first. -/
  | sections (tables : List (List (String × Value)))

/-- The entries of a table. -/
abbrev Entries := List (String × Value)

end Declgen.Toml
