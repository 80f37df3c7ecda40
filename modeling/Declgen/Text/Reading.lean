/-!
# Reading a text from its start

A reader takes part of a text from its start. Digits and escaped characters are read alike in
all formats.
-/

namespace Declgen.Text

/-- What a reader of part of a text gives: a result and the rest of the text. -/
abbrev Reading (α : Type) := Option (α × List Char)

/-- Puts a character in front of a text that was read. -/
def prepend (c : Char) : Reading (List Char) → Reading (List Char) :=
  Option.map fun (cs, rest) => (c :: cs, rest)

/-- The value of a hexadecimal digit. -/
def hexDigit? (c : Char) : Option Nat :=
  if c.isDigit then some (c.toNat - 48)
  else if 'a' ≤ c && c ≤ 'f' then some (c.toNat - 87)
  else if 'A' ≤ c && c ≤ 'F' then some (c.toNat - 55)
  else none

/-- The number that hexadecimal digits stand for. -/
def hexValue? (ds : List Char) : Option Nat :=
  ds.foldlM (fun n d => (hexDigit? d).map fun k => n * 16 + k) 0

/-- The number that digits stand for in a base. -/
def digitsValue (base : Nat) (ds : List Char) : Nat :=
  ds.foldl (fun n d => n * base + (hexDigit? d).getD 0) 0

end Declgen.Text
