/-!
# Bytes of a text

The length of a text in bytes, when it is written in UTF-8.
-/

namespace Declgen.Text

/-- The number of bytes of a text. -/
def byteLength : List Char → Nat
  | [] => 0
  | c :: cs => c.utf8Size + byteLength cs

end Declgen.Text
