import Declgen.Text.Reading

/-!
# Quoted texts

Texts stand in a document between double quotes, with escapes, or between single quotes, as they
are. Three quotes at either end make a text that may hold line breaks and quotes.
-/

namespace Declgen.Toml

open Text

/-- Whether a character may stand in a text or a comment as it is. -/
def isPlain (c : Char) : Bool := c == '\t' || (0x20 ≤ c.toNat && c.toNat != 0x7F)

/-- Whether a character is a blank within a line. -/
def isSpace (c : Char) : Bool := c == ' ' || c == '\t'

/-- What follows the line break that a text starts with. -/
def afterBreak? : List Char → Option (List Char)
  | '\n' :: rest => some rest
  | '\r' :: '\n' :: rest => some rest
  | _ => none

/-- The character with a number, if there is one. -/
def charOf? (n : Nat) : Option Char :=
  if n.isValidChar then some (Char.ofNat n) else none

/-- Reads what follows a backslash. -/
def readEscape : List Char → Reading Char
  | 'b' :: rest => some ('\x08', rest)
  | 't' :: rest => some ('\t', rest)
  | 'n' :: rest => some ('\n', rest)
  | 'f' :: rest => some ('\x0c', rest)
  | 'r' :: rest => some ('\r', rest)
  | 'e' :: rest => some ('\x1b', rest)
  | '"' :: rest => some ('"', rest)
  | '\\' :: rest => some ('\\', rest)
  | 'x' :: a :: b :: rest => ((hexValue? [a, b]).bind charOf?).map fun c => (c, rest)
  | 'u' :: a :: b :: c :: d :: rest =>
    ((hexValue? [a, b, c, d]).bind charOf?).map fun c => (c, rest)
  | 'U' :: a :: b :: c :: d :: e :: f :: g :: h :: rest =>
    ((hexValue? [a, b, c, d, e, f, g, h]).bind charOf?).map fun c => (c, rest)
  | _ => none

/-- Reads a text up to its closing double quote. The fuel bounds the number of its characters. -/
def readBasic : Nat → List Char → Reading (List Char)
  | 0, _ | _, [] => none
  | n + 1, c :: rest =>
    if c = '"' then some ([], rest)
    else if c = '\\' then
      match readEscape rest with
      | some (c, rest) => prepend c (readBasic n rest)
      | none => none
    else if isPlain c then prepend c (readBasic n rest)
    else none

/-- Reads a text up to its closing single quote. -/
def readLiteral : List Char → Reading (List Char)
  | [] => none
  | c :: rest =>
    if c = '\'' then some ([], rest)
    else if isPlain c then prepend c (readLiteral rest)
    else none

/-- Reads the quotes that end a text with three quotes at either end. Two more belong to the
text. -/
def readClosing (quote : Char) (cs : List Char) : Reading (List Char) :=
  let length := (cs.takeWhile (· == quote)).length
  if length < 3 then none
  else some (List.replicate (min 2 (length - 3)) quote, cs.drop (min 5 length))

/-- The text without the blanks and line breaks at its start. -/
def skipBlank : List Char → List Char
  | '\r' :: '\n' :: rest => skipBlank rest
  | c :: rest => if isSpace c || c = '\n' then skipBlank rest else c :: rest
  | [] => []

/-- Reads a text up to its three closing double quotes. A backslash at the end of a line leaves
out the blanks and line breaks that follow. The fuel bounds the number of its characters. -/
def readLongBasic : Nat → List Char → Reading (List Char)
  | 0, _ | _, [] => none
  | n + 1, c :: rest =>
    match readClosing '"' (c :: rest) with
    | some closing => some closing
    | none =>
      if c = '\\' then
        match afterBreak? (rest.dropWhile isSpace) with
        | some rest => readLongBasic n (skipBlank rest)
        | none =>
          match readEscape rest with
          | some (c, rest) => prepend c (readLongBasic n rest)
          | none => none
      else if isPlain c || (afterBreak? (c :: rest)).isSome then prepend c (readLongBasic n rest)
      else none

/-- Reads a text up to its three closing single quotes. -/
def readLongLiteral : List Char → Reading (List Char)
  | [] => none
  | c :: rest =>
    match readClosing '\'' (c :: rest) with
    | some closing => some closing
    | none =>
      if isPlain c || (afterBreak? (c :: rest)).isSome then prepend c (readLongLiteral rest)
      else none

/-- The text without a line break at its start. -/
def dropBreak (cs : List Char) : List Char := (afterBreak? cs).getD cs

/-- Reads a quoted text that stands in one line. -/
def readShort : List Char → Reading (List Char)
  | '"' :: rest => readBasic rest.length rest
  | '\'' :: rest => readLiteral rest
  | _ => none

/-- Reads a quoted text. A line break just after three opening quotes does not count. -/
def readQuoted : List Char → Reading (List Char)
  | '"' :: '"' :: '"' :: rest =>
    let rest := dropBreak rest
    readLongBasic rest.length rest
  | '\'' :: '\'' :: '\'' :: rest => readLongLiteral (dropBreak rest)
  | cs => readShort cs

end Declgen.Toml
