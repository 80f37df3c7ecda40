import Declgen.Json.Number

/-!
# Reading JSON

The reader accepts exactly the JSON texts whose arrays and objects nest at most 127 levels deep
and whose numbers are not too large for a double. It is strict: nothing but blanks may follow
the value, raw control characters are refused in texts, and an escaped surrogate needs its
partner.
-/

namespace Declgen.Json

open Text

/-- Whether a character may stand between the parts of a JSON text. -/
def isSpace (c : Char) : Bool := c == ' ' || c == '\t' || c == '\n' || c == '\r'

/-- The text without the blanks at its start. -/
def skipSpace (cs : List Char) : List Char := cs.dropWhile isSpace

/-- The character that a backslash and this character stand for. -/
def escaped? : Char → Option Char
  | '"' => some '"'
  | '\\' => some '\\'
  | '/' => some '/'
  | 'b' => some '\x08'
  | 'f' => some '\x0c'
  | 'n' => some '\n'
  | 'r' => some '\r'
  | 't' => some '\t'
  | _ => none

/-- Whether a code unit is the first of a surrogate pair. -/
def isHighSurrogate (n : Nat) : Bool := 0xD800 ≤ n && n < 0xDC00

/-- Whether a code unit is the second of a surrogate pair. -/
def isLowSurrogate (n : Nat) : Bool := 0xDC00 ≤ n && n < 0xE000

/-- The character of a surrogate pair. -/
def pairChar (high low : Nat) : Char :=
  Char.ofNat (0x10000 + (high - 0xD800) * 0x400 + (low - 0xDC00))

/-- Reads a text up to its closing quote. -/
def readText : List Char → Reading (List Char)
  | [] => none
  | '"' :: rest => some ([], rest)
  | '\\' :: 'u' :: a :: b :: c :: d :: rest =>
    match hexValue? [a, b, c, d] with
    | none => none
    | some n =>
      if isHighSurrogate n then
        match rest with
        | '\\' :: 'u' :: a' :: b' :: c' :: d' :: rest =>
          match hexValue? [a', b', c', d'] with
          | none => none
          | some m => if isLowSurrogate m then prepend (pairChar n m) (readText rest) else none
        | _ => none
      else if isLowSurrogate n then none
      else prepend (Char.ofNat n) (readText rest)
  | '\\' :: c :: rest =>
    match escaped? c with
    | some c => prepend c (readText rest)
    | none => none
  | c :: rest => if c.toNat < 0x20 then none else prepend c (readText rest)

/-- Reads a value that is neither an array nor an object. -/
def readScalar : List Char → Reading Value
  | 'n' :: 'u' :: 'l' :: 'l' :: rest => some (.null, rest)
  | 't' :: 'r' :: 'u' :: 'e' :: rest => some (.bool true, rest)
  | 'f' :: 'a' :: 'l' :: 's' :: 'e' :: rest => some (.bool false, rest)
  | '"' :: rest => (readText rest).map fun (cs, rest) => (.text (String.ofList cs), rest)
  | '-' :: rest => readUnsigned true rest
  | cs => readUnsigned false cs

/-- Reads items that are separated by commas up to the character `close`. Each item has at least
one character, so the length of the text bounds their number. -/
def readItems {α : Type} (item : List Char → Reading α) (close : Char) :
    Nat → List Char → Reading (List α)
  | 0, _ => none
  | n + 1, cs =>
    match item cs with
    | none => none
    | some (value, rest) =>
      match skipSpace rest with
      | ',' :: rest =>
        (readItems item close n rest).map fun (values, rest) => (value :: values, rest)
      | c :: rest => if c = close then some ([value], rest) else none
      | [] => none

/-- Reads items after an opening bracket; there may be none. -/
def readList {α : Type} (item : List Char → Reading α) (close : Char) (cs : List Char) :
    Reading (List α) :=
  match skipSpace cs with
  | [] => none
  | c :: rest => if c = close then some ([], rest) else readItems item close cs.length cs

/-- Reads an entry of an object. -/
def readEntry (value : List Char → Reading Value) (cs : List Char) : Reading (String × Value) :=
  match skipSpace cs with
  | '"' :: rest =>
    match readText rest with
    | none => none
    | some (key, rest) =>
      match skipSpace rest with
      | ':' :: rest => (value rest).map fun (v, rest) => ((String.ofList key, v), rest)
      | _ => none
  | _ => none

/-- Reads a value in which arrays and objects nest at most `depth` levels deep. -/
def readValue : Nat → List Char → Reading Value
  | 0, cs =>
    match skipSpace cs with
    | '[' :: _ | '\x7b' :: _ => none
    | cs => readScalar cs
  | depth + 1, cs =>
    match skipSpace cs with
    | '[' :: rest =>
      (readList (readValue depth) ']' rest).map fun (items, rest) => (.array items, rest)
    | '\x7b' :: rest =>
      (readList (readEntry (readValue depth)) '\x7d' rest).map fun (entries, rest) =>
        (.object entries, rest)
    | cs => readScalar cs

/-- How deep arrays and objects may nest. -/
def depthLimit : Nat := 127

/-- The value of a JSON text. -/
def parse? (s : String) : Option Value :=
  match readValue depthLimit s.toList with
  | some (value, rest) => if (skipSpace rest).isEmpty then some value else none
  | none => none

end Declgen.Json
